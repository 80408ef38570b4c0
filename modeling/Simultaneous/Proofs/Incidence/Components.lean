import Simultaneous.Proofs.Graph.Connected
import Simultaneous.Proofs.Incidence.Layout
import Simultaneous.Proofs.Incidence.Table

/-!
The components of an incidence table are the sets of rows and columns that paths of incidences join,
whatever node the search starts from.
-/

namespace Simultaneous.Incidence

open Simultaneous.Graph

inductive Edge (g : Incidence) : Node → Node → Prop where
  | toColumn {i j : Nat} (met : j ∈ g.row i) : Edge g (.row i) (.column j)
  | toRow {i j : Nat} (met : j ∈ g.row i) : Edge g (.column j) (.row i)

def Joined (g : Incidence) : Node → Node → Prop := Relation.ReflTransGen g.Edge

theorem Edge.symm {g : Incidence} {v w : Node} (edge : g.Edge v w) : g.Edge w v := by
  cases edge with
  | toColumn met => exact .toRow met
  | toRow met => exact .toColumn met

theorem mem_nodes_column (g : Incidence) (j : Nat) :
    .column j ∈ g.nodes ↔ j < g.unknowns.length := by
  simp [nodes]

theorem mem_nodes_row (g : Incidence) (i : Nat) : .row i ∈ g.nodes ↔ i < g.equations.length := by
  simp [nodes]

theorem getElem?_place (g : Incidence) {v : Node} (node : v ∈ g.nodes) :
    g.nodes[g.place v]? = some v := by
  cases v with
  | column j =>
    have inside := (g.mem_nodes_column j).1 node
    rw [place, nodes, List.getElem?_append_left (by simpa using inside), List.getElem?_map,
      List.getElem?_range inside]
    rfl
  | row i =>
    have inside := (g.mem_nodes_row i).1 node
    rw [place, nodes, List.getElem?_append_right (by simp), List.getElem?_map, List.length_map,
      List.length_range, Nat.add_sub_cancel_left, List.getElem?_range inside]
    rfl

section Table

variable {g : Incidence} {equations : List (Nat × List String)}

theorem mem_neighbours_iff (t : Tabulates g equations) (m : Mirrored g) (v w : Node) :
    w ∈ g.neighbours v ↔ g.Edge v w := by
  cases v with
  | column j =>
    rw [neighbours, List.mem_map]
    constructor
    · rintro ⟨i, member, rfl⟩
      exact .toRow ((m.mem_column_iff t i j).1 member)
    · rintro (_ | met)
      exact ⟨_, (m.mem_column_iff t _ j).2 met, rfl⟩
  | row i =>
    rw [neighbours, List.mem_map]
    constructor
    · rintro ⟨j, member, rfl⟩
      exact .toColumn member
    · rintro (met | _)
      exact ⟨_, met, rfl⟩

theorem Edge.mem_nodes (t : Tabulates g equations) {v w : Node} (edge : g.Edge v w) :
    w ∈ g.nodes := by
  cases edge with
  | toColumn met => exact (g.mem_nodes_column _).2 (t.lt_length_unknowns met)
  | toRow met => exact (g.mem_nodes_row _).2 (t.row_lt_length met)

/-- The search follows the incidences. -/
theorem leads_eq_joined (t : Tabulates g equations) (m : Mirrored g) :
    Leads g.neighbours = g.Joined := by
  have same : (fun v w => w ∈ g.neighbours v) = g.Edge := by
    funext v w
    exact propext (mem_neighbours_iff t m v w)
  rw [Leads, Joined, same]

end Table

/-- The search from any node or from none finds the connected components of the table of any
equations: each row and each column is in one component, once, two of them are in the same component
just if a path of incidences joins them, no component is empty, and the first one holds the node
that the search starts from. -/
theorem components_are_joined_nodes (equations : List (Nat × List String))
    (isUnknown : String → Bool) (start? : Option Node) :
    let g := ofEquations equations isUnknown
    let found := g.components start?
    (∀ v, found.flatten.count v = if v ∈ g.nodes then 1 else 0) ∧
    (∀ v ∈ g.nodes, ∀ w ∈ g.nodes, (∃ c ∈ found, v ∈ c ∧ w ∈ c) ↔ g.Joined v w) ∧
    (∀ c ∈ found, c ≠ []) ∧
    ∀ v ∈ g.nodes, start? = some v → ∃ c, found.head? = some c ∧ v ∈ c := by
  intro g found
  have t := tabulates_ofEquations equations isUnknown
  have m := mirrored_ofEquations equations isUnknown
  have both (v w : Node) (edge : w ∈ g.neighbours v) : v ∈ g.neighbours w :=
    (mem_neighbours_iff t m w v).2 ((mem_neighbours_iff t m v w).1 edge).symm
  have closed (v : Node) (_ : v ∈ g.nodes) (w : Node) (edge : w ∈ g.neighbours v) : w ∈ g.nodes :=
    ((mem_neighbours_iff t m v w).1 edge).mem_nodes t
  have places := g.components_perm start?
  have class_of (c : List Node) (member : c ∈ found) : IsClass g.neighbours c :=
    isClass_of_mem_components both closed g.nodes_nodup _ member
  refine ⟨?_, ?_, ?_, ?_⟩
  · intro v
    rw [places.count_eq]
    split
    next node => exact List.count_eq_one_of_mem g.nodes_nodup node
    next none => exact List.count_eq_zero_of_not_mem none
  · intro v v_node w _
    rw [← leads_eq_joined t m]
    constructor
    · rintro ⟨c, member, v_mem, w_mem⟩
      obtain ⟨r, leads⟩ := class_of c member
      exact (((leads v).1 v_mem).symm both).trans ((leads w).1 w_mem)
    · intro path
      obtain ⟨c, member, v_mem⟩ := List.mem_flatten.1 (places.symm.subset v_node)
      obtain ⟨r, leads⟩ := class_of c member
      exact ⟨c, member, v_mem, (leads w).2 (((leads v).1 v_mem).trans path)⟩
  · rintro c member rfl
    obtain ⟨r, leads⟩ := class_of [] member
    exact List.not_mem_nil ((leads r).2 .refl)
  · rintro v node rfl
    have first : found = Graph.components g.neighbours g.nodes (v :: g.nodes) := by
      rw [show found = g.components (some v) from rfl, Incidence.components, Option.bind_some,
        g.getElem?_place node]
      rfl
    rw [first]
    exact exists_components_head both closed g.nodes_nodup node g.nodes

end Simultaneous.Incidence
