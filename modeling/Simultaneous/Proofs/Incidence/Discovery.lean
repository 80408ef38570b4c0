import Simultaneous.Proofs.Graph.Discovery
import Simultaneous.Proofs.Incidence.Components

/-!
The rows and columns of an incidence table in the order in which a recursive search finds them. The
layout of the table, and so its blocks, follow from this order alone.
-/

namespace Simultaneous.Incidence

open Simultaneous.Graph

section Table

variable {g : Incidence} {equations : List (Nat × List String)}

theorem mem_neighbours_symm (t : Tabulates g equations) (m : Mirrored g) (v w : Node)
    (edge : w ∈ g.neighbours v) : v ∈ g.neighbours w := by
  rw [mem_neighbours_iff t m] at edge ⊢
  exact edge.symm

end Table

/-- The components of the table of any equations come in the order of the plain recursive search. Its
roots are the node that it starts from, if that exists, and then all nodes in their order; a root
that was found before starts nothing, and every other one makes one component, which lists what was
found from it from the last node to the root. A node of the table stands at its own place, so the
search does start from it. -/
theorem components_in_order_of_discovery (equations : List (Nat × List String))
    (isUnknown : String → Bool) (start? : Option Node) :
    let g := ofEquations equations isUnknown
    let first? := start?.bind fun v => g.nodes[g.place v]?
    g.components start? =
        (trees g.neighbours g.nodes (first?.toList ++ g.nodes)).map List.reverse ∧
      ∀ v ∈ g.nodes, start? = some v → first? = some v := by
  intro g first?
  have t := tabulates_ofEquations equations isUnknown
  have m := mirrored_ofEquations equations isUnknown
  constructor
  · exact components_eq_trees (mem_neighbours_symm t m) g.nodes_nodup _
  · rintro v node rfl
    exact g.getElem?_place node

theorem pair_in_order_of_discovery :
    let g := ofEquations [(0, ["x", "y"]), (1, ["y", "z"])] fun _ => true
    g.components (some (.row 1)) =
        [[.column 2, .column 0, .row 0, .column 1, .row 1]] ∧
      Node.row 1 ∈ g.nodes ∧ g.nodes[g.place (.row 1)]? = some (.row 1) := by
  intro g
  obtain ⟨order, first⟩ := components_in_order_of_discovery
    [(0, ["x", "y"]), (1, ["y", "z"])] (fun _ => true) (some (.row 1))
  have node : Node.row 1 ∈ g.nodes := by decide +kernel
  refine ⟨order.trans ?_, node, first _ node rfl⟩
  cbv

end Simultaneous.Incidence
