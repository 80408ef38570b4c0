import Mathlib.Data.List.Nodup
import Simultaneous.Incidence.Layout
import Simultaneous.Proofs.Graph.Search

/-!
A layout orders all rows and all columns, whatever starts are tried and however layouts are ranked.
-/

namespace Simultaneous

open scoped List

open Incidence

namespace Incidence

theorem nodes_nodup (g : Incidence) : g.nodes.Nodup := by
  refine List.nodup_append.2 ⟨?_, ?_, ?_⟩
  · exact List.Nodup.map (fun _ _ same => by cases same; rfl) List.nodup_range
  · exact List.Nodup.map (fun _ _ same => by cases same; rfl) List.nodup_range
  · intro v column w row same
    obtain ⟨j, _, rfl⟩ := List.mem_map.1 column
    obtain ⟨i, _, rfl⟩ := List.mem_map.1 row
    cases same

theorem components_perm (g : Incidence) (start? : Option Node) :
    (g.components start?).flatten ~ g.nodes :=
  Graph.components_flatten_perm g.neighbours g.nodes _ g.nodes_nodup
    fun _ member => List.mem_append_right _ member

theorem filterMap_row_nodes (g : Incidence) :
    g.nodes.filterMap Node.row? = List.range g.equations.length := by
  rw [nodes, List.filterMap_append, List.filterMap_map, List.filterMap_map]
  have columns : (Node.row? ∘ Node.column) = fun _ : Nat => none := rfl
  have rows : (Node.row? ∘ Node.row) = some := rfl
  rw [columns, rows, List.filterMap_some, List.filterMap_eq_nil_iff.2 fun _ _ => rfl,
    List.nil_append]

theorem filterMap_column_nodes (g : Incidence) :
    g.nodes.filterMap Node.column? = List.range g.unknowns.length := by
  rw [nodes, List.filterMap_append, List.filterMap_map, List.filterMap_map]
  have columns : (Node.column? ∘ Node.column) = some := rfl
  have rows : (Node.column? ∘ Node.row) = fun _ : Nat => none := rfl
  rw [columns, rows, List.filterMap_some, List.filterMap_eq_nil_iff.2 fun _ _ => rfl,
    List.append_nil]

end Incidence

namespace Heuristic

theorem layoutFrom_rows_perm (g : Incidence) (start? : Option Node) :
    (layoutFrom g start?).rows ~ List.range g.equations.length := by
  rw [← g.filterMap_row_nodes]
  exact (g.components_perm start?).filterMap _

theorem layoutFrom_columns_perm (g : Incidence) (start? : Option Node) :
    (layoutFrom g start?).columns ~ List.range g.unknowns.length := by
  rw [← g.filterMap_column_nodes]
  exact (g.components_perm start?).filterMap _

theorem foldl_better_mem (h : Heuristic) (g : Incidence) (first : Layout) (others : List Layout) :
    others.foldl (h.better g) first ∈ first :: others := by
  induction others generalizing first with
  | nil => exact List.mem_singleton_self first
  | cons next rest ih =>
    rw [List.foldl_cons]
    have later := ih (h.better g first next)
    unfold better at later ⊢
    split at later
    next lower =>
      rw [if_pos lower]
      exact List.mem_cons_of_mem _ later
    next higher =>
      rw [if_neg higher]
      rcases List.mem_cons.1 later with same | further
      · rw [same]
        exact List.mem_cons_self
      · exact List.mem_cons_of_mem _ (List.mem_cons_of_mem _ further)

theorem exists_layout_eq (h : Heuristic) (g : Incidence) :
    ∃ start?, h.layout g = layoutFrom g start? := by
  unfold layout
  split
  next none_tried => exact ⟨none, rfl⟩
  next first others tried =>
    have member := foldl_better_mem h g first others
    rw [← tried, List.mem_map] at member
    obtain ⟨start?, _, same⟩ := member
    exact ⟨start?, same.symm⟩

theorem layout_rows_perm (h : Heuristic) (g : Incidence) :
    (h.layout g).rows ~ List.range g.equations.length := by
  obtain ⟨start?, same⟩ := h.exists_layout_eq g
  rw [same]
  exact layoutFrom_rows_perm g start?

theorem layout_columns_perm (h : Heuristic) (g : Incidence) :
    (h.layout g).columns ~ List.range g.unknowns.length := by
  obtain ⟨start?, same⟩ := h.exists_layout_eq g
  rw [same]
  exact layoutFrom_columns_perm g start?

end Heuristic

end Simultaneous
