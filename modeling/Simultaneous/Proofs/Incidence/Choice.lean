import Mathlib.Data.List.Induction
import Simultaneous.Proofs.Incidence.Layout

/-!
The layout that a decomposition works with. Among the layouts that the starts lead to, none ranks
better, and of those that rank the same it comes first.
-/

namespace Simultaneous.Heuristic

open scoped List

open Incidence

variable (h : Heuristic) (g : Incidence)

/-- A place of a list where a layout stands that ranks at least as well as all others, and better
than all before it. -/
structure IsFirstBest (layouts : List Layout) (i : Nat) (best : Layout) : Prop where
  at_place : layouts[i]? = some best
  least : ∀ other ∈ layouts, h.score g best ≤ h.score g other
  first : ∀ j < i, ∀ other, layouts[j]? = some other → h.score g best < h.score g other

variable {h g}

theorem IsFirstBest.append {layouts : List Layout} {i : Nat} {best : Layout}
    (found : IsFirstBest h g layouts i best) (next : Layout) :
    ∃ j, IsFirstBest h g (layouts ++ [next]) j (h.better g best next) := by
  by_cases lower : h.score g next < h.score g best
  · have below : ∀ other ∈ layouts, h.score g next < h.score g other := by
      intro other member
      have least := found.least other member
      omega
    rw [better, if_pos lower]
    refine ⟨layouts.length, List.getElem?_concat_length, ?_, ?_⟩
    · intro other member
      rcases List.mem_append.1 member with earlier | last
      · exact Nat.le_of_lt (below other earlier)
      · exact Nat.le_of_eq (congrArg (h.score g) (List.mem_singleton.1 last).symm)
    · intro j before other at_place
      rw [List.getElem?_append_left before] at at_place
      exact below other (List.mem_of_getElem? at_place)
  · have inside : i < layouts.length := (List.getElem?_eq_some_iff.1 found.at_place).1
    rw [better, if_neg lower]
    refine ⟨i, ?_, ?_, ?_⟩
    · rw [List.getElem?_append_left inside]
      exact found.at_place
    · intro other member
      rcases List.mem_append.1 member with earlier | last
      · exact found.least other earlier
      · rw [List.mem_singleton.1 last]
        omega
    · intro j before other at_place
      rw [List.getElem?_append_left (by omega)] at at_place
      exact found.first j before other at_place

/-- Taking the better of two along a list leads to the first of its best layouts. -/
theorem isFirstBest_foldl (first : Layout) (others : List Layout) :
    ∃ i, IsFirstBest h g (first :: others) i (others.foldl (h.better g) first) := by
  induction others using List.reverseRecOn with
  | nil =>
    refine ⟨0, rfl, ?_, ?_⟩
    · intro other member
      exact Nat.le_of_eq (congrArg (h.score g) (List.mem_singleton.1 member).symm)
    · intro j before
      omega
  | append_singleton others next ih =>
    obtain ⟨i, found⟩ := ih
    rw [List.foldl_append, ← List.cons_append]
    exact found.append next

theorem getElem?_starts {i : Nat} {start? : Option Node} :
    (h.starts g)[i]? = some start? ↔
      (h.candidates g h.limit = [] ∧ i = 0 ∧ start? = none) ∨
      ∃ v, (h.candidates g h.limit)[i]? = some v ∧ start? = some v := by
  unfold starts
  split
  next no_candidates =>
    rw [no_candidates]
    simp [List.getElem?_singleton, eq_comm]
  next some_candidates =>
    rw [List.getElem?_map, Option.map_eq_some_iff]
    constructor
    · intro ⟨v, candidate, same⟩
      exact .inr ⟨v, candidate, same.symm⟩
    · intro start
      rcases start with ⟨none_tried, -, -⟩ | ⟨v, candidate, same⟩
      · exact absurd none_tried some_candidates
      · exact ⟨v, candidate, same.symm⟩

theorem starts_ne_nil : h.starts g ≠ [] := by
  unfold starts
  split
  next => exact List.cons_ne_nil none []
  next some_candidates =>
    intro none_tried
    exact some_candidates (List.map_eq_nil_iff.1 none_tried)

theorem layout_isFirstBest :
    ∃ i, IsFirstBest h g ((h.starts g).map (layoutFrom g)) i (h.layout g) := by
  unfold layout
  split
  next none_tried => exact absurd (List.map_eq_nil_iff.1 none_tried) starts_ne_nil
  next first others tried =>
    rw [tried]
    exact isFirstBest_foldl first others

/-- The chosen layout orders all rows and all columns. It comes from a candidate, or from no start
if there is none; no candidate leads to a layout that ranks better, and every candidate before the
chosen one to a layout that ranks worse. -/
theorem layout_is_first_of_best (h : Heuristic) (g : Incidence) :
    (h.layout g).rows ~ List.range g.equations.length ∧
    (h.layout g).columns ~ List.range g.unknowns.length ∧
    ∃ (i : Nat) (start? : Option Node), h.layout g = layoutFrom g start? ∧
      ((h.candidates g h.limit = [] ∧ i = 0 ∧ start? = none) ∨
        ∃ v, (h.candidates g h.limit)[i]? = some v ∧ start? = some v) ∧
      (∀ v ∈ h.candidates g h.limit,
        h.score g (h.layout g) ≤ h.score g (layoutFrom g (some v))) ∧
      ∀ j < i, ∀ v, (h.candidates g h.limit)[j]? = some v →
        h.score g (h.layout g) < h.score g (layoutFrom g (some v)) := by
  obtain ⟨i, found⟩ := h.layout_isFirstBest (g := g)
  have at_place := found.at_place
  rw [List.getElem?_map, Option.map_eq_some_iff] at at_place
  obtain ⟨start?, start_at, same⟩ := at_place
  have tried {j : Nat} {v : Node} (candidate : (h.candidates g h.limit)[j]? = some v) :
      ((h.starts g).map (layoutFrom g))[j]? = some (layoutFrom g (some v)) := by
    rw [List.getElem?_map, getElem?_starts.2 (.inr ⟨v, candidate, rfl⟩)]
    rfl
  refine ⟨h.layout_rows_perm g, h.layout_columns_perm g, i, start?, same.symm,
    getElem?_starts.1 start_at, ?_, ?_⟩
  · intro v member
    obtain ⟨j, candidate⟩ := List.mem_iff_getElem?.1 member
    exact found.least _ (List.mem_of_getElem? (tried candidate))
  · intro j before v candidate
    exact found.first j before _ (tried candidate)

end Simultaneous.Heuristic
