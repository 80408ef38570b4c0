import Mathlib.Data.List.Nodup
import Simultaneous.Proofs.Incidence.Table

/-!
The table of a list of equations, read by rows and by columns. Main statement: the unknowns have
columns in the order in which the equations name them first, a row and a column list each other once
if the equation of the row mentions the unknown of the column and not at all otherwise, and so the
length of a column counts the equations that mention its unknown.
-/

namespace Simultaneous

theorem firstOccurrences_concat {α : Type} [DecidableEq α] (xs : List α) (x : α) :
    firstOccurrences (xs ++ [x]) =
      if x ∈ xs then firstOccurrences xs else firstOccurrences xs ++ [x] := by
  rw [firstOccurrences, List.foldl_append]
  change (if x ∈ firstOccurrences xs then firstOccurrences xs else firstOccurrences xs ++ [x]) = _
  simp only [mem_firstOccurrences]

theorem pairwise_firstOccurrences {α : Type} [DecidableEq α] (xs : List α) :
    (firstOccurrences xs).Pairwise fun x y => xs.idxOf x < xs.idxOf y := by
  induction xs using List.reverseRecOn with
  | nil => exact List.Pairwise.nil
  | append_singleton front last ih =>
    -- A member added at the end moves no earlier one.
    have earlier : (firstOccurrences front).Pairwise fun x y =>
        (front ++ [last]).idxOf x < (front ++ [last]).idxOf y := by
      apply ih.imp_of_mem
      intro x y hx hy less
      rw [mem_firstOccurrences] at hx hy
      rwa [List.idxOf_append_of_mem hx, List.idxOf_append_of_mem hy]
    rw [firstOccurrences_concat]
    split
    next => exact earlier
    next new =>
      apply List.pairwise_append.2
      refine ⟨earlier, List.pairwise_singleton _ _, ?_⟩
      intro x hx y hy
      rw [mem_firstOccurrences] at hx
      obtain rfl := List.mem_singleton.1 hy
      calc
        (front ++ [y]).idxOf x = front.idxOf x := List.idxOf_append_of_mem hx
        _ < front.length := List.idxOf_lt_length_of_mem hx
        _ = (front ++ [y]).idxOf y := by
          rw [List.idxOf_append_of_notMem new, List.idxOf_cons_self, Nat.add_zero]

namespace Incidence

section Table

variable {g : Incidence} {equations : List (Nat × List String)}

theorem Tabulates.row_nodup (t : Tabulates g equations) (i : Nat) : (g.row i).Nodup := by
  cases entry : equations[i]? with
  | none =>
    rw [row, t.rows_eq, List.getElem?_map, entry]
    exact List.nodup_nil
  | some e =>
    rw [t.row_eq entry]
    apply (nodup_firstOccurrences e.2).map_on
    intro v named w _ same
    rw [mem_firstOccurrences] at named
    have known : v ∈ g.unknowns :=
      (t.mem_unknowns v).2 ⟨e, List.mem_of_getElem? entry, named⟩
    exact (List.idxOf_inj known).1 same

theorem Mirrored.column_nodup (m : Mirrored g) (j : Nat) : (g.column j).Nodup := by
  rw [m.column_eq]
  exact List.nodup_range.filter _

theorem map_row_range (g : Incidence) : (List.range g.rows.length).map g.row = g.rows := by
  apply List.ext_getElem
  · rw [List.length_map, List.length_range]
  · intro i _ inside
    rw [List.getElem_map, List.getElem_range, row, List.getElem?_eq_getElem inside,
      Option.getD_some]

/-- A column is as long as there are equations that name its unknown. -/
theorem Mirrored.references_eq (m : Mirrored g) (t : Tabulates g equations) {j : Nat} {v : String}
    (column : g.unknowns[j]? = some v) :
    g.references j = equations.countP fun e => v ∈ e.2 := by
  have place : g.unknowns.idxOf v = j := by
    obtain ⟨inside, rfl⟩ := List.getElem?_eq_some_iff.1 column
    exact t.unknowns_nodup.idxOf_getElem j inside
  calc
    g.references j = (List.range g.rows.length).countP fun i => j ∈ g.row i := by
      rw [references, m.column_eq, List.countP_eq_length_filter]
    _ = g.rows.countP fun met => j ∈ met := by
      conv_rhs => rw [← g.map_row_range, List.countP_map]
      rfl
    _ = equations.countP fun e => j ∈ (firstOccurrences e.2).map g.unknowns.idxOf := by
      rw [t.rows_eq, List.countP_map]
      rfl
    _ = equations.countP fun e => v ∈ e.2 := by
      apply List.countP_congr
      intro e member
      simp only [decide_eq_true_eq, List.mem_map, mem_firstOccurrences]
      constructor
      · rintro ⟨w, named, same⟩
        have known : w ∈ g.unknowns := (t.mem_unknowns w).2 ⟨e, member, named⟩
        rwa [← (List.idxOf_inj known).1 (same.trans place.symm)]
      · exact fun named => ⟨v, named, place⟩

theorem Mirrored.column_ne_nil (m : Mirrored g) (t : Tabulates g equations) {j : Nat} {v : String}
    (column : g.unknowns[j]? = some v) : g.column j ≠ [] := by
  obtain ⟨e, member, named⟩ := (t.mem_unknowns v).1 (List.mem_of_getElem? column)
  have positive : 0 < g.references j := by
    rw [m.references_eq t column]
    exact List.countP_pos_iff.2 ⟨e, member, decide_eq_true named⟩
  exact List.length_pos_iff.1 positive

end Table

theorem count_eq_one_iff_mem {xs : List Nat} (distinct : xs.Nodup) (x : Nat) :
    xs.count x = 1 ↔ x ∈ xs := by
  constructor
  · intro once
    exact List.count_pos_iff.1 (Nat.lt_of_lt_of_eq Nat.one_pos once.symm)
  · exact List.count_eq_one_of_mem distinct

section Equations

variable (equations : List (Nat × List String)) (isUnknown : String → Bool)

theorem ofEquations_concat (e : Nat × List String) :
    ofEquations (equations ++ [e]) isUnknown =
      (ofEquations equations isUnknown).add e.1 (e.2.filter isUnknown) := by
  rw [ofEquations, List.foldl_append]
  rfl

def named : List String := equations.flatMap fun e => e.2.filter isUnknown

theorem mem_named (v : String) :
    v ∈ named equations isUnknown ↔ ∃ e ∈ equations, v ∈ e.2 ∧ isUnknown v := by
  simp only [named, List.mem_flatMap, List.mem_filter]

theorem unknowns_ofEquations :
    (ofEquations equations isUnknown).unknowns = firstOccurrences (named equations isUnknown) := by
  induction equations using List.reverseRecOn with
  | nil => rfl
  | append_singleton front last ih =>
    have together : named (front ++ [last]) isUnknown =
        named front isUnknown ++ last.2.filter isUnknown := by
      simp only [named, List.flatMap_append, List.flatMap_singleton]
    rw [ofEquations_concat, together, firstOccurrences_append, add, ih]
    simp only [mem_firstOccurrences]

theorem mem_unknowns_ofEquations (v : String) :
    v ∈ (ofEquations equations isUnknown).unknowns ↔ v ∈ named equations isUnknown := by
  rw [unknowns_ofEquations, mem_firstOccurrences]

/-- Equation `i` mentions the unknown that the table has in column `j`. -/
def Mentions (g : Incidence) (i j : Nat) : Prop :=
  ∃ e v, equations[i]? = some e ∧ v ∈ e.2 ∧ isUnknown v ∧ g.unknowns[j]? = some v

theorem mem_row_iff_mentions (i j : Nat) :
    j ∈ (ofEquations equations isUnknown).row i ↔
      Mentions equations isUnknown (ofEquations equations isUnknown) i j := by
  have t := tabulates_ofEquations equations isUnknown
  cases entry : equations[i]? with
  | none =>
    constructor
    · intro met
      have inside := t.row_lt_length met
      rw [t.length_equations, List.length_map] at inside
      exact absurd inside (Nat.not_lt.2 (List.getElem?_eq_none_iff.1 entry))
    · rintro ⟨e, v, found, -⟩
      rw [entry] at found
      cases found
  | some e =>
    have filtered : (equations.map fun e => (e.1, e.2.filter isUnknown))[i]? =
        some (e.1, e.2.filter isUnknown) := by
      rw [List.getElem?_map, entry, Option.map_some]
    rw [t.mem_row filtered]
    simp only [Mentions, entry, Option.some.injEq, List.mem_filter]
    constructor
    · rintro ⟨v, ⟨named, free⟩, column⟩
      exact ⟨e, v, rfl, named, free, column⟩
    · rintro ⟨_, v, rfl, named, free, column⟩
      exact ⟨v, ⟨named, free⟩, column⟩

theorem count_row_eq_one_iff (i j : Nat) :
    ((ofEquations equations isUnknown).row i).count j = 1 ↔
      Mentions equations isUnknown (ofEquations equations isUnknown) i j := by
  rw [count_eq_one_iff_mem ((tabulates_ofEquations equations isUnknown).row_nodup i),
    mem_row_iff_mentions]

theorem count_column_eq_one_iff (i j : Nat) :
    ((ofEquations equations isUnknown).column j).count i = 1 ↔
      Mentions equations isUnknown (ofEquations equations isUnknown) i j := by
  have m := mirrored_ofEquations equations isUnknown
  rw [count_eq_one_iff_mem (m.column_nodup j),
    m.mem_column_iff (tabulates_ofEquations equations isUnknown), mem_row_iff_mentions]

/-- What is known besides does not matter to the references of an unknown. -/
theorem references_ofEquations {j : Nat} {v : String}
    (column : (ofEquations equations isUnknown).unknowns[j]? = some v) :
    (ofEquations equations isUnknown).references j = equations.countP fun e => v ∈ e.2 := by
  have listed := (mem_unknowns_ofEquations equations isUnknown v).1 (List.mem_of_getElem? column)
  obtain ⟨_, _, _, free⟩ := (mem_named equations isUnknown v).1 listed
  rw [(mirrored_ofEquations equations isUnknown).references_eq
    (tabulates_ofEquations equations isUnknown) column, List.countP_map]
  apply List.countP_congr
  intro e _
  simp only [Function.comp_apply, decide_eq_true_eq, List.mem_filter, free, and_true]

end Equations

/-- The table holds what is unknown in equations, the same by rows and by columns. -/
structure AgreesWith (g : Incidence) (equations : List (Nat × List String))
    (isUnknown : String → Bool) : Prop where
  /-- there is a row per equation, in their order -/
  equations_eq : g.equations = equations.map (·.1)
  length_rows : g.rows.length = equations.length
  /-- there is a column per unknown -/
  length_columns : g.columns.length = g.unknowns.length
  unknowns_nodup : g.unknowns.Nodup
  mem_unknowns : ∀ v, v ∈ g.unknowns ↔ v ∈ named equations isUnknown
  /-- unknowns are numbered in the order in which they are first named -/
  first_named : g.unknowns.Pairwise fun v w =>
    (named equations isUnknown).idxOf v < (named equations isUnknown).idxOf w
  /-- a row has a column once just if the column has the row once -/
  once_iff_once : ∀ i j, (g.row i).count j = 1 ↔ (g.column j).count i = 1
  once_iff_mentions : ∀ i j, (g.column j).count i = 1 ↔ Mentions equations isUnknown g i j
  /-- and nothing is listed twice -/
  row_nodup : ∀ i, (g.row i).Nodup
  column_nodup : ∀ j, (g.column j).Nodup
  column_ne_nil : ∀ j < g.unknowns.length, g.column j ≠ []
  /-- the references to an unknown are the equations that mention it -/
  references_eq : ∀ j v, g.unknowns[j]? = some v →
    g.references j = equations.countP fun e => v ∈ e.2

/-- Whatever the equations and whatever is unknown, the table of the equations agrees with them:
names may be repeated in an equation, and equations in the list. -/
theorem rows_and_columns_agree (equations : List (Nat × List String)) (isUnknown : String → Bool) :
    (ofEquations equations isUnknown).AgreesWith equations isUnknown := by
  have t := tabulates_ofEquations equations isUnknown
  have m := mirrored_ofEquations equations isUnknown
  exact {
    equations_eq := by
      rw [t.equations_eq, List.map_map]
      rfl
    length_rows := by rw [t.length_rows, t.length_equations, List.length_map]
    length_columns := m.length_columns
    unknowns_nodup := t.unknowns_nodup
    mem_unknowns := mem_unknowns_ofEquations equations isUnknown
    first_named := by
      rw [unknowns_ofEquations]
      exact pairwise_firstOccurrences _
    once_iff_once := by
      intro i j
      rw [count_row_eq_one_iff, count_column_eq_one_iff]
    once_iff_mentions := count_column_eq_one_iff equations isUnknown
    row_nodup := t.row_nodup
    column_nodup := m.column_nodup
    column_ne_nil := fun j inside => m.column_ne_nil t (List.getElem?_eq_getElem inside)
    references_eq := fun j v column => references_ofEquations equations isUnknown column }

example : ofEquations [(7, ["y", "x", "y"]), (9, []), (7, ["x", "z"])] (· ≠ "z") =
    ⟨[7, 9, 7], ["y", "x"], [[0, 1], [], [1]], [[0], [0, 2]]⟩ := by
  decide

end Incidence

end Simultaneous
