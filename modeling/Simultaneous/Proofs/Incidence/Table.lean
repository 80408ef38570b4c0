import Mathlib.Data.List.Basic
import Mathlib.Data.List.Induction
import Simultaneous.Incidence.Basic

/-!
What the incidence table of a list of equations holds: a row per equation in their order, the
distinct unknowns that the equations name, in each row the columns of the names in it, and in each
column the rows that meet it.
-/

namespace Simultaneous.Incidence

structure Tabulates (g : Incidence) (equations : List (Nat × List String)) : Prop where
  equations_eq : g.equations = equations.map (·.1)
  unknowns_nodup : g.unknowns.Nodup
  mem_unknowns : ∀ v, v ∈ g.unknowns ↔ ∃ e ∈ equations, v ∈ e.2
  rows_eq : g.rows = equations.map fun e => (firstOccurrences e.2).map g.unknowns.idxOf

theorem tabulates_empty : Tabulates empty [] :=
  ⟨rfl, List.nodup_nil, by simp [empty], rfl⟩

namespace Tabulates

variable {g : Incidence} {equations : List (Nat × List String)}

theorem map_idxOf_append (known fresh names : List String) (all : ∀ v ∈ names, v ∈ known) :
    names.map (known ++ fresh).idxOf = names.map known.idxOf := by
  apply List.map_congr_left
  intro v member
  exact List.idxOf_append_of_mem (all v member)

theorem add (t : Tabulates g equations) (id : Nat) (names : List String) :
    Tabulates (g.add id names) (equations ++ [(id, names)]) where
  equations_eq := by
    simp only [Incidence.add, t.equations_eq, List.map_append, List.map_cons, List.map_nil]
  unknowns_nodup := by
    refine List.nodup_append.2 ⟨t.unknowns_nodup, (nodup_firstOccurrences names).filter _, ?_⟩
    intro v known w fresh same
    have new := (List.mem_filter.1 fresh).2
    rw [decide_eq_true_iff] at new
    exact new (same ▸ known)
  mem_unknowns := by
    intro v
    simp only [Incidence.add, List.mem_append, List.mem_filter, mem_firstOccurrences,
      decide_eq_true_eq, List.mem_singleton]
    constructor
    · rintro (known | ⟨named, _⟩)
      · obtain ⟨e, member, inside⟩ := (t.mem_unknowns v).1 known
        exact ⟨e, .inl member, inside⟩
      · exact ⟨(id, names), .inr rfl, named⟩
    · rintro ⟨e, member | rfl, inside⟩
      · exact .inl ((t.mem_unknowns v).2 ⟨e, member, inside⟩)
      · by_cases known : v ∈ g.unknowns
        · exact .inl known
        · exact .inr ⟨inside, known⟩
  rows_eq := by
    simp only [Incidence.add, t.rows_eq, List.map_append, List.map_cons, List.map_nil]
    congr 1
    apply List.map_congr_left
    intro e member
    symm
    apply map_idxOf_append
    intro v named
    exact (t.mem_unknowns v).2 ⟨e, member, (mem_firstOccurrences e.2 v).1 named⟩

theorem row_eq (t : Tabulates g equations) {r : Nat} {e : Nat × List String}
    (entry : equations[r]? = some e) :
    g.row r = (firstOccurrences e.2).map g.unknowns.idxOf := by
  rw [row, t.rows_eq, List.getElem?_map, entry, Option.map_some, Option.getD_some]

theorem mem_row (t : Tabulates g equations) {r : Nat} {e : Nat × List String}
    (entry : equations[r]? = some e) (c : Nat) :
    c ∈ g.row r ↔ ∃ v ∈ e.2, g.unknowns[c]? = some v := by
  rw [t.row_eq entry, List.mem_map]
  constructor
  · rintro ⟨v, named, rfl⟩
    rw [mem_firstOccurrences] at named
    have known := (t.mem_unknowns v).2 ⟨e, List.mem_of_getElem? entry, named⟩
    exact ⟨v, named, List.getElem?_idxOf known⟩
  · rintro ⟨v, named, column⟩
    refine ⟨v, (mem_firstOccurrences e.2 v).2 named, ?_⟩
    obtain ⟨bound, rfl⟩ := List.getElem?_eq_some_iff.1 column
    exact t.unknowns_nodup.idxOf_getElem c bound

theorem length_equations (t : Tabulates g equations) :
    g.equations.length = equations.length := by
  rw [t.equations_eq, List.length_map]

theorem length_rows (t : Tabulates g equations) : g.rows.length = g.equations.length := by
  rw [t.rows_eq, t.length_equations, List.length_map]

theorem lt_length_unknowns (t : Tabulates g equations) {r c : Nat} (met : c ∈ g.row r) :
    c < g.unknowns.length := by
  cases entry : equations[r]? with
  | none =>
    rw [row, t.rows_eq, List.getElem?_map, entry] at met
    cases met
  | some e =>
    obtain ⟨v, -, column⟩ := (t.mem_row entry c).1 met
    exact (List.getElem?_eq_some_iff.1 column).1

theorem row_lt_length (t : Tabulates g equations) {r c : Nat} (met : c ∈ g.row r) :
    r < g.equations.length := by
  by_contra outside
  rw [row, List.getElem?_eq_none (t.length_rows ▸ Nat.le_of_not_lt outside)] at met
  cases met

end Tabulates

theorem tabulates_ofEquations (equations : List (Nat × List String)) (isUnknown : String → Bool) :
    Tabulates (ofEquations equations isUnknown)
      (equations.map fun e => (e.1, e.2.filter isUnknown)) := by
  induction equations using List.reverseRecOn with
  | nil => exact tabulates_empty
  | append_singleton front last ih =>
    rw [ofEquations, List.foldl_append, List.map_append]
    exact ih.add last.1 (last.2.filter isUnknown)

/-! ### The columns -/

/-- There is a column for each unknown, and it lists the rows that meet it, in their order. -/
structure Mirrored (g : Incidence) : Prop where
  length_columns : g.columns.length = g.unknowns.length
  column_eq : ∀ j, g.column j = (List.range g.rows.length).filter fun i => j ∈ g.row i

theorem mirrored_empty : Mirrored empty := by
  refine ⟨rfl, fun j => ?_⟩
  rw [column, empty, List.getElem?_nil]
  rfl

theorem row_add (g : Incidence) (id : Nat) (names : List String) {i : Nat}
    (inside : i < g.rows.length) : (g.add id names).row i = g.row i := by
  simp only [row, add, List.getElem?_append_left inside]

theorem row_add_last (g : Incidence) (id : Nat) (names : List String) :
    (g.add id names).row g.rows.length =
      (firstOccurrences names).map (g.add id names).unknowns.idxOf := by
  rw [row, add, List.getElem?_concat_length, Option.getD_some]

theorem meeting_add (g : Incidence) (id : Nat) (names : List String) (j : Nat) :
    ((List.range (g.add id names).rows.length).filter fun i => j ∈ (g.add id names).row i) =
      ((List.range g.rows.length).filter fun i => j ∈ g.row i) ++
        if j ∈ (g.add id names).row g.rows.length then [g.rows.length] else [] := by
  have longer : (g.add id names).rows.length = g.rows.length + 1 := by
    rw [add, List.length_append, List.length_singleton]
  have before : ((List.range g.rows.length).filter fun i => j ∈ (g.add id names).row i) =
      (List.range g.rows.length).filter fun i => j ∈ g.row i := by
    apply List.filter_congr
    intro i member
    rw [row_add g id names (List.mem_range.1 member)]
  rw [longer, List.range_succ, List.filter_append, before]
  by_cases met : j ∈ (g.add id names).row g.rows.length
  · rw [if_pos met, List.filter_cons_of_pos (by simpa using met), List.filter_nil]
  · rw [if_neg met, List.filter_cons_of_neg (by simpa using met), List.filter_nil]

def widened (g : Incidence) (names : List String) : List (List Nat) :=
  g.columns ++ ((firstOccurrences names).filter (· ∉ g.unknowns)).map fun _ => []

theorem getElem?_widened (g : Incidence) (names : List String) (j : Nat) :
    (g.widened names)[j]?.getD [] = g.column j := by
  rw [widened, List.getElem?_append, column]
  split
  next => rfl
  next outside =>
    rw [List.getElem?_eq_none (Nat.le_of_not_lt outside), List.getElem?_map]
    cases ((firstOccurrences names).filter (· ∉ g.unknowns))[j - g.columns.length]? <;> rfl

namespace Mirrored

variable {g : Incidence} {equations : List (Nat × List String)}

theorem column_add (m : Mirrored g) (t : Tabulates g equations) (id : Nat) (names : List String)
    (j : Nat) :
    (g.add id names).column j =
      g.column j ++ if j ∈ (g.add id names).row g.rows.length then [g.rows.length] else [] := by
  have entry : (g.add id names).columns[j]? = (g.widened names)[j]?.map fun met =>
      if j ∈ (g.add id names).row g.rows.length then met ++ [g.rows.length] else met := by
    rw [row_add_last]
    exact List.getElem?_mapIdx
  have inside (met : j ∈ (g.add id names).row g.rows.length) : j < (g.widened names).length := by
    have bound := (t.add id names).lt_length_unknowns met
    rw [Incidence.add, List.length_append] at bound
    rw [widened, List.length_append, List.length_map, m.length_columns]
    exact bound
  rw [column, entry, ← g.getElem?_widened names j]
  cases found : (g.widened names)[j]? with
  | some met =>
    rw [Option.map_some, Option.getD_some, Option.getD_some]
    split
    next => rfl
    next => rw [List.append_nil]
  | none =>
    rw [if_neg fun met => Nat.not_lt.2 (List.getElem?_eq_none_iff.1 found) (inside met)]
    rfl

theorem add (m : Mirrored g) (t : Tabulates g equations) (id : Nat) (names : List String) :
    Mirrored (g.add id names) where
  length_columns := by
    simp only [Incidence.add, List.length_mapIdx, List.length_append, List.length_map,
      m.length_columns]
  column_eq := by
    intro j
    rw [m.column_add t, m.column_eq, meeting_add]

theorem mem_column_iff (m : Mirrored g) (t : Tabulates g equations) (i j : Nat) :
    i ∈ g.column j ↔ j ∈ g.row i := by
  rw [m.column_eq, List.mem_filter, List.mem_range, t.length_rows, decide_eq_true_eq]
  exact ⟨fun both => both.2, fun met => ⟨t.row_lt_length met, met⟩⟩

end Mirrored

theorem mirrored_ofEquations (equations : List (Nat × List String)) (isUnknown : String → Bool) :
    Mirrored (ofEquations equations isUnknown) := by
  induction equations using List.reverseRecOn with
  | nil => exact mirrored_empty
  | append_singleton front last ih =>
    rw [ofEquations, List.foldl_append]
    exact ih.add (tabulates_ofEquations front isUnknown) last.1 (last.2.filter isUnknown)

end Simultaneous.Incidence
