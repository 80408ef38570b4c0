import Simultaneous.Proofs.Incidence.Sides

/-!
Names noted one at a time. A name gets its column, a new one if need be, and unless the row under
way has the column already, the row and the column note each other. Main statement: the table of
equations comes out the same as when a whole equation is added at a time.
-/

namespace Simultaneous.Incidence

def withColumn (g : Incidence) (name : String) : Incidence :=
  if name ∈ g.unknowns then g
  else { g with unknowns := g.unknowns ++ [name], columns := g.columns ++ [[]] }

def note (s : Incidence × List Nat) (name : String) : Incidence × List Nat :=
  let g := s.1.withColumn name
  let j := g.unknowns.idxOf name
  if j ∈ s.2 then (g, s.2)
  else ({ g with columns := g.columns.modify j (· ++ [g.rows.length]) }, s.2 ++ [j])

def addByNames (g : Incidence) (equation : Nat) (names : List String) : Incidence :=
  let s := names.foldl note (g, [])
  { s.1 with equations := s.1.equations ++ [equation], rows := s.1.rows ++ [s.2] }

def metBy (row : Nat) (columns : List (List Nat)) (met : List Nat) : List (List Nat) :=
  columns.mapIdx fun j rows => if j ∈ met then rows ++ [row] else rows

section Columns

variable (row : Nat) (columns : List (List Nat)) (met : List Nat)

theorem metBy_nil : metBy row columns [] = columns := by
  apply List.ext_getElem?
  intro k
  simp only [metBy, List.getElem?_mapIdx, List.not_mem_nil, if_false, Option.map_id']

theorem metBy_concat (apart : columns.length ∉ met) :
    metBy row (columns ++ [[]]) met = metBy row columns met ++ [[]] := by
  rw [metBy, List.mapIdx_concat, if_neg apart]
  rfl

theorem modify_metBy (j : Nat) (apart : j ∉ met) :
    (metBy row columns met).modify j (· ++ [row]) = metBy row columns (met ++ [j]) := by
  apply List.ext_getElem?
  intro k
  rw [List.getElem?_modify, metBy, metBy, List.getElem?_mapIdx, List.getElem?_mapIdx]
  by_cases same : j = k
  · subst same
    simp [apart]
  · simp [same, Ne.symm same]

end Columns

section Names

variable (g : Incidence) (names : List String) (x : String)

def fresh : List String := (firstOccurrences names).filter (· ∉ g.unknowns)

def unknownsWith : List String := g.unknowns ++ g.fresh names

def columnsOf : List Nat := (firstOccurrences names).map (g.unknownsWith names).idxOf

def noted : Incidence × List Nat :=
  ({ g with
      unknowns := g.unknownsWith names
      columns := metBy g.rows.length (g.widened names) (g.columnsOf names) },
    g.columnsOf names)

theorem mem_unknownsWith : x ∈ g.unknownsWith names ↔ x ∈ g.unknowns ∨ x ∈ names := by
  rw [unknownsWith, fresh, List.mem_append, List.mem_filter, mem_firstOccurrences,
    decide_eq_true_eq]
  by_cases known : x ∈ g.unknowns <;> simp [known]

theorem fresh_concat :
    g.fresh (names ++ [x]) =
      if x ∈ g.unknownsWith names then g.fresh names else g.fresh names ++ [x] := by
  have known := g.mem_unknownsWith names x
  rw [fresh, firstOccurrences_concat]
  by_cases earlier : x ∈ names
  · rw [if_pos earlier, if_pos (known.2 (.inr earlier))]
    rfl
  · rw [if_neg earlier, List.filter_append]
    by_cases before : x ∈ g.unknowns
    · rw [if_pos (known.2 (.inl before)), List.filter_cons_of_neg (by simpa using before),
        List.filter_nil, List.append_nil]
      rfl
    · rw [if_neg fun both => (known.1 both).elim before earlier,
        List.filter_cons_of_pos (by simpa using before), List.filter_nil]
      rfl

theorem unknownsWith_concat :
    g.unknownsWith (names ++ [x]) =
      if x ∈ g.unknownsWith names then g.unknownsWith names else g.unknownsWith names ++ [x] := by
  rw [unknownsWith, fresh_concat]
  split
  next => rfl
  next => rw [← List.append_assoc, ← unknownsWith]

theorem widened_concat :
    g.widened (names ++ [x]) =
      if x ∈ g.unknownsWith names then g.widened names else g.widened names ++ [[]] := by
  rw [widened, ← fresh, fresh_concat]
  split
  next => rfl
  next => rw [List.map_append, ← List.append_assoc]; rfl

theorem idxOf_unknownsWith_concat {v : String} (earlier : v ∈ names) :
    (g.unknownsWith (names ++ [x])).idxOf v = (g.unknownsWith names).idxOf v := by
  rw [unknownsWith_concat]
  split
  next => rfl
  next => exact List.idxOf_append_of_mem ((g.mem_unknownsWith names v).2 (.inr earlier))

theorem columnsOf_concat :
    g.columnsOf (names ++ [x]) =
      if x ∈ names then g.columnsOf names
      else g.columnsOf names ++ [(g.unknownsWith (names ++ [x])).idxOf x] := by
  have same : (firstOccurrences names).map (g.unknownsWith (names ++ [x])).idxOf =
      g.columnsOf names := by
    apply List.map_congr_left
    intro v earlier
    exact g.idxOf_unknownsWith_concat names x ((mem_firstOccurrences names v).1 earlier)
  rw [columnsOf, firstOccurrences_concat]
  split
  next => exact same
  next => rw [List.map_append, same, List.map_singleton]

theorem idxOf_mem_columnsOf :
    (g.unknownsWith (names ++ [x])).idxOf x ∈ g.columnsOf names ↔ x ∈ names := by
  simp only [columnsOf, List.mem_map, mem_firstOccurrences]
  constructor
  · rintro ⟨v, earlier, same⟩
    rw [← g.idxOf_unknownsWith_concat names x earlier] at same
    have known : v ∈ g.unknownsWith (names ++ [x]) :=
      (g.mem_unknownsWith _ v).2 (.inr (List.mem_append_left _ earlier))
    exact (List.idxOf_inj known).1 same ▸ earlier
  · exact fun earlier => ⟨x, earlier, (g.idxOf_unknownsWith_concat names x earlier).symm⟩

end Names

section Noting

variable {g : Incidence} (fits : g.columns.length = g.unknowns.length) (names : List String)
include fits

theorem length_widened_notMem : (g.widened names).length ∉ g.columnsOf names := by
  have same : (g.widened names).length = (g.unknownsWith names).length := by
    simp only [widened, unknownsWith, fresh, List.length_append, List.length_map, fits]
  intro met
  obtain ⟨v, earlier, place⟩ := List.mem_map.1 met
  have inside := List.idxOf_lt_length_of_mem
    ((g.mem_unknownsWith names v).2 (.inr ((mem_firstOccurrences names v).1 earlier)))
  omega

theorem withColumn_noted (x : String) :
    (g.noted names).1.withColumn x =
      { g with
        unknowns := g.unknownsWith (names ++ [x])
        columns := metBy g.rows.length (g.widened (names ++ [x])) (g.columnsOf names) } := by
  rw [unknownsWith_concat, widened_concat, withColumn]
  change (if x ∈ g.unknownsWith names then _ else _) = _
  split
  next => rfl
  next =>
    rw [metBy_concat _ _ _ (length_widened_notMem fits names)]
    rfl

theorem note_noted (x : String) : note (g.noted names) x = g.noted (names ++ [x]) := by
  -- The test on the row tells whether the name was noted before, as the cases on the right do.
  rw [note, withColumn_noted fits names x]
  change (if (g.unknownsWith (names ++ [x])).idxOf x ∈ g.columnsOf names then _ else _) = _
  simp only [idxOf_mem_columnsOf]
  rw [noted, noted, columnsOf_concat]
  split
  next => rfl
  next new => rw [modify_metBy _ _ _ _ (mt (g.idxOf_mem_columnsOf names x).1 new)]

theorem foldl_note : names.foldl note (g, []) = g.noted names := by
  induction names using List.reverseRecOn with
  | nil =>
    have unknowns : g.unknownsWith [] = g.unknowns := List.append_nil g.unknowns
    have columns : metBy g.rows.length (g.widened []) (g.columnsOf []) = g.columns :=
      (metBy_nil _ _).trans (List.append_nil g.columns)
    rw [noted, unknowns, columns]
    rfl
  | append_singleton front last ih =>
    rw [List.foldl_append, ih]
    exact note_noted fits front last

theorem addByNames_eq (id : Nat) : g.addByNames id names = g.add id names := by
  rw [addByNames, foldl_note fits names]
  rfl

end Noting

/-- The table of equations is what comes out when their unknowns are noted one after another. -/
theorem ofEquations_eq_foldl_addByNames (equations : List (Nat × List String))
    (isUnknown : String → Bool) :
    ofEquations equations isUnknown =
      equations.foldl (fun g e => g.addByNames e.1 (e.2.filter isUnknown)) empty := by
  induction equations using List.reverseRecOn with
  | nil => rfl
  | append_singleton front last ih =>
    have fits := (mirrored_ofEquations front isUnknown).length_columns
    rw [List.foldl_append, ← ih, ofEquations_concat, ← addByNames_eq fits]
    rfl

end Simultaneous.Incidence
