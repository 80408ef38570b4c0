import Simultaneous.Proofs.Line.Alike
import Simultaneous.Proofs.Line.Words

/-!
The names that equation lines list for their words. A name is the word in lower case with every
underscore written as a pair, so it gives the word back, but for case: two words have one name just if
they differ in case only. A name is none of the fixed words, in either spelling, and is kept as it is.
-/

namespace Simultaneous

open Text

/-! ### The form of a name -/

namespace Name

inductive IsWritten : List Char → Prop where
  | nil : IsWritten []
  | char {c : Char} {s : List Char} : c.isLower ∨ c.isDigit → IsWritten s → IsWritten (c :: s)
  | pair {s : List Char} : IsWritten s → IsWritten ('G' :: 'g' :: s)

/-- A name as lines list it: small letters, digits and pairs, with a letter in front. It is kept under
itself, and it is no name of a function or a constant, as users write them or in residuals. -/
structure IsListed (name : String) : Prop where
  letter_first : name.toList.head?.any Char.isLower
  written : IsWritten name.toList
  kept : internal name = name
  no_function : ∀ entry ∈ functionNames, name ≠ entry.1 ∧ name ≠ entry.2
  no_constant : canonicalConstant? name = none
  not_canonical : name ∉ Formula.constantNames

section Stored

variable {c : Char} {s w : List Char} {word word' text : String}

theorem storedChar_cases (name : isNameChar c) :
    storedChar c = ['G', 'g'] ∨ ∃ d : Char, storedChar c = [d] ∧ (d.isLower ∨ d.isDigit) := by
  by_cases underscore : c = '_'
  · rw [underscore]
    exact .inl rfl
  · rw [storedChar_of_ne underscore]
    have word : c.isAlpha = true ∨ c.isDigit = true := by
      simpa [isNameChar, isWordChar, Char.isAlphanum, underscore] using name
    refine .inr ⟨c.toLower, rfl, ?_⟩
    rw [Char.isLower_toLower_eq_isAlpha, Line.isDigit_toLower]
    exact word

theorem isWritten_storedChars (name : ∀ c ∈ w, isNameChar c) : IsWritten (storedChars w) := by
  induction w with
  | nil => exact .nil
  | cons c w ih =>
    have rest := ih fun d member => name d (List.mem_cons_of_mem c member)
    rw [storedChars_cons]
    rcases storedChar_cases (name c List.mem_cons_self) with pair | ⟨d, char, small⟩
    · rw [pair]
      exact .pair rest
    · rw [char]
      exact .char small rest

theorem IsWritten.isInternal (written : IsWritten s) : IsInternal s := by
  induction written with
  | nil => exact .nil
  | @char c s small _ ih =>
    have low : c.toLower = c := by
      rcases small with lower | digit
      · exact Char.toLower_eq_of_not_isUpper (Char.not_isUpper_of_isLower lower)
      · exact Line.toLower_of_isDigit digit
    have plain : c ≠ '_' := by
      intro underscore
      rw [underscore] at small
      exact absurd small (by decide)
    exact .plain low plain ih
  | pair _ ih => exact .pair ih

/-- Underscores for the pairs of a stored word give the word back in lower case. -/
theorem replacePair_storedChars (w : List Char) :
    replacePair 'G' 'g' '_' (storedChars w) = lower w := by
  induction w with
  | nil => rfl
  | cons c w ih =>
    rw [storedChars_cons]
    by_cases underscore : c = '_'
    · rw [underscore]
      change replacePair 'G' 'g' '_' ('G' :: 'g' :: storedChars w) = '_' :: lower w
      rw [replacePair_pair, ih]
    · have small : c.toLower ≠ 'G' := by
        intro upper
        have no_upper := c.isUpper_toLower_eq_false
        rw [upper] at no_upper
        exact absurd no_upper (by decide)
      rw [storedChar_of_ne underscore, List.singleton_append, replacePair_of_ne small '_', ih]
      rfl

theorem spelled_stored (word : String) : spelled (stored word) = lowerName word := by
  rw [spelled, stored, String.toList_ofList, replacePair_storedChars]
  rfl

/-- Two words are stored under one name just if they differ in case only. -/
theorem stored_eq_stored_iff : stored word = stored word' ↔ lowerName word = lowerName word' := by
  constructor
  · intro same
    rw [← spelled_stored, same, spelled_stored]
  · intro same
    have chars : lower word.toList = lower word'.toList := String.ofList_injective same
    rw [stored, stored, ← Line.storedChars_lower, chars, Line.storedChars_lower]

theorem mem_freeWords : word ∈ freeWords text ↔ word.toList ∈ runs text.toList ∧
    word.toList.head?.any Char.isAlpha ∧ isReserved word = false := by
  rw [freeWords, List.mem_filter, Bool.and_eq_true, Bool.not_eq_true']
  have run : word ∈ (runs text.toList).map String.ofList ↔ word.toList ∈ runs text.toList := by
    rw [List.mem_map]
    constructor
    · rintro ⟨w, member, same⟩
      rwa [← same, String.toList_ofList]
    · intro member
      exact ⟨_, member, String.ofList_toList⟩
  rw [run]

theorem ne_canonical {name : String} (small : name.toList.head?.any Char.isLower) :
    (∀ entry ∈ functionNames, name ≠ entry.2) ∧ name ∉ Formula.constantNames := by
  have upper : (∀ entry ∈ functionNames, entry.2.toList.head?.any Char.isLower = false) ∧
      ∀ x ∈ Formula.constantNames, x.toList.head?.any Char.isLower = false := by decide
  constructor
  · intro entry member same
    have other := upper.1 entry member
    rw [← same, small] at other
    cases other
  · intro member
    have other := upper.2 name member
    rw [small] at other
    cases other

theorem isListed_stored (member : word ∈ freeWords text) : IsListed (stored word) := by
  obtain ⟨run, letter, free⟩ := mem_freeWords.1 member
  have written : IsWritten (stored word).toList := by
    rw [stored, String.toList_ofList]
    exact isWritten_storedChars (Line.isNameChar_of_mem_runs run)
  have letter_first : (stored word).toList.head?.any Char.isLower := by
    rw [stored, String.toList_ofList]
    cases chars : word.toList with
    | nil =>
      rw [chars] at letter
      cases letter
    | cons c w =>
      rw [chars] at letter
      have alpha : c.isAlpha = true := letter
      have plain : c ≠ '_' := by
        intro underscore
        rw [underscore] at alpha
        exact absurd alpha (by decide)
      rw [storedChars_cons, storedChar_of_ne plain]
      exact (Char.isLower_toLower_eq_isAlpha c).trans alpha
  have fixed : Line.isFixed (stored word) = false := (Line.isFixed_stored word).trans free
  obtain ⟨no_function, no_constant⟩ := Bool.or_eq_false_iff.1 fixed
  obtain ⟨not_function, not_constant⟩ := ne_canonical letter_first
  rw [Option.isSome_eq_false_iff, Option.isNone_iff_eq_none] at no_function no_constant
  refine ⟨letter_first, written, internal_of_isInternal written.isInternal, ?_, no_constant,
    not_constant⟩
  intro entry inside
  refine ⟨fun same => ?_, not_function entry inside⟩
  have others := List.find?_eq_none.1 (Option.map_eq_none_iff.1 no_function) entry inside
  exact others (decide_eq_true same.symm)

end Stored

end Name

/-! ### The words of a line and their names -/

namespace Line

/-- The words of a line, without blanks, that start with a letter and name no function and no
constant. -/
def identifierWords (line : String) : List String :=
  Name.freeWords (String.ofList (visible line.toList))

def namesFound (mode : AngleMode) (line : String) : List String :=
  match normal mode line.toList with
  | .ok (some text) =>
    match contributions (tokens text) with
    | .ok (_, names) => names
    | .error _ => []
  | _ => []

def wordsNamed (mode : AngleMode) (line : String) : List (String × String) :=
  (identifierWords line).zip (namesFound mode line)

theorem unbroken_of_visible {s : List Char} (visible : ∀ c ∈ s, isSpace c = false) :
    Unbroken s := by
  induction s with
  | nil => trivial
  | cons c s ih =>
    have rest : ∀ d ∈ s, isSpace d = false := fun d member =>
      visible d (List.mem_cons_of_mem c member)
    refine ⟨?_, ih rest⟩
    intro _ blank
    cases s with
    | nil => cases blank
    | cons d s =>
      have no_blank := rest d List.mem_cons_self
      rw [List.head?_cons, Option.any_some, no_blank] at blank
      cases blank

theorem alike_visible (s : List Char) : Alike s (visible s) := by
  rw [alike_iff, bare, bare, visible, List.filter_filter]
  simp only [Bool.and_self]

variable {mode mode' : AngleMode} {line line' : String} {e e' : LineEquation}

/-- The names found in an accepted line are those of its words, one for each. -/
theorem namesFound_of_line (read : LineEquation.ofLine mode line = .ok (some e)) :
    namesFound mode line = (identifierWords line).map Name.stored ∧
      e.unknowns = firstOccurrences (namesFound mode line) := by
  obtain ⟨text, residual, names, normal_text, contributed, rfl⟩ := LineEquation.ofLine_eq_some read
  have found : namesFound mode line = names := by
    rw [namesFound, normal_text]
    simp only [contributed]
  have spaceless : normal mode (String.ofList (visible line.toList)).toList = .ok (some text) := by
    rw [String.toList_ofList]
    rcases normal_eq_or_missing mode (alike_visible line.toList) with same | ⟨missing, -⟩
    · rw [← same, normal_text]
    · rw [normal_text] at missing
      cases missing
  have unbroken : Unbroken (String.ofList (visible line.toList)).toList := by
    rw [String.toList_ofList]
    apply unbroken_of_visible
    intro c member
    simpa using (List.mem_filter.1 member).2
  rw [found]
  exact ⟨names_of_normal unbroken spaceless contributed, rfl⟩

theorem wordsNamed_of_line (read : LineEquation.ofLine mode line = .ok (some e)) :
    wordsNamed mode line = (identifierWords line).map fun word => (word, Name.stored word) := by
  rw [wordsNamed, (namesFound_of_line read).1, List.zip_eq_zipWith, List.zipWith_map_right,
    List.zipWith_self]

/-- The words of accepted lines are told apart by their names, but for case. The unknowns of a line are
the names of its words, each once and in the form of a name, and underscores for the pairs of a name
give its word back in lower case. -/
theorem names_tell_words_apart (read : LineEquation.ofLine mode line = .ok (some e))
    (read' : LineEquation.ofLine mode' line' = .ok (some e')) :
    (wordsNamed mode line).map (·.1) = identifierWords line ∧
    e.unknowns = firstOccurrences ((wordsNamed mode line).map (·.2)) ∧
    e.unknowns.Nodup ∧
    (∀ named ∈ wordsNamed mode line, ∀ named' ∈ wordsNamed mode' line',
      named.2 = named'.2 ↔ lowerName named.1 = lowerName named'.1) ∧
    (∀ named ∈ wordsNamed mode line, Name.spelled named.2 = lowerName named.1) ∧
    ∀ name ∈ e.unknowns, Name.IsListed name := by
  have words := wordsNamed_of_line read
  obtain ⟨found, unknowns⟩ := namesFound_of_line read
  have names : (wordsNamed mode line).map (·.2) = namesFound mode line := by
    rw [words, found, List.map_map]
    rfl
  refine ⟨?_, ?_, ?_, ?_, ?_, ?_⟩
  · rw [words, List.map_map]
    exact List.map_id _
  · rw [names, unknowns]
  · rw [unknowns]
    exact nodup_firstOccurrences _
  · intro named member named' member'
    rw [words] at member
    rw [wordsNamed_of_line read'] at member'
    obtain ⟨word, -, rfl⟩ := List.mem_map.1 member
    obtain ⟨word', -, rfl⟩ := List.mem_map.1 member'
    exact Name.stored_eq_stored_iff
  · intro named member
    rw [words] at member
    obtain ⟨word, -, rfl⟩ := List.mem_map.1 member
    exact Name.spelled_stored word
  · intro name member
    rw [unknowns, mem_firstOccurrences, found] at member
    obtain ⟨word, inside, rfl⟩ := List.mem_map.1 member
    exact Name.isListed_stored inside

theorem shared_word_has_one_name :
    LineEquation.ofLine .degrees "Flow_Rate = 2e1*sin(T 1)" =
      .ok (some ⟨"flowGgrate-1*((2*10^(1))*Sin(Degree*(t1)))", ["flowGgrate", "t1"]⟩) ∧
    LineEquation.ofLine .radians "t1 + FLOW _rate = e" =
      .ok (some ⟨"t1+flowGgrate-1*(E)", ["t1", "flowGgrate"]⟩) ∧
    wordsNamed .degrees "Flow_Rate = 2e1*sin(T 1)" =
      [("Flow_Rate", "flowGgrate"), ("T1", "t1")] ∧
    wordsNamed .radians "t1 + FLOW _rate = e" = [("t1", "t1"), ("FLOW_rate", "flowGgrate")] ∧
    ("flowGgrate" = "flowGgrate" ↔ lowerName "Flow_Rate" = lowerName "FLOW_rate") ∧
    ("flowGgrate" = "t1" ↔ lowerName "Flow_Rate" = lowerName "t1") ∧
    ∀ name ∈ ["flowGgrate", "t1"], Name.IsListed name := by
  have read : LineEquation.ofLine .degrees "Flow_Rate = 2e1*sin(T 1)" =
      .ok (some ⟨"flowGgrate-1*((2*10^(1))*Sin(Degree*(t1)))", ["flowGgrate", "t1"]⟩) := by
    decide +kernel
  have read' : LineEquation.ofLine .radians "t1 + FLOW _rate = e" =
      .ok (some ⟨"t1+flowGgrate-1*(E)", ["t1", "flowGgrate"]⟩) := by
    decide +kernel
  have words : wordsNamed .degrees "Flow_Rate = 2e1*sin(T 1)" =
      [("Flow_Rate", "flowGgrate"), ("T1", "t1")] := by
    decide +kernel
  have words' : wordsNamed .radians "t1 + FLOW _rate = e" =
      [("t1", "t1"), ("FLOW_rate", "flowGgrate")] := by
    decide +kernel
  obtain ⟨-, -, -, apart, -, listed⟩ := names_tell_words_apart read read'
  rw [words, words'] at apart
  exact ⟨read, read', words, words',
    apart ("Flow_Rate", "flowGgrate") (by decide) ("FLOW_rate", "flowGgrate") (by decide),
    apart ("Flow_Rate", "flowGgrate") (by decide) ("t1", "t1") (by decide), listed⟩

end Line

end Simultaneous
