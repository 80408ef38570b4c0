import Simultaneous.Name

/-!
The form of internal names: no upper case and no underscore, but for pairs `Gg`. A name of this form
is kept under itself. A line lists a word under another name, in which a pair `Gg` of the word is in
lower case; the two names are the same just for words without such a pair.
-/

namespace Simultaneous.Name

open Text

inductive IsInternal : List Char → Prop where
  | nil : IsInternal []
  | plain {c : Char} {s : List Char} : c.toLower = c → c ≠ '_' → IsInternal s → IsInternal (c :: s)
  | pair {s : List Char} : IsInternal s → IsInternal ('G' :: 'g' :: s)

theorem internalChars_cons_cons (c d : Char) (rest : List Char) :
    internalChars (c :: d :: rest) =
      if c = '_' then 'G' :: 'g' :: internalChars (d :: rest)
      else if c = 'G' ∧ d = 'g' then 'G' :: 'g' :: internalChars rest
      else c.toLower :: internalChars (d :: rest) := by
  rw [internalChars]

theorem internalChars_plain {c : Char} (low : c.toLower = c) (plain : c ≠ '_') (s : List Char) :
    internalChars (c :: s) = c :: internalChars s := by
  cases s with
  | nil =>
    rw [internalChars, internalChars, low]
    rintro rfl
    exact plain rfl
  | cons d rest =>
    have upper : c ≠ 'G' := by
      rintro rfl
      exact absurd low (by decide)
    rw [internalChars_cons_cons, if_neg plain, if_neg fun both => upper both.1, low]

theorem internalChars_of_isInternal {s : List Char} (form : IsInternal s) :
    internalChars s = s := by
  induction form with
  | nil => rfl
  | plain low plain _ ih => rw [internalChars_plain low plain, ih]
  | pair _ ih =>
    rw [internalChars_cons_cons, if_neg (by decide), if_pos ⟨rfl, rfl⟩, ih]

theorem internal_of_isInternal {name : String} (form : IsInternal name.toList) :
    internal name = name := by
  rw [internal, internalChars_of_isInternal form, String.ofList_toList]

/-! ### Pairs -/

section Pairs

variable {a b c : Char}

theorem replacePair_cons_cons (a b target c d : Char) (s : List Char) :
    replacePair a b target (c :: d :: s) =
      if c = a ∧ d = b then target :: replacePair a b target s
      else c :: replacePair a b target (d :: s) := rfl

theorem replacePair_pair (a b target : Char) (s : List Char) :
    replacePair a b target (a :: b :: s) = target :: replacePair a b target s := by
  rw [replacePair_cons_cons, if_pos ⟨rfl, rfl⟩]

theorem replacePair_of_ne (other : c ≠ a) (target : Char) (s : List Char) :
    replacePair a b target (c :: s) = c :: replacePair a b target s := by
  cases s with
  | nil => rfl
  | cons d rest => rw [replacePair_cons_cons, if_neg fun both => other both.1]

end Pairs

/-! ### The name that is stored for a word -/

def storedChar (c : Char) : List Char := if c = '_' then ['G', 'g'] else [c.toLower]

def storedChars (s : List Char) : List Char := s.flatMap storedChar

def stored (word : String) : String := String.ofList (storedChars word.toList)

theorem storedChars_cons (c : Char) (s : List Char) :
    storedChars (c :: s) = storedChar c ++ storedChars s := List.flatMap_cons

theorem storedChar_of_ne {c : Char} (plain : c ≠ '_') : storedChar c = [c.toLower] := if_neg plain

/-- The name under which a spelling is kept is that stored for the spelling in which every pair `Gg`
is an underscore. -/
theorem internalChars_eq (s : List Char) :
    internalChars s = storedChars (replacePair 'G' 'g' '_' s) := by
  fun_induction internalChars s with
  | case1 => rfl
  | case2 => rfl
  | case3 c plain =>
    have other : c ≠ '_' := fun same => plain (same ▸ rfl)
    have alone : replacePair 'G' 'g' '_' [c] = [c] := rfl
    rw [alone, storedChars, List.flatMap_singleton, storedChar_of_ne other]
  | case4 d rest ih =>
    have other : '_' ≠ 'G' := by decide
    rw [ih, replacePair_of_ne other, storedChars_cons]
    rfl
  | case5 c d rest plain pair ih =>
    obtain ⟨rfl, rfl⟩ := pair
    rw [ih, replacePair_pair, storedChars_cons]
    rfl
  | case6 c d rest plain no_pair ih =>
    rw [ih, replacePair_cons_cons, if_neg no_pair, storedChars_cons, storedChar_of_ne plain]
    rfl

/-- The two names are the same just for a text without a pair `Gg`. -/
theorem internalChars_eq_storedChars_iff (s : List Char) :
    internalChars s = storedChars s ↔ ¬['G', 'g'] <:+: s := by
  fun_induction internalChars s with
  | case1 => simp [storedChars]
  | case2 => decide
  | case3 c plain =>
    have other : c ≠ '_' := fun same => plain (same ▸ rfl)
    rw [storedChars, List.flatMap_singleton, storedChar_of_ne other]
    refine iff_of_true rfl fun pair => ?_
    exact absurd pair.length_le (by simp)
  | case4 d rest ih =>
    rw [storedChars_cons, List.infix_cons_iff]
    simp [storedChar, ih]
  | case5 c d rest plain pair ih =>
    obtain ⟨rfl, rfl⟩ := pair
    refine iff_of_false (fun same => ?_) fun none => none ⟨[], rest, rfl⟩
    exact absurd (List.cons.inj same).1 (by decide)
  | case6 c d rest plain no_pair ih =>
    have no_prefix : ¬['G', 'g'] <+: c :: d :: rest := by
      rw [List.cons_prefix_cons, List.cons_prefix_cons]
      exact fun first => no_pair ⟨first.1.symm, first.2.1.symm⟩
    have later : ['G', 'g'] <:+: c :: d :: rest ↔ ['G', 'g'] <:+: d :: rest := by
      rw [List.infix_cons_iff]
      exact or_iff_right no_prefix
    rw [storedChars_cons, storedChar_of_ne plain, List.singleton_append, List.cons.injEq, ih, later]
    exact and_iff_right rfl

theorem internal_eq_stored_spelled (word : String) : internal word = stored (spelled word) := by
  rw [internal, stored, spelled, String.toList_ofList, internalChars_eq]

theorem internal_eq_stored_iff (word : String) :
    internal word = stored word ↔ ¬['G', 'g'] <:+: word.toList := by
  rw [internal, stored, String.ofList_inj, internalChars_eq_storedChars_iff]

/-! ### Words of a text -/

/-- The words of a text that start with a letter and name no function and no constant, repetitions
included. -/
def freeWords (text : String) : List String :=
  ((runs text.toList).map String.ofList).filter fun w =>
    w.toList.head?.any Char.isAlpha && !isReserved w

theorem mem_freeWords_of_mem_identifiersIn {text word : String}
    (member : word ∈ identifiersIn text) : word ∈ freeWords text := by
  obtain ⟨run, identifier⟩ := List.mem_filter.1 member
  simp only [isIdentifier, isIdentifierChars, Bool.and_eq_true] at identifier
  exact List.mem_filter.2 ⟨run, by
    rw [identifier.1.1.1, identifier.2]
    rfl⟩

end Simultaneous.Name
