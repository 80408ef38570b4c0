import Simultaneous.Proofs.Decimal.Rounding
import Simultaneous.Proofs.Positional
import Simultaneous.ValueText

/-!
Texts of numbers read back. A text with a fixed number of places keeps its number where zeros at the
end are dropped, since only zeros after the point are; a scientific text has its exponent besides.
-/

namespace Simultaneous.Decimal

open Line (AreDigits IsMantissa)
open Text (takeDigits)

/-! ### What a text denotes -/

def signed (negative : Bool) (q : ℚ) : ℚ := if negative then -q else q

def Numeral.number? (n : Numeral) : Option ℚ :=
  match n.magnitude with
  | .decimal digits exponent => some (signed n.negative (digits * 10 ^ exponent))
  | .infinite | .undefined => none

def readNumber? (s : List Char) : Option ℚ := (Numeral.read? s).bind Numeral.number?

theorem readNumber?_signText {c : Char} {s : List Char} (digit : c.isDigit) {digits : Nat}
    {exponent : ℤ} (read : readMagnitude? (c :: s) = some (.decimal digits exponent))
    (negative : Bool) :
    readNumber? (signText negative ++ c :: s) =
      some (signed negative (digits * 10 ^ exponent)) := by
  have taken : takeSign (signText negative ++ c :: s) = (negative, c :: s) := by
    cases negative with
    | true => rfl
    | false => exact Line.takeSign_of_isDigit digit s
  rw [readNumber?, Line.read?_eq_of_takeSign taken digit, read]
  rfl

theorem exists_cons_of_areDigits {s : List Char} (digits : AreDigits s) (rest : List Char) :
    ∃ c more, s ++ rest = c :: more ∧ c.isDigit := by
  cases s with
  | nil => exact absurd rfl digits.1
  | cons c more => exact ⟨c, more ++ rest, rfl, digits.2 c List.mem_cons_self⟩

/-! ### An exponent -/

theorem readExponent?_integerText (n : ℤ) : readExponent? ('e' :: integerText n) = some n := by
  have digits := areDigits_toDigits n.natAbs
  have all : (toDigits n.natAbs).all Char.isDigit = true := by
    rw [List.all_eq_true]
    exact digits.2
  have taken : takeSign (integerText n) = (decide (n < 0), toDigits n.natAbs) := by
    unfold integerText
    cases negative : decide (n < 0) with
    | true => rfl
    | false =>
      obtain ⟨c, more, same, digit⟩ := exists_cons_of_areDigits digits []
      rw [List.append_nil] at same
      rw [same]
      exact Line.takeSign_of_isDigit digit more
  simp only [readExponent?, true_or, if_true, taken, if_pos (And.intro digits.1 all),
    ofDigits_toDigits, Option.some.injEq]
  split
  next negative =>
    have below : n < 0 := of_decide_eq_true negative
    omega
  next positive =>
    have above : ¬n < 0 := of_decide_eq_false (Bool.eq_false_of_not_eq_true positive)
    omega

theorem readMagnitude?_of_exponent {s t : List Char} (digits : AreDigits s)
    (decimals : AreDigits t) (n : ℤ) :
    readMagnitude? (s ++ '.' :: (t ++ 'e' :: integerText n)) =
      some (.decimal (ofDigits (s ++ t)) (n - t.length)) := by
  have whole : takeDigits (s ++ '.' :: (t ++ 'e' :: integerText n)) =
      (s, '.' :: (t ++ 'e' :: integerText n)) :=
    Line.takeDigits_of_digits digits.2 fun c first => by
      cases first
      decide
  have taken : takeDigits (t ++ 'e' :: integerText n) = (t, 'e' :: integerText n) :=
    Line.takeDigits_of_digits decimals.2 fun c first => by
      cases first
      decide
  simp [readMagnitude?, whole, taken, digits.1, readExponent?_integerText]

theorem readNumber?_scientific {places : Nat} (some_places : places ≠ 0) {b : Binary}
    (nonzero : b.mantissa ≠ 0) :
    readNumber? (scientific places b) = some (signed b.negative
      ((scientificParts places b.exact).1 * 10 ^ ((scientificParts places b.exact).2 - places))) := by
  unfold scientific
  rw [if_neg nonzero]
  obtain ⟨units, exponent⟩ := scientificParts places b.exact
  obtain ⟨k, s, t, pointed_eq, before, after, parts, length⟩ :=
    exists_pointed some_places (areDigits_toDigits units)
  have read := readMagnitude?_of_exponent before after exponent
  rw [parts, ofDigits_zeros_append, ofDigits_toDigits, length] at read
  obtain ⟨c, more, same, digit⟩ :=
    exists_cons_of_areDigits before ('.' :: (t ++ 'e' :: integerText exponent))
  simp only [pointed_eq, List.append_assoc, List.cons_append]
  rw [same] at read ⊢
  exact readNumber?_signText digit read b.negative

/-! ### Dropping zeros -/

theorem exists_zeros (t : List Char) :
    ∃ kept k, t = kept ++ List.replicate k '0' ∧ kept.getLast? ≠ some '0' := by
  induction t using List.reverseRecOn with
  | nil => exact ⟨[], 0, rfl, nofun⟩
  | append_singleton t c ih =>
    by_cases zero : c = '0'
    · obtain ⟨kept, k, rfl, ends⟩ := ih
      refine ⟨kept, k + 1, ?_, ends⟩
      rw [zero, List.append_assoc, ← List.replicate_succ']
    · refine ⟨t ++ [c], 0, by simp, ?_⟩
      rw [List.getLast?_concat]
      exact fun same => zero (Option.some.inj same)

/-- Only the zeros at the end of the places are dropped, and the point if nothing else is left of
them: what stands before the point stays. -/
theorem trimPlaces_eq {s kept : List Char} (k : Nat) (no_point : '.' ∉ s) (places : '.' ∉ kept)
    (ends : kept.getLast? ≠ some '0') :
    trimPlaces (s ++ '.' :: (kept ++ List.replicate k '0')) =
      if kept = [] then s else s ++ '.' :: kept := by
  have reversed : (s ++ '.' :: (kept ++ List.replicate k '0')).reverse =
      List.replicate k '0' ++ (kept.reverse ++ '.' :: s.reverse) := by simp
  have zeros : ∀ c ∈ List.replicate k '0', decide (c = '0') = true := fun c member =>
    decide_eq_true (List.eq_of_mem_replicate member)
  rw [trimPlaces, reversed, List.dropWhile_append_of_pos zeros]
  cases kept using List.reverseRecOn with
  | nil =>
    have point : (('.' :: s.reverse).dropWhile (· = '0')).dropWhile (· = '.') =
        s.reverse.dropWhile (· = '.') := rfl
    have stays : s.reverse.dropWhile (· = '.') = s.reverse := by
      cases last : s.reverse with
      | nil => rfl
      | cons c rest =>
        have member : c ∈ s := List.mem_reverse.1 (by rw [last]; exact List.mem_cons_self)
        refine List.dropWhile_cons_of_neg ?_
        rw [decide_eq_true_eq]
        rintro rfl
        exact no_point member
    rw [List.reverse_nil, List.nil_append, point, stays, List.reverse_reverse, if_pos rfl]
  | append_singleton kept c =>
    have digit : c ≠ '0' := by
      rintro rfl
      exact ends List.getLast?_concat
    have not_point : c ≠ '.' := by
      rintro rfl
      exact places (List.mem_append_right _ List.mem_cons_self)
    rw [List.reverse_concat, List.cons_append]
    simp only [List.dropWhile_cons, digit, not_point, decide_false, Bool.false_eq_true, if_false]
    simp

def IsTrimmed (s : List Char) : Prop :=
  ∀ whole places, s = whole ++ '.' :: places → ∃ c, places.getLast? = some c ∧ c ≠ '0'

theorem isTrimmed_of_notMem {s : List Char} (no_point : '.' ∉ s) : IsTrimmed s := by
  rintro whole places rfl
  exact absurd (List.mem_append_right _ List.mem_cons_self) no_point

theorem isTrimmed_of_getLast? {s : List Char} {c : Char} (last : s.getLast? = some c)
    (point : c ≠ '.') (zero : c ≠ '0') : IsTrimmed s := by
  rintro whole places rfl
  rw [List.getLast?_append, List.getLast?_cons, Option.some_or, Option.some.injEq] at last
  cases ends : places.getLast? with
  | none =>
    rw [ends] at last
    exact absurd last.symm point
  | some d =>
    rw [ends] at last
    obtain rfl : d = c := last
    exact ⟨d, rfl, zero⟩

theorem notMem_of_isDigit {s : List Char} (digits : ∀ c ∈ s, c.isDigit) : '.' ∉ s := by
  intro member
  exact absurd (digits '.' member) (by decide)

/-- Dropping zeros from a text with a fixed number of places keeps the number. -/
theorem trimPlaces_fixed {places : Nat} (some_places : places ≠ 0) (b : Binary) :
    readNumber? (trimPlaces (fixed places b)) =
        some (signed b.negative (b.exact.round places / 10 ^ places)) ∧
      IsTrimmed (trimPlaces (fixed places b)) := by
  obtain ⟨k, s, t, pointed_eq, before, after, parts, length⟩ :=
    exists_pointed some_places (areDigits_toDigits (b.exact.round places))
  obtain ⟨kept, zeros, rfl, ends⟩ := exists_zeros t
  have kept_digits : ∀ c ∈ kept, c.isDigit := fun c member =>
    after.2 c (List.mem_append_left _ member)
  have sign_plain : '.' ∉ signText b.negative := by
    cases b.negative <;> decide
  have no_point : '.' ∉ signText b.negative ++ s := by
    rw [List.mem_append, not_or]
    exact ⟨sign_plain, notMem_of_isDigit before.2⟩
  have trimmed : trimPlaces (fixed places b) =
      if kept = [] then signText b.negative ++ s
      else signText b.negative ++ s ++ '.' :: kept := by
    rw [fixed, pointed_eq, ← List.append_assoc]
    exact trimPlaces_eq zeros no_point (notMem_of_isDigit kept_digits) ends
  have units : (ofDigits (s ++ kept) : ℚ) * 10 ^ (-(kept.length : ℤ)) =
      b.exact.round places / 10 ^ places := by
    have digits : ofDigits (s ++ kept) * 10 ^ zeros = b.exact.round places := by
      rw [← ofDigits_append_zeros, List.append_assoc, parts, ofDigits_zeros_append,
        ofDigits_toDigits]
    rw [List.length_append, List.length_replicate] at length
    rw [← digits, ← length, zpow_neg, zpow_natCast, pow_add]
    push_cast
    field_simp
  by_cases whole : kept = []
  · obtain ⟨c, more, same, digit⟩ := exists_cons_of_areDigits before []
    rw [List.append_nil] at same
    have read := Line.readMagnitude?_of_digits before
    rw [whole, List.append_nil, List.length_nil, Nat.cast_zero, neg_zero] at units
    rw [trimmed, if_pos whole]
    refine ⟨?_, isTrimmed_of_notMem no_point⟩
    rw [← units]
    rw [same] at read ⊢
    exact readNumber?_signText digit read b.negative
  · obtain ⟨c, more, same, digit⟩ := exists_cons_of_areDigits before ('.' :: kept)
    have read := Line.readMagnitude?_of_fraction before ⟨whole, kept_digits⟩
    rw [trimmed, if_neg whole]
    refine ⟨?_, ?_⟩
    · rw [← units, List.append_assoc]
      rw [same] at read ⊢
      exact readNumber?_signText digit read b.negative
    · obtain ⟨d, last⟩ : ∃ d, kept.getLast? = some d := by
        cases ends : kept.getLast? with
        | none => exact absurd (List.getLast?_eq_none_iff.1 ends) whole
        | some d => exact ⟨d, rfl⟩
      have member : d ∈ kept := List.mem_of_getLast? last
      refine isTrimmed_of_getLast? (c := d) ?_ ?_ ?_
      · rw [List.getLast?_append, List.getLast?_cons, last]
        rfl
      · rintro rfl
        exact notMem_of_isDigit kept_digits member
      · rintro rfl
        exact ends last

end Simultaneous.Decimal
