import Simultaneous.Decimal.Shortest
import Simultaneous.Proofs.Line.Accepted

/-!
Numbers that are written out by their digits. A decimal without an exponent, zeros on either side of
the point included, is read back as the number of its digits and its exponent.
-/

namespace Simultaneous.Decimal

open Line (AreDigits IsMantissa)

/-! ### Digits -/

theorem isDigit_digitChar {d : Nat} (small : d < 10) : (digitChar d).isDigit := by
  have cases : d = 0 ∨ d = 1 ∨ d = 2 ∨ d = 3 ∨ d = 4 ∨ d = 5 ∨ d = 6 ∨ d = 7 ∨ d = 8 ∨ d = 9 := by
    omega
  rcases cases with h | h | h | h | h | h | h | h | h | h <;> subst h <;> decide

theorem areDigits_toDigits (n : Nat) : AreDigits (toDigits n) := by
  induction n using Nat.strong_induction_on with
  | _ n ih =>
    rw [toDigits]
    split
    next small => exact ⟨by simp, by simpa using isDigit_digitChar small⟩
    next large =>
      have last := isDigit_digitChar (Nat.mod_lt n (by decide : 10 > 0))
      refine ⟨by simp, fun c member => ?_⟩
      rcases List.mem_append.1 member with before | own
      · exact (ih (n / 10) (by omega)).2 c before
      · rwa [List.mem_singleton.1 own]

theorem ofDigits_append_zeros (s : List Char) (k : Nat) :
    ofDigits (s ++ List.replicate k '0') = ofDigits s * 10 ^ k := by
  induction k with
  | zero => simp
  | succ k ih =>
    have zero : digitValue '0' = 0 := rfl
    rw [List.replicate_succ', ← List.append_assoc, ofDigits_append, ih, List.foldl_cons,
      List.foldl_nil, zero, pow_succ]
    ring

theorem ofDigits_zeros_append (k : Nat) (s : List Char) :
    ofDigits (List.replicate k '0' ++ s) = ofDigits s := by
  have zeros : ofDigits (List.replicate k '0') = 0 := by
    simpa [ofDigits] using ofDigits_append_zeros [] k
  rw [ofDigits_append, zeros]
  rfl

/-! ### The point -/

theorem areDigits_zeros_append (k : Nat) {s : List Char} (digits : AreDigits s) :
    AreDigits (List.replicate k '0' ++ s) := by
  refine ⟨fun none => digits.1 (List.append_eq_nil_iff.1 none).2, fun c member => ?_⟩
  rcases List.mem_append.1 member with before | own
  · rw [List.eq_of_mem_replicate before]
    rfl
  · exact digits.2 c own

theorem exists_pointed {places : Nat} (some_places : places ≠ 0) {digits : List Char}
    (are_digits : AreDigits digits) :
    ∃ k s t, pointed places digits = s ++ '.' :: t ∧ AreDigits s ∧ AreDigits t ∧
      s ++ t = List.replicate k '0' ++ digits ∧ t.length = places := by
  set padded := List.replicate (places + 1 - digits.length) '0' ++ digits with padded_eq
  have long : places + 1 ≤ padded.length := by
    rw [padded_eq, List.length_append, List.length_replicate]
    omega
  have all : ∀ c ∈ padded, c.isDigit := (areDigits_zeros_append _ are_digits).2
  have parts := List.take_append_drop (padded.length - places) padded
  have whole_length : (padded.take (padded.length - places)).length = padded.length - places := by
    rw [List.length_take]
    omega
  have fraction_length : (padded.drop (padded.length - places)).length = places := by
    rw [List.length_drop]
    omega
  refine ⟨places + 1 - digits.length, padded.take (padded.length - places),
    padded.drop (padded.length - places), if_neg some_places, ⟨?_, ?_⟩, ⟨?_, ?_⟩, parts,
    fraction_length⟩
  · intro none
    rw [none, List.length_nil] at whole_length
    omega
  · exact fun c member => all c (List.mem_of_mem_take member)
  · intro none
    rw [none, List.length_nil] at fraction_length
    exact some_places fraction_length.symm
  · exact fun c member => all c (List.mem_of_mem_drop member)

/-! ### Reading back -/

def positionalMagnitude (digits : Nat) (exponent : Int) : Magnitude :=
  if 0 ≤ exponent then .decimal (digits * 10 ^ exponent.toNat) 0 else .decimal digits exponent

theorem positional_spec (digits : Nat) (exponent : Int) :
    IsMantissa (positional digits exponent) ∧
      readMagnitude? (positional digits exponent) = some (positionalMagnitude digits exponent) := by
  have own := areDigits_toDigits digits
  unfold positional positionalMagnitude
  split
  next whole =>
    have all : AreDigits (toDigits digits ++ List.replicate exponent.toNat '0') := by
      refine ⟨fun none => own.1 (List.append_eq_nil_iff.1 none).1, fun c member => ?_⟩
      rcases List.mem_append.1 member with before | zero
      · exact own.2 c before
      · rw [List.eq_of_mem_replicate zero]
        rfl
    rw [Line.readMagnitude?_of_digits all, ofDigits_append_zeros, ofDigits_toDigits]
    exact ⟨.whole all, rfl⟩
  next fraction =>
    obtain ⟨k, s, t, pointed_eq, before, after, parts, places⟩ :=
      exists_pointed (by omega : (-exponent).toNat ≠ 0) own
    have exponent_eq : -(t.length : Int) = exponent := by omega
    rw [pointed_eq, Line.readMagnitude?_of_fraction before after, parts, ofDigits_zeros_append,
      ofDigits_toDigits, exponent_eq]
    exact ⟨.fraction before after, rfl⟩

theorem read?_positional (digits : Nat) (exponent : Int) :
    Numeral.read? (positional digits exponent) =
      some ⟨false, positionalMagnitude digits exponent⟩ := by
  obtain ⟨mantissa, read⟩ := positional_spec digits exponent
  rw [Line.read?_eq_of_mantissa mantissa, read]
  rfl

/-- The text of a decimal is a number of one token. -/
theorem spelling_positional (digits : Nat) (exponent : Int) :
    Formula.Spelling (.number ⟨false, positionalMagnitude digits exponent⟩)
      (positional digits exponent) :=
  (positional_spec digits exponent).1.spelling (read?_positional digits exponent)

theorem spelling_toDigits (n : Nat) : Formula.Spelling (.number (.ofNat n)) (toDigits n) := by
  have whole := spelling_positional n 0
  simpa [positional, positionalMagnitude, Numeral.ofNat] using whole

end Simultaneous.Decimal
