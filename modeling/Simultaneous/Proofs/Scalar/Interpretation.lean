import Simultaneous.Proofs.Scalar.Exact

/-!
The exact arithmetic of an ordered field, for any reading of the constants, of the elementary
functions and of powers by numbers that are no integers.
-/

namespace Simultaneous

open Scalar

def integerPower? {K : Type} [Field K] [DecidableEq K] (x : K) (n : Int) : Option K :=
  if x = 0 ∧ n < 0 then none else some (x ^ n)

/-- What the constants, functions and powers are. Functions are partial, and of their laws only
those are asked for on which a rewriting of expressions rests. -/
structure Interpretation (K : Type) [Field K] [LinearOrder K] where
  pi : K
  e : K
  apply : Elementary → K → Option K
  power : K → K → Option K
  integral? : K → Option Int
  exp_ln {x y : K} : apply .ln x = some y → apply .exp y = some x
  power_intCast (x : K) (n : Int) : power x n = integerPower? x n
  integral?_eq_some {x : K} {n : Int} : integral? x = some n ↔ x = n

namespace Interpretation

variable {K : Type} [Field K] [LinearOrder K]

def arithmetic (F : Interpretation K) : Arithmetic K where
  pi := F.pi
  e := F.e
  div a b := if b = 0 then none else some (a / b)
  abs a := some |a|
  power := F.power
  apply := F.apply
  lt a b := a < b
  le a b := a ≤ b
  integral? := F.integral?

theorem div_eq_some {F : Interpretation K} {a b v : K} :
    F.arithmetic.div a b = some v ↔ b ≠ 0 ∧ a / b = v := by
  by_cases zero : b = 0 <;> simp [arithmetic, zero]

/-- A power by an integer is a product of as many factors, or one divided by such a product. -/
theorem integerPower?_eq_product (F : Interpretation K) (a : K) (n : Int) :
    integerPower? a n =
      if n < 0 then F.arithmetic.div 1 (a ^ n.natAbs) else some (a ^ n.natAbs) := by
  split
  next negative =>
    have magnitude : n = -(n.natAbs : Int) := by omega
    have nonzero : n.natAbs ≠ 0 := by omega
    by_cases zero : a = 0
    · simp [arithmetic, integerPower?, zero, negative, nonzero]
    · have inverse : (1 : K) / a ^ n.natAbs = a ^ n := by
        conv_rhs => rw [magnitude, zpow_neg, zpow_natCast]
        exact one_div _
      simp [arithmetic, integerPower?, zero, inverse]
  next positive =>
    have magnitude : n = (n.natAbs : Int) := by omega
    have whole : a ^ n.natAbs = a ^ n := by
      conv_rhs => rw [magnitude, zpow_natCast]
    rw [integerPower?, if_neg fun both => positive both.2, whole]

theorem intPower?_eq (F : Interpretation K) (a : K) (n : Int) :
    F.arithmetic.intPower? a n = integerPower? a n := by
  unfold Arithmetic.intPower?
  split
  next short => exact (F.integerPower?_eq_product a n).symm
  next => exact F.power_intCast a n

end Interpretation

/-- Rational numbers without functions, in which runs can be evaluated. -/
def Interpretation.rational : Interpretation ℚ where
  pi := 0
  e := 0
  apply _ _ := none
  power x y := if y.den = 1 then integerPower? x y.num else none
  integral? x := if x.den = 1 then some x.num else none
  exp_ln none := by cases none
  power_intCast x n := by rw [Rat.den_intCast, if_pos rfl, Rat.num_intCast]
  integral?_eq_some {x n} := by
    rw [Option.ite_none_right_eq_some, Option.some.injEq]
    constructor
    · rintro ⟨whole, rfl⟩
      exact ((Rat.den_eq_one_iff x).1 whole).symm
    · rintro rfl
      exact ⟨Rat.den_intCast n, Rat.num_intCast n⟩

theorem integerPower?_eq_some {K : Type} [Field K] [DecidableEq K] {x v : K} {n : Int} :
    integerPower? x n = some v ↔ (x = 0 → 0 ≤ n) ∧ x ^ n = v := by
  unfold integerPower?
  split
  next both => simp [both.1, both.2]
  next fine =>
    have defined : x = 0 → 0 ≤ n := fun zero => Int.not_lt.1 fun negative => fine ⟨zero, negative⟩
    simp only [Option.some.injEq]
    exact ⟨fun value => ⟨defined, value⟩, fun value => value.2⟩

theorem decimal_eq {K : Type} [Field K] [LinearOrder K] [IsStrictOrderedRing K]
    {F : Interpretation K} (digits : Nat) (exponent : Int) :
    (decimal digits exponent : Exact F.arithmetic) = .of ((digits : K) * 10 ^ exponent) := by
  change Exact.ofNumeral (A := F.arithmetic) ⟨false, .decimal digits exponent⟩ = _
  by_cases whole : 0 ≤ exponent
  · obtain ⟨k, rfl⟩ := Int.eq_ofNat_of_zero_le whole
    simp [Exact.ofNumeral]
  · obtain ⟨k, rfl⟩ : ∃ k : Nat, exponent = -k := ⟨exponent.natAbs, by omega⟩
    rw [zpow_neg, zpow_natCast, ← div_eq_mul_inv]
    simp only [Exact.ofNumeral, if_neg whole, neg_neg, Int.toNat_natCast, Bool.false_eq_true,
      if_false]
    exact congrArg Exact.mk (if_neg (pow_ne_zero k (by norm_num)))

end Simultaneous
