import Simultaneous.Expr.Derivative
import Simultaneous.Proofs.Expr.Value
import Simultaneous.Proofs.Scalar.Interpretation

/-!
Dual numbers as an exact arithmetic: a number with the coefficient of an infinitesimal, in which a
function takes its argument along with its derivative.
-/

namespace Simultaneous

open Scalar TrivSqZeroExt

variable {K : Type} [Field K]

def dual (a b : K) : DualNumber K := inl a + inr b

@[simp] theorem fst_dual (a b : K) : (dual a b).fst = a := by simp [dual]

@[simp] theorem snd_dual (a b : K) : (dual a b).snd = b := by simp [dual]

theorem eq_dual {x : DualNumber K} {a b : K} (real : x.fst = a) (infinitesimal : x.snd = b) :
    x = dual a b :=
  TrivSqZeroExt.ext (by rw [real, fst_dual]) (by rw [infinitesimal, snd_dual])

theorem dual_add (a b c d : K) : dual a b + dual c d = dual (a + c) (b + d) :=
  eq_dual (by simp) (by simp)

theorem dual_sub (a b c d : K) : dual a b - dual c d = dual (a - c) (b - d) :=
  eq_dual (by simp) (by simp)

theorem dual_mul (a b c d : K) : dual a b * dual c d = dual (a * c) (a * d + c * b) :=
  eq_dual (by simp) (by simp [mul_comm b])

theorem dual_neg (a b : K) : -dual a b = dual (-a) (-b) := eq_dual (by simp) (by simp)

theorem dual_pow (a b : K) (n : Nat) : dual a b ^ n = dual (a ^ n) (n * a ^ (n - 1) * b) := by
  apply eq_dual
  · rw [fst_pow, fst_dual]
  · rw [snd_pow, fst_dual, snd_dual, Nat.pred_eq_sub_one, smul_eq_mul, nsmul_eq_mul, mul_assoc]

variable [LinearOrder K]

/-- The derivatives of the functions and the two partial derivatives of powers. Where a function and
the expression for its derivative are defined, that expression has the derivative for its value; so
have the expressions for the derivatives of powers. -/
structure Slopes (F : Interpretation K) where
  function : Elementary → K → Option K
  base : K → K → Option K
  exponent : K → K → Option K
  function_eq {f : Elementary} {a v d : K} {point : Nat → Exact F.arithmetic} :
    F.apply f a = some v → (f.derivative (.const (.of a))).evaluate point = .of d →
      function f a = some d
  base_eq {a p v w : K} :
    F.power a p = some v → F.power a (p - 1) = some w → base a p = some (p * w)
  base_eq_quotient {a b v : K} : F.power a b = some v → a ≠ 0 → base a b = some (v * (b / a))
  exponent_eq {a b v l : K} :
    F.power a b = some v → F.apply .ln a = some l → exponent a b = some (v * l)

instance decidableEqDual : DecidableEq (DualNumber K) := inferInstanceAs (DecidableEq (K × K))

namespace Slopes

/-- The arithmetic of dual numbers. Divisors and the arguments of absolute values have a real part
other than zero, and a constant exponent needs no derivative by the exponent. -/
def arithmetic {F : Interpretation K} (D : Slopes F) : Arithmetic (DualNumber K) where
  pi := inl F.pi
  e := inl F.e
  div x y := if y.fst = 0 then none else some (x * y⁻¹)
  abs x := if x.fst = 0 then none else some (if 0 < x.fst then x else -x)
  power x y :=
    (F.power x.fst y.fst).bind fun v => (D.base x.fst y.fst).bind fun d =>
      if y.snd = 0 then some (dual v (d * x.snd))
      else (D.exponent x.fst y.fst).map fun c => dual v (d * x.snd + c * y.snd)
  apply f x := (F.apply f x.fst).bind fun v => (D.function f x.fst).map fun d => dual v (d * x.snd)
  lt x y := x.fst < y.fst
  le x y := x.fst ≤ y.fst
  integral? x := if x.snd = 0 then F.integral? x.fst else none

variable {F : Interpretation K} (D : Slopes F)

theorem div_dual {a b c d : K} (nonzero : c ≠ 0) :
    D.arithmetic.div (dual a b) (dual c d) = some (dual (a / c) ((c * b - a * d) / c ^ 2)) := by
  simp only [arithmetic, fst_dual, if_neg nonzero, Option.some.injEq]
  apply eq_dual
  · simp [div_eq_mul_inv]
  · simp only [DualNumber.snd_mul, fst_dual, snd_dual, snd_inv, fst_inv, smul_eq_mul,
      MulOpposite.smul_eq_mul_unop, MulOpposite.unop_op]
    field_simp
    ring

theorem abs_dual [IsStrictOrderedRing K] {a b : K} (nonzero : a ≠ 0) :
    D.arithmetic.abs (dual a b) = some (dual |a| (a / |a| * b)) := by
  simp only [arithmetic, fst_dual, if_neg nonzero, Option.some.injEq]
  split
  next positive => rw [abs_of_pos positive, div_self nonzero, one_mul]
  next negative =>
    have below : a < 0 := lt_of_le_of_ne (not_lt.1 negative) nonzero
    rw [dual_neg, abs_of_neg below, div_neg, div_self nonzero, neg_one_mul]

theorem apply_dual {f : Elementary} {a b v d : K} (value : F.apply f a = some v)
    (slope : D.function f a = some d) :
    D.arithmetic.apply f (dual a b) = some (dual v (d * b)) := by
  simp [arithmetic, value, slope]

theorem power_dual {a b p v d : K} (value : F.power a p = some v) (slope : D.base a p = some d) :
    D.arithmetic.power (dual a b) (dual p 0) = some (dual v (d * b)) := by
  simp [arithmetic, value, slope]

theorem power_dual_dual {a b p q v d c : K} (value : F.power a p = some v)
    (slope : D.base a p = some d) (other : D.exponent a p = some c) :
    D.arithmetic.power (dual a b) (dual p q) = some (dual v (d * b + c * q)) := by
  by_cases constant : q = 0 <;> simp [arithmetic, value, slope, other, constant]

theorem intPower?_dual {a b v w : K} {n : Int} (value : integerPower? a n = some v)
    (lower : integerPower? a (n - 1) = some w) :
    D.arithmetic.intPower? (dual a b) n = some (dual v (n * w * b)) := by
  rw [Arithmetic.intPower?]
  split
  next short =>
    obtain ⟨-, rfl⟩ := integerPower?_eq_some.1 value
    obtain ⟨lower_defined, rfl⟩ := integerPower?_eq_some.1 lower
    split
    next negative =>
      have nonzero : a ≠ 0 := fun zero => by
        have := lower_defined zero
        omega
      have magnitude : n = -(n.natAbs : Int) := by omega
      generalize n.natAbs = m at magnitude
      subst magnitude
      have unit : (1 : DualNumber K) = dual 1 0 := eq_dual fst_one snd_one
      rw [dual_pow, unit, div_dual D (pow_ne_zero _ nonzero)]
      have value_eq : 1 / a ^ m = a ^ (-(m : Int)) := by rw [zpow_neg, zpow_natCast, one_div]
      have slope_eq : (a ^ m * 0 - 1 * (m * a ^ (m - 1) * b)) / (a ^ m) ^ 2 =
          ((-(m : Int) : Int) : K) * a ^ (-(m : Int) - 1) * b := by
        have lower : a ^ (-(m : Int) - 1) = (a ^ (m + 1))⁻¹ := by
          rw [← zpow_natCast, ← zpow_neg, Nat.cast_add, Nat.cast_one, neg_add, sub_eq_add_neg]
        rw [lower]
        cases m with
        | zero => simp
        | succ k =>
          rw [Nat.add_sub_cancel]
          push_cast
          field_simp
          ring
      rw [value_eq, slope_eq]
    next positive =>
      obtain ⟨m, rfl⟩ := Int.eq_ofNat_of_zero_le (Int.not_lt.1 positive)
      have slope_eq : (m : K) * a ^ (m - 1) = ((m : Int) : K) * a ^ ((m : Int) - 1) := by
        cases m with
        | zero => simp
        | succ k => simp
      rw [Int.natAbs_natCast, dual_pow, slope_eq, zpow_natCast]
  next long =>
    have predecessor : F.power a ((n : K) - 1) = some w := by
      rw [← lower, ← F.power_intCast, Int.cast_sub, Int.cast_one]
    have power : F.power a n = some v := by rw [F.power_intCast, value]
    have cast : (n : DualNumber K) = dual (n : K) 0 := eq_dual (fst_intCast n) (snd_intCast n)
    rw [cast]
    exact D.power_dual power (D.base_eq power predecessor)

end Slopes

end Simultaneous
