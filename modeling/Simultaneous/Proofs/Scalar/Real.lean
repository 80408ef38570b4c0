import Simultaneous.Proofs.Scalar.Dual

/-!
The real numbers with their elementary functions as an exact arithmetic, and the derivatives of these
functions: the expressions that symbolic differentiation takes for them have the right values.
-/

namespace Simultaneous

open Simultaneous.Expr

/-! ### The arithmetic -/

open Classical in
noncomputable def realIntegral? (x : ℝ) : Option Int := if (⌊x⌋ : ℝ) = x then some ⌊x⌋ else none

theorem realIntegral?_eq_some {x : ℝ} {n : Int} : realIntegral? x = some n ↔ x = n := by
  unfold realIntegral?
  split
  next whole =>
    rw [Option.some.injEq]
    constructor
    · rintro rfl
      exact whole.symm
    · rintro rfl
      exact Int.floor_intCast n
  next other =>
    constructor
    · rintro ⟨⟩
    · rintro rfl
      exact absurd (by rw [Int.floor_intCast]) other

namespace Elementary

/-- An elementary function of real numbers, with any value outside of its domain. -/
noncomputable def real : Elementary → ℝ → ℝ
  | sin => Real.sin
  | cos => Real.cos
  | tan => Real.tan
  | exp => Real.exp
  | ln => Real.log
  | sqrt => Real.sqrt
  | sinh => Real.sinh
  | cosh => Real.cosh
  | tanh => Real.tanh
  | arcsin => Real.arcsin
  | arccos => Real.arccos
  | arctan => Real.arctan

def Defined : Elementary → ℝ → Prop
  | tan, x => Real.cos x ≠ 0
  | ln, x => 0 < x
  | sqrt, x => 0 ≤ x
  | arcsin, x | arccos, x => -1 ≤ x ∧ x ≤ 1
  | _, _ => True

end Elementary

open Classical in
/-- A power of real numbers: of zero by a non-negative number, of a negative number by an
integer. -/
noncomputable def realPower? (x y : ℝ) : Option ℝ :=
  if (x = 0 ∧ y < 0) ∨ (x < 0 ∧ ∀ n : Int, y ≠ n) then none else some (x ^ y)

theorem realPower?_intCast (x : ℝ) (n : Int) : realPower? x n = integerPower? x n := by
  have integral : ¬(x < 0 ∧ ∀ m : Int, (n : ℝ) ≠ m) := fun both => both.2 n rfl
  unfold realPower? integerPower?
  simp only [integral, or_false, Int.cast_lt_zero, Real.rpow_intCast]

theorem realPower?_eq_some {x y v : ℝ} (power : realPower? x y = some v) :
    (x = 0 → 0 ≤ y) ∧ x ^ y = v := by
  unfold realPower? at power
  split at power
  next => cases power
  next defined =>
    refine ⟨fun zero => not_lt.1 fun negative => defined (.inl ⟨zero, negative⟩), ?_⟩
    exact Option.some.inj power

namespace Interpretation

open Classical in
noncomputable def real : Interpretation ℝ where
  pi := Real.pi
  e := Real.exp 1
  apply f x := if f.Defined x then some (f.real x) else none
  power := realPower?
  integral? := realIntegral?
  exp_ln {x y} logarithm := by
    split at logarithm
    next positive =>
      obtain rfl : Real.log x = y := Option.some.inj logarithm
      rw [if_pos (show Elementary.exp.Defined (Real.log x) from trivial)]
      exact congrArg some (Real.exp_log positive)
    next => cases logarithm
  power_intCast := realPower?_intCast
  integral?_eq_some := realIntegral?_eq_some

theorem real_apply_eq_some {f : Elementary} {x v : ℝ} :
    real.arithmetic.apply f x = some v ↔ f.Defined x ∧ f.real x = v := by
  by_cases defined : f.Defined x <;> simp [real, arithmetic, defined]

end Interpretation

/-! ### Derivatives -/

theorem hasDerivAt_tanh (x : ℝ) : HasDerivAt Real.tanh (1 - Real.tanh x ^ 2) x := by
  have positive := (Real.cosh_pos x).ne'
  have quotient := (Real.hasDerivAt_sinh x).div (Real.hasDerivAt_cosh x) positive
  have functions : Real.tanh = Real.sinh / Real.cosh := by
    funext y
    exact Real.tanh_eq_sinh_div_cosh y
  have rate : (Real.cosh x * Real.cosh x - Real.sinh x * Real.sinh x) / Real.cosh x ^ 2 =
      1 - Real.tanh x ^ 2 := by
    rw [Real.tanh_eq_sinh_div_cosh]
    field_simp
  rw [functions, ← functions, ← rate, functions]
  exact quotient

/-! #### Values of the parts that the expressions are made of -/

section

variable {point : Nat → Exact Interpretation.real.arithmetic} {a d : ℝ} {f : Elementary}
  {e : Expr (Exact Interpretation.real.arithmetic)}

theorem hasValue_one : HasValue point (.const Scalar.one) d ↔ 1 = d := by
  rw [hasValue_const, Exact.one_eq, Exact.of_inj]

theorem hasValue_argument : HasValue point (.const (.of a)) d ↔ a = d := Exact.of_inj

theorem hasValue_function :
    HasValue point (.call f (.const (.of a))) d ↔ f.Defined a ∧ f.real a = d := by
  simp [hasValue_call, hasValue_argument, Interpretation.real_apply_eq_some]

theorem hasValue_square : HasValue point (.pow e 2) d ↔ ∃ c, HasValue point e c ∧ c ^ 2 = d := by
  have two : (2 : Int64).toInt = (2 : Nat) := rfl
  have nonzero : (2 : Int64) ≠ 0 := by decide
  simp [hasValue_pow, Interpretation.intPower?_eq, integerPower?_eq_some, two, nonzero]

theorem hasValue_inverse : HasValue point (.div (.const Scalar.one) e) d ↔
    ∃ c, HasValue point e c ∧ c ≠ 0 ∧ 1 / c = d := by
  simp only [hasValue_div, hasValue_one, Interpretation.div_eq_some]
  constructor
  · rintro ⟨b, c, rfl, value, quotient⟩
    exact ⟨c, value, quotient⟩
  · rintro ⟨c, value, quotient⟩
    exact ⟨1, c, rfl, value, quotient⟩

theorem hasValue_arcsine (slope : HasValue point (Elementary.arcsin.derivative (.const (.of a))) d) :
    a ≠ -1 ∧ a ≠ 1 ∧ 1 / √(1 - a ^ 2) = d := by
  obtain ⟨c, root, nonzero, rfl⟩ := hasValue_inverse.1 slope
  obtain ⟨r, difference, apply⟩ := hasValue_call.1 root
  obtain ⟨-, rfl⟩ := Interpretation.real_apply_eq_some.1 apply
  obtain ⟨one, s, unit, square, rfl⟩ := hasValue_sub.1 difference
  obtain ⟨x, argument, rfl⟩ := hasValue_square.1 square
  rw [hasValue_one] at unit
  rw [hasValue_argument] at argument
  subst unit argument
  refine ⟨?_, ?_, rfl⟩ <;> rintro rfl <;> simp [Elementary.real] at nonzero

end

/-- Where a function is defined and the expression for its derivative has a value, that value is the
derivative. -/
theorem Elementary.hasDerivAt_real {f : Elementary} {a d : ℝ}
    {point : Nat → Exact Interpretation.real.arithmetic} (defined : f.Defined a)
    (slope : HasValue point (f.derivative (.const (.of a))) d) : HasDerivAt f.real d a := by
  cases f with
  | sin =>
    obtain ⟨-, rfl⟩ := hasValue_function.1 slope
    exact Real.hasDerivAt_sin a
  | cos =>
    obtain ⟨c, sine, rfl⟩ := hasValue_neg.1 slope
    obtain ⟨-, rfl⟩ := hasValue_function.1 sine
    exact Real.hasDerivAt_cos a
  | tan =>
    obtain ⟨s, square, -, rfl⟩ := hasValue_inverse.1 slope
    obtain ⟨c, cosine, rfl⟩ := hasValue_square.1 square
    obtain ⟨-, rfl⟩ := hasValue_function.1 cosine
    exact Real.hasDerivAt_tan defined
  | exp =>
    obtain ⟨-, rfl⟩ := hasValue_function.1 slope
    exact Real.hasDerivAt_exp a
  | ln =>
    obtain ⟨c, argument, nonzero, rfl⟩ := hasValue_inverse.1 slope
    obtain rfl := hasValue_argument.1 argument
    rw [one_div]
    exact Real.hasDerivAt_log nonzero
  | sqrt =>
    obtain ⟨c, product, nonzero, rfl⟩ := hasValue_inverse.1 slope
    obtain ⟨two, root, factor, call, rfl⟩ := hasValue_mul.1 product
    obtain ⟨-, rfl⟩ := hasValue_function.1 call
    obtain rfl : ((2 : Int) : ℝ) = two := Exact.of_inj.1 factor
    have positive : a ≠ 0 := by
      rintro rfl
      simp [Elementary.real] at nonzero
    rw [Int.cast_ofNat]
    exact Real.hasDerivAt_sqrt positive
  | sinh =>
    obtain ⟨-, rfl⟩ := hasValue_function.1 slope
    exact Real.hasDerivAt_sinh a
  | cosh =>
    obtain ⟨-, rfl⟩ := hasValue_function.1 slope
    exact Real.hasDerivAt_cosh a
  | tanh =>
    obtain ⟨one, s, unit, square, rfl⟩ := hasValue_sub.1 slope
    obtain ⟨c, tangent, rfl⟩ := hasValue_square.1 square
    obtain ⟨-, rfl⟩ := hasValue_function.1 tangent
    obtain rfl := hasValue_one.1 unit
    exact hasDerivAt_tanh a
  | arcsin =>
    obtain ⟨low, high, rfl⟩ := hasValue_arcsine slope
    exact Real.hasDerivAt_arcsin low high
  | arccos =>
    obtain ⟨c, arcsine, rfl⟩ := hasValue_neg.1 slope
    obtain ⟨low, high, rfl⟩ := hasValue_arcsine arcsine
    exact Real.hasDerivAt_arccos low high
  | arctan =>
    obtain ⟨c, sum, -, rfl⟩ := hasValue_inverse.1 slope
    obtain ⟨one, s, unit, square, rfl⟩ := hasValue_add.1 sum
    obtain ⟨x, argument, rfl⟩ := hasValue_square.1 square
    obtain rfl := hasValue_argument.1 argument
    obtain rfl := hasValue_one.1 unit
    exact Real.hasDerivAt_arctan a

noncomputable def Slopes.real : Slopes Interpretation.real where
  function f x := some (deriv f.real x)
  base x y := some (deriv (fun t => t ^ y) x)
  exponent x y := some (deriv (fun t => x ^ t) y)
  function_eq value slope := by
    obtain ⟨defined, -⟩ := Interpretation.real_apply_eq_some.1 value
    rw [(Elementary.hasDerivAt_real defined slope).deriv]
  base_eq {a p v w} _ lower := by
    obtain ⟨defined, rfl⟩ := realPower?_eq_some lower
    have regular : a ≠ 0 ∨ 1 ≤ p := by
      by_cases zero : a = 0
      · exact .inr (by linarith [defined zero])
      · exact .inl zero
    rw [(Real.hasDerivAt_rpow_const regular).deriv]
  base_eq_quotient {a b v} power nonzero := by
    obtain ⟨-, rfl⟩ := realPower?_eq_some power
    rw [(Real.hasDerivAt_rpow_const (.inl nonzero)).deriv, Real.rpow_sub_one nonzero]
    congr 1
    ring
  exponent_eq {a b v l} power logarithm := by
    obtain ⟨-, rfl⟩ := realPower?_eq_some power
    obtain ⟨positive, rfl⟩ := Interpretation.real_apply_eq_some.1 logarithm
    rw [(Real.hasStrictDerivAt_const_rpow positive b).hasDerivAt.deriv]
    rfl

end Simultaneous
