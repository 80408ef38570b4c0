import Simultaneous.Proofs.Scalar.Real

/-!
Symbolic derivatives are derivatives. An expression is evaluated in dual numbers with an infinitesimal
added to one variable; where the expression and its derivative by that variable have values, these are
the real part and the coefficient of the infinitesimal.
-/

namespace Simultaneous

open Scalar TrivSqZeroExt

namespace Expr

def substitute {α β : Type} (constant : α → β) (variable_ : String → Nat → Expr β) :
    Expr α → Expr β
  | const c => const (constant c)
  | var name i => variable_ name i
  | add l r => add (l.substitute constant variable_) (r.substitute constant variable_)
  | mul l r => mul (l.substitute constant variable_) (r.substitute constant variable_)
  | sub l r => sub (l.substitute constant variable_) (r.substitute constant variable_)
  | div l r => div (l.substitute constant variable_) (r.substitute constant variable_)
  | abs e => abs (e.substitute constant variable_)
  | pow b n => pow (b.substitute constant variable_) n
  | powConst b p => powConst (b.substitute constant variable_) (constant p)
  | powExpr b e => powExpr (b.substitute constant variable_) (e.substitute constant variable_)
  | call f e => call f (e.substitute constant variable_)
  | neg e => neg (e.substitute constant variable_)

def HasPredecessors {α : Type} : Expr α → Prop
  | const _ | var _ _ => True
  | add l r | mul l r | sub l r | div l r | powExpr l r => l.HasPredecessors ∧ r.HasPredecessors
  | pow b n => b.HasPredecessors ∧ n ≠ Int64.minValue
  | abs e | powConst e _ | call _ e | neg e => e.HasPredecessors

variable {K : Type} [Field K] [LinearOrder K] {F : Interpretation K} (D : Slopes F)

def lift (x : Exact F.arithmetic) : Exact D.arithmetic := ⟨x.value?.map inl⟩

/-- The expression in dual numbers with `ε` added to a variable. -/
def perturbed (name : String) : Expr (Exact F.arithmetic) → Expr (Exact D.arithmetic) :=
  substitute (lift D) fun n i =>
    if n = name then add (var n i) (const (.of DualNumber.eps)) else var n i

theorem lift_of (a : K) : lift D (.of a) = .of (dual a 0) := by
  simp [lift, Exact.of, dual]

variable {point : Nat → Exact F.arithmetic} {name : String}

theorem toInt_pred {n : Int64} (least : n ≠ Int64.minValue) : (n - 1).toInt = n.toInt - 1 := by
  have low := n.le_toInt
  have high := n.toInt_lt
  have above : n.toInt ≠ -2 ^ 63 := fun same =>
    least (Int64.toInt_inj.1 (same.trans Int64.toInt_minValue.symm))
  rw [Int64.toInt_sub, Int64.toInt_one]
  exact Int.bmod_eq_of_le (by omega) (by omega)

theorem hasValue_elementary {f : Elementary} {e : Expr (Exact F.arithmetic)} {a d : K}
    (value : HasValue point e a) (slope : HasValue point (f.derivative e) d) :
    HasValue point (f.derivative (const (.of a))) d := by
  have same : (f.derivative (const (.of a))).evaluate point = (f.derivative e).evaluate point := by
    have value : e.evaluate point = .of a := value
    cases f <;> simp only [Elementary.derivative, evaluate, value]
  exact same.trans slope

/-! ### The rules of differentiation -/

section Rules

variable {l r e b : Expr (Exact F.arithmetic)} {a c d v : K}

theorem slope_mul (left : HasValue point l a) (right : HasValue point r c)
    (slope : HasValue point ((mul l r).derivative name) d) :
    ∃ a' c', HasValue point (l.derivative name) a' ∧ HasValue point (r.derivative name) c' ∧
      a * c' + c * a' = d := by
  obtain ⟨s, t, first, second, rfl⟩ := hasValue_add.1 slope
  obtain ⟨a₂, c', hl, hr', rfl⟩ := hasValue_mul.1 first
  obtain ⟨c₂, a', hr, hl', rfl⟩ := hasValue_mul.1 second
  rw [← left.unique hl, ← right.unique hr]
  exact ⟨a', c', hl', hr', rfl⟩

theorem slope_div (left : HasValue point l a) (right : HasValue point r c)
    (slope : HasValue point ((div l r).derivative name) d) :
    ∃ a' c', HasValue point (l.derivative name) a' ∧ HasValue point (r.derivative name) c' ∧
      (c * a' - a * c') / c ^ 2 = d := by
  obtain ⟨s, t, numerator, square, quotient⟩ := hasValue_div.1 slope
  obtain ⟨-, rfl⟩ := F.div_eq_some.1 quotient
  obtain ⟨s₁, s₂, first, second, rfl⟩ := hasValue_sub.1 numerator
  obtain ⟨c₂, a', hr, hl', rfl⟩ := hasValue_mul.1 first
  obtain ⟨a₂, c', hl, hr', rfl⟩ := hasValue_mul.1 second
  have two : (2 : Int64).toInt = (2 : Nat) := rfl
  obtain ⟨zero, -⟩ | ⟨c₃, hr₃, power⟩ := hasValue_pow.1 square
  · exact absurd zero (by decide)
  rw [F.intPower?_eq, integerPower?_eq_some, two, zpow_natCast] at power
  rw [← power.2, ← left.unique hl, ← right.unique hr, ← right.unique hr₃]
  exact ⟨a', c', hl', hr', rfl⟩

theorem slope_abs (inner : HasValue point e a)
    (slope : HasValue point ((abs e).derivative name) d) :
    ∃ a', HasValue point (e.derivative name) a' ∧ |a| ≠ 0 ∧ a / |a| * a' = d := by
  obtain ⟨s, a', sign, h', rfl⟩ := hasValue_mul.1 slope
  obtain ⟨a₂, m, h, magnitude, quotient⟩ := hasValue_div.1 sign
  obtain ⟨a₃, h₃, same⟩ := hasValue_abs.1 magnitude
  obtain rfl : |a₃| = m := Option.some.inj same
  obtain ⟨nonzero, rfl⟩ := F.div_eq_some.1 quotient
  rw [← inner.unique h₃] at nonzero
  rw [← inner.unique h, ← inner.unique h₃]
  exact ⟨a', h', nonzero, rfl⟩

theorem slope_pow {n : Int64} (slope : HasValue point ((pow b n).derivative name) d) :
    ∃ w a', HasValue point (pow b (n - 1)) w ∧ HasValue point (b.derivative name) a' ∧
      n.toInt * w * a' = d := by
  obtain ⟨s, a', outer, h', rfl⟩ := hasValue_mul.1 slope
  obtain ⟨m, w, factor, power, rfl⟩ := hasValue_mul.1 outer
  obtain rfl : (n.toInt : K) = m := Exact.of_inj.1 factor
  exact ⟨w, a', power, h', rfl⟩

theorem lower_power {n : Int64} (least : n ≠ Int64.minValue) (base : HasValue point b a)
    (power : HasValue point (pow b (n - 1)) v) : integerPower? a (n.toInt - 1) = some v := by
  rw [← toInt_pred least]
  obtain ⟨zero, rfl⟩ | ⟨a₂, h, power⟩ := hasValue_pow.1 power
  · rw [zero, Int64.toInt_zero, integerPower?_eq_some]
    exact ⟨fun _ => le_rfl, zpow_zero a⟩
  · rwa [base.unique h, ← F.intPower?_eq]

theorem slope_powConst {p : K} (base : HasValue point b a)
    (slope : HasValue point ((powConst b (.of p)).derivative name) d) :
    ∃ w a', F.power a (p - 1) = some w ∧ HasValue point (b.derivative name) a' ∧
      p * w * a' = d := by
  obtain ⟨s, a', outer, h', rfl⟩ := hasValue_mul.1 slope
  obtain ⟨q, w, factor, power, rfl⟩ := hasValue_mul.1 outer
  obtain rfl : p = q := Exact.of_inj.1 factor
  obtain ⟨a₂, q, h, difference, power⟩ := hasValue_powConst.1 power
  obtain rfl : p - 1 = q := by
    rw [Exact.one_eq] at difference
    exact Exact.of_inj.1 difference
  rw [← base.unique h] at power
  exact ⟨w, a', power, h', rfl⟩

theorem slope_powExpr (base : HasValue point b a) (exponent : HasValue point e c)
    (value : HasValue point (powExpr b e) v)
    (slope : HasValue point ((powExpr b e).derivative name) d) :
    ∃ a' c' l, HasValue point (b.derivative name) a' ∧ HasValue point (e.derivative name) c' ∧
      F.apply .ln a = some l ∧ a ≠ 0 ∧ v * (c' * l + c * (a' / a)) = d := by
  obtain ⟨v₂, s, power, factor, rfl⟩ := hasValue_mul.1 slope
  obtain ⟨s₁, s₂, first, second, rfl⟩ := hasValue_add.1 factor
  obtain ⟨c', l, he', logarithm, rfl⟩ := hasValue_mul.1 first
  obtain ⟨c₂, q, he, quotient, rfl⟩ := hasValue_mul.1 second
  obtain ⟨a', a₂, hb', hb, quotient⟩ := hasValue_div.1 quotient
  obtain ⟨nonzero, rfl⟩ := F.div_eq_some.1 quotient
  obtain ⟨a₃, hb₃, logarithm⟩ := hasValue_call.1 logarithm
  rw [← base.unique hb] at nonzero
  rw [← base.unique hb₃] at logarithm
  rw [← value.unique power, ← exponent.unique he, ← base.unique hb]
  exact ⟨a', c', l, hb', he', logarithm, nonzero, rfl⟩

theorem slope_call {f : Elementary} (argument : HasValue point e a) (result : F.apply f a = some v)
    (slope : HasValue point ((call f e).derivative name) d) :
    ∃ a' s, HasValue point (e.derivative name) a' ∧ D.function f a = some s ∧ s * a' = d := by
  obtain ⟨s, a', outer, h', rfl⟩ := hasValue_mul.1 slope
  exact ⟨a', s, h', D.function_eq result (hasValue_elementary argument outer), rfl⟩

end Rules

/-! ### Dual numbers -/

variable [IsStrictOrderedRing K]

theorem hasValue_perturbed {e : Expr (Exact F.arithmetic)} (fits : e.HasPredecessors) {v d : K}
    (value : HasValue point e v) (slope : HasValue point (e.derivative name) d) :
    HasValue (fun i => lift D (point i)) (e.perturbed D name) (dual v d) := by
  induction e generalizing v d with
  | const c =>
    obtain rfl : c = .of v := value
    obtain rfl : 0 = d := Exact.of_inj.1 (Exact.zero_eq.symm.trans slope)
    exact lift_of D v
  | var n i =>
    have at_i : lift D (point i) = .of (dual v 0) := by
      rw [show point i = .of v from value, lift_of]
    unfold perturbed substitute
    rw [derivative] at slope
    split
    next same =>
      rw [if_pos same] at slope
      obtain rfl : 1 = d := Exact.of_inj.1 (Exact.one_eq.symm.trans slope)
      refine hasValue_add.2 ⟨_, _, at_i, hasValue_const.2 rfl, ?_⟩
      exact eq_dual (by simp) (by simp)
    next other =>
      rw [if_neg other] at slope
      obtain rfl : 0 = d := Exact.of_inj.1 (Exact.zero_eq.symm.trans slope)
      exact at_i
  | add l r left right =>
    obtain ⟨a, c, hl, hr, rfl⟩ := hasValue_add.1 value
    obtain ⟨a', c', hl', hr', rfl⟩ := hasValue_add.1 slope
    exact hasValue_add.2 ⟨_, _, left fits.1 hl hl', right fits.2 hr hr', dual_add a a' c c'⟩
  | sub l r left right =>
    obtain ⟨a, c, hl, hr, rfl⟩ := hasValue_sub.1 value
    obtain ⟨a', c', hl', hr', rfl⟩ := hasValue_sub.1 slope
    exact hasValue_sub.2 ⟨_, _, left fits.1 hl hl', right fits.2 hr hr', dual_sub a a' c c'⟩
  | mul l r left right =>
    obtain ⟨a, c, hl, hr, rfl⟩ := hasValue_mul.1 value
    obtain ⟨a', c', hl', hr', rfl⟩ := slope_mul hl hr slope
    exact hasValue_mul.2 ⟨_, _, left fits.1 hl hl', right fits.2 hr hr', dual_mul a a' c c'⟩
  | div l r left right =>
    obtain ⟨a, c, hl, hr, quotient⟩ := hasValue_div.1 value
    obtain ⟨nonzero, rfl⟩ := F.div_eq_some.1 quotient
    obtain ⟨a', c', hl', hr', rfl⟩ := slope_div hl hr slope
    exact hasValue_div.2 ⟨_, _, left fits.1 hl hl', right fits.2 hr hr', D.div_dual nonzero⟩
  | abs e inner =>
    obtain ⟨a, h, magnitude⟩ := hasValue_abs.1 value
    obtain rfl : |a| = v := Option.some.inj magnitude
    obtain ⟨a', h', nonzero, rfl⟩ := slope_abs h slope
    exact hasValue_abs.2 ⟨_, inner fits h h', D.abs_dual (abs_ne_zero.1 nonzero)⟩
  | pow b n base =>
    obtain ⟨w, a', lower, h', rfl⟩ := slope_pow slope
    obtain ⟨rfl, rfl⟩ | ⟨a, h, power⟩ := hasValue_pow.1 value
    · refine hasValue_pow.2 (.inl ⟨rfl, ?_⟩)
      exact (eq_dual (by simp) (by simp)).symm
    · rw [F.intPower?_eq] at power
      have dual_power := D.intPower?_dual (b := a') power (lower_power fits.2 h lower)
      exact hasValue_pow.2 (.inr ⟨_, base fits.1 h h', dual_power⟩)
  | powConst b p base =>
    obtain ⟨a, p, h, rfl, power⟩ := hasValue_powConst.1 value
    obtain ⟨w, a', lower, h', rfl⟩ := slope_powConst h slope
    have dual_power := D.power_dual (b := a') power (D.base_eq power lower)
    exact hasValue_powConst.2 ⟨_, _, base fits h h', lift_of D p, dual_power⟩
  | powExpr b e base exponent =>
    obtain ⟨a, c, hb, he, power⟩ := hasValue_powExpr.1 value
    obtain ⟨a', c', l, hb', he', logarithm, nonzero, rfl⟩ := slope_powExpr hb he value slope
    have dual_power := D.power_dual_dual (b := a') (q := c') power
      (D.base_eq_quotient power nonzero) (D.exponent_eq power logarithm)
    have rate : v * (c' * l + c * (a' / a)) = v * (c / a) * a' + v * l * c' := by ring
    rw [rate]
    exact hasValue_powExpr.2 ⟨_, _, base fits.1 hb hb', exponent fits.2 he he', dual_power⟩
  | call f e argument =>
    obtain ⟨a, h, result⟩ := hasValue_call.1 value
    obtain ⟨a', s, h', function, rfl⟩ := slope_call D h result slope
    exact hasValue_call.2 ⟨_, argument fits h h', D.apply_dual result function⟩
  | neg e inner =>
    obtain ⟨a, h, rfl⟩ := hasValue_neg.1 value
    obtain ⟨a', h', rfl⟩ := hasValue_neg.1 slope
    exact hasValue_neg.2 ⟨_, inner fits h h', dual_neg a a'⟩

/-- At every point where an expression and its derivative have values in exact arithmetic, the value of
the derivative is the coefficient of the infinitesimal. -/
theorem derivative_is_dual_coefficient {e : Expr (Exact F.arithmetic)} (fits : e.HasPredecessors)
    {v d : K} (value : e.evaluate point = .of v) (slope : (e.derivative name).evaluate point = .of d) :
    (e.perturbed D name).evaluate (fun i => lift D (point i)) = .of (dual v d) :=
  hasValue_perturbed D fits value slope

section Witness

noncomputable def zeroTwo : Nat → Exact Interpretation.real.arithmetic
  | 0 => .of 0
  | _ => .of 2

noncomputable def damped : Expr (Exact Interpretation.real.arithmetic) :=
  mul (call .exp (var "x" 0)) (pow (var "y" 1) (-2))

theorem hasValue_power_of_two {n : Int64} {point : Nat → Exact Interpretation.real.arithmetic}
    {b : Expr (Exact Interpretation.real.arithmetic)} (base : HasValue point b 2) :
    HasValue point (pow b n) (2 ^ n.toInt) := by
  refine hasValue_pow.2 (.inr ⟨2, base, ?_⟩)
  rw [Interpretation.intPower?_eq, integerPower?_eq_some]
  exact ⟨fun zero => absurd zero two_ne_zero, rfl⟩

theorem hasValue_damped : HasValue zeroTwo damped (1 / 4) := by
  have growth : HasValue zeroTwo (call .exp (var "x" 0)) 1 :=
    hasValue_call.2 ⟨0, rfl, Interpretation.real_apply_eq_some.2 ⟨trivial, Real.exp_zero⟩⟩
  have square : (-2 : Int64).toInt = -2 := by decide
  refine hasValue_mul.2 ⟨_, _, growth, hasValue_power_of_two rfl, ?_⟩
  rw [square]
  norm_num

theorem hasValue_derivative_damped : HasValue zeroTwo (damped.derivative "y") (-1 / 4) := by
  have growth : HasValue zeroTwo (call .exp (var "x" 0)) 1 :=
    hasValue_call.2 ⟨0, rfl, Interpretation.real_apply_eq_some.2 ⟨trivial, Real.exp_zero⟩⟩
  have rate : HasValue zeroTwo ((call .exp (var "x" 0)).derivative "y") (1 * 0) := by
    refine hasValue_mul.2 ⟨1, 0, growth, ?_, rfl⟩
    exact Exact.zero_eq
  have square : (-2 : Int64).toInt = -2 := by decide
  have cube : (-2 - 1 : Int64).toInt = -3 := by decide
  have slope : HasValue zeroTwo ((pow (var "y" 1) (-2)).derivative "y")
      ((-2 : Int64).toInt * 2 ^ (-2 - 1 : Int64).toInt * 1) :=
    hasValue_mul.2 ⟨_, _, hasValue_mul.2 ⟨_, _, rfl, hasValue_power_of_two rfl, rfl⟩,
      Exact.one_eq, rfl⟩
  refine hasValue_add.2 ⟨_, _, hasValue_mul.2 ⟨_, _, growth, slope, rfl⟩,
    hasValue_mul.2 ⟨_, _, hasValue_power_of_two rfl, rate, rfl⟩, ?_⟩
  rw [square, cube]
  norm_num

theorem damped_dual : damped.HasPredecessors ∧ damped.evaluate zeroTwo = .of (1 / 4) ∧
    (damped.derivative "y").evaluate zeroTwo = .of (-1 / 4) ∧
    (damped.perturbed Slopes.real "y").evaluate (fun i => lift Slopes.real (zeroTwo i)) =
      .of (dual (1 / 4) (-1 / 4)) := by
  have fits : damped.HasPredecessors := ⟨trivial, trivial, by decide⟩
  exact ⟨fits, hasValue_damped, hasValue_derivative_damped,
    derivative_is_dual_coefficient Slopes.real fits hasValue_damped hasValue_derivative_damped⟩

/-- The least exponent has no predecessor, and the power by the number that takes its place leads to
no derivative. -/
theorem derivative_of_least_power :
    ∃ v d c : ℝ,
      (pow (var "x" 0) Int64.minValue).evaluate
        (fun _ => (.of 2 : Exact Interpretation.real.arithmetic)) = .of v ∧
      ((pow (var "x" 0) Int64.minValue).derivative "x").evaluate
        (fun _ => (.of 2 : Exact Interpretation.real.arithmetic)) = .of d ∧
      ((pow (var "x" 0) Int64.minValue).perturbed Slopes.real "x").evaluate
        (fun _ => lift Slopes.real (.of 2)) = .of (dual v c) ∧
      c ≠ d := by
  have least : (Int64.minValue - 1).toInt = 2 ^ 63 - 1 := by decide
  have power (m : Int) : integerPower? (2 : ℝ) m = some (2 ^ m) :=
    integerPower?_eq_some.2 ⟨fun zero => absurd zero two_ne_zero, rfl⟩
  have argument : (add (var "x" 0) (const (.of DualNumber.eps))).evaluate
      (fun _ => lift Slopes.real (.of 2)) = .of (dual 2 1) :=
    hasValue_add.2 ⟨dual 2 0, _, lift_of Slopes.real 2, rfl, eq_dual (by simp) (by simp)⟩
  refine ⟨_, _, _, hasValue_power_of_two rfl,
    hasValue_mul.2 ⟨_, _, hasValue_mul.2 ⟨_, _, rfl, hasValue_power_of_two rfl, rfl⟩,
      Exact.one_eq, rfl⟩,
    hasValue_pow.2 (.inr ⟨_, argument, Slopes.real.intPower?_dual (power _) (power _)⟩), ?_⟩
  rw [least, mul_one, mul_one]
  intro same
  have nonzero : ((Int64.minValue.toInt : Int) : ℝ) ≠ 0 := Int.cast_ne_zero.2 (by decide)
  have exponents := zpow_right_injective₀ two_pos (by norm_num) (mul_left_cancel₀ nonzero same)
  have negative : Int64.minValue.toInt < 0 := by decide
  omega

end Witness

end Expr

end Simultaneous
