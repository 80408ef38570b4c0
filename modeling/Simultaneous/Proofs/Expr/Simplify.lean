import Simultaneous.Proofs.Expr.Rewrites
import Simultaneous.Proofs.Expr.Value
import Simultaneous.Proofs.Scalar.Real

/-!
Simplification keeps values. Each rule, applied to operands that are simple already, leads to an
expression with the value of the node; a run of simplification applies rules to smaller and smaller
expressions. Exponents are 64-bit integers, so what is asked for besides a value is that no sum and
no product of exponents wraps around on the way.
-/

namespace Simultaneous

open Scalar

def Reduct.expr {α : Type} : Reduct α → Expr α
  | done e => e
  | again e => e

namespace Expr

/-! ### Exponents that stay in range -/

def IsExponent (n : Int) : Prop := -2 ^ 63 ≤ n ∧ n < 2 ^ 63

section Range

variable {α : Type} [Scalar α]

def SumFits : Expr α → Expr α → Prop
  | pow b m, pow c n => same b c = true → IsExponent (m.toInt + n.toInt)
  | _, _ => True

def ProductFits : Expr α → Int64 → Prop
  | pow _ m, n => n ≠ 0 → n ≠ 1 → IsExponent (m.toInt * n.toInt)
  | _, _ => True

/-- No exponent leaves its range while an expression is simplified. The cases follow the run: the
operands are simplified, then what the rule of the node leaves to be simplified. -/
inductive ExponentsFit : Expr α → Prop
  | const (c : α) : ExponentsFit (const c)
  | var (name : String) (i : Nat) : ExponentsFit (var name i)
  | add {l r : Expr α} : ExponentsFit l → ExponentsFit r →
      (∀ e, addRule l.simplify r.simplify = .again e → ExponentsFit e) → ExponentsFit (add l r)
  | sub {l r : Expr α} : ExponentsFit l → ExponentsFit r →
      (∀ e, subRule l.simplify r.simplify = .again e → ExponentsFit e) → ExponentsFit (sub l r)
  | mul {l r : Expr α} : ExponentsFit l → ExponentsFit r → SumFits l.simplify r.simplify →
      (∀ e, mulRule l.simplify r.simplify = .again e → ExponentsFit e) → ExponentsFit (mul l r)
  | div {l r : Expr α} : ExponentsFit l → ExponentsFit r →
      (∀ e, divRule l.simplify r.simplify = .again e → ExponentsFit e) → ExponentsFit (div l r)
  | abs {e : Expr α} : ExponentsFit e →
      (∀ f, absRule e.simplify = .again f → ExponentsFit f) → ExponentsFit (abs e)
  | pow {b : Expr α} {n : Int64} : ExponentsFit b → ProductFits b.simplify n →
      (∀ e, powRule b.simplify n = .again e → ExponentsFit e) → ExponentsFit (pow b n)
  | powInteger {b : Expr α} {p : α} {n : Int64} : shortInteger? p = some n → ExponentsFit b →
      ExponentsFit b.simplify → ProductFits b.simplify.simplify n →
      (∀ e, powRule b.simplify.simplify n = .again e → ExponentsFit e) → ExponentsFit (powConst b p)
  | powConst {b : Expr α} {p : α} : shortInteger? p = none → ExponentsFit b →
      (∀ e, powConstRule b.simplify p = .again e → ExponentsFit e) → ExponentsFit (powConst b p)
  | powExpr {b e : Expr α} : ExponentsFit b → ExponentsFit e →
      (∀ f, powExprRule b.simplify e.simplify = .again f → ExponentsFit f) →
      ExponentsFit (powExpr b e)
  | call {f : Elementary} {e : Expr α} : ExponentsFit e →
      (∀ g, callRule f e.simplify = .again g → ExponentsFit g) → ExponentsFit (call f e)
  | neg {e : Expr α} : ExponentsFit e →
      (∀ f, negRule e.simplify = .again f → ExponentsFit f) → ExponentsFit (neg e)

end Range

theorem toInt_add {m n : Int64} (fits : IsExponent (m.toInt + n.toInt)) :
    (m + n).toInt = m.toInt + n.toInt := by
  obtain ⟨low, high⟩ := fits
  rw [Int64.toInt_add]
  exact Int.bmod_eq_of_le (by omega) (by omega)

theorem toInt_mul {m n : Int64} (fits : IsExponent (m.toInt * n.toInt)) :
    (m * n).toInt = m.toInt * n.toInt := by
  obtain ⟨low, high⟩ := fits
  rw [Int64.toInt_mul]
  exact Int.bmod_eq_of_le (by omega) (by omega)

/-! ### Rules -/

section Rules

variable {K : Type} [Field K] [LinearOrder K] {F : Interpretation K}
variable {point : Nat → Exact F.arithmetic} {l r e b : Expr (Exact F.arithmetic)} {v : K}

theorem eq_const_of_isConst {n : Int} (h : isConst n e = true) : e = const (.of (n : K)) := by
  cases e with
  | const c =>
    obtain ⟨a, rfl, value⟩ := Exact.beq_eq_true.1 h
    rw [Exact.ofInt_eq] at value
    rw [value]
  | _ => cases h

theorem HasValue.of_isConst {n : Int} (value : HasValue point e v) (h : isConst n e = true) :
    v = n := by
  rw [eq_const_of_isConst h] at value
  exact (Exact.of_inj.1 value).symm

theorem hasValue_addRule (value : HasValue point (add l r) v) :
    HasValue point (addRule l r).expr v := by
  obtain ⟨a, c, left, right, rfl⟩ := hasValue_add.1 value
  have step := rewrites_addRule l r
  generalize addRule l r = w at step ⊢
  cases step with
  | addFold | addKeep => exact value
  | addZero zero => rwa [right.of_isConst zero, Int.cast_zero, add_zero]
  | zeroAdd zero => rwa [left.of_isConst zero, Int.cast_zero, zero_add]
  | addNeg =>
    obtain ⟨d, inner, rfl⟩ := hasValue_neg.1 right
    exact hasValue_sub.2 ⟨a, d, left, inner, sub_eq_add_neg a d⟩

theorem subRule_ne_again (l r f : Expr (Exact F.arithmetic)) : subRule l r ≠ .again f := by
  intro rule
  have step := rewrites_subRule l r
  rw [rule] at step
  cases step

theorem hasValue_subRule (value : HasValue point (sub l r) v) :
    HasValue point (subRule l r).expr v := by
  obtain ⟨a, c, left, right, rfl⟩ := hasValue_sub.1 value
  have step := rewrites_subRule l r
  generalize subRule l r = w at step ⊢
  cases step with
  | subFold | subKeep => exact value
  | subZero zero => rwa [right.of_isConst zero, Int.cast_zero, sub_zero]
  | zeroSub _ zero =>
    rw [left.of_isConst zero, Int.cast_zero, zero_sub]
    exact hasValue_neg.2 ⟨c, right, rfl⟩
  | subSame _ equal =>
    rw [eq_of_same equal] at left
    rw [left.unique right, sub_self]
    exact Exact.zero_eq

theorem hasValue_pow_add {m n : Int64} (fits : IsExponent (m.toInt + n.toInt)) {a c : K}
    (left : HasValue point (pow b m) a) (right : HasValue point (pow b n) c) :
    HasValue point (pow b (m + n)) (a * c) := by
  rw [hasValue_pow] at left right ⊢
  rcases left with ⟨rfl, rfl⟩ | ⟨x, base, left⟩
  · simpa using right
  rcases right with ⟨rfl, rfl⟩ | ⟨y, same_base, right⟩
  · simpa using .inr ⟨x, base, left⟩
  · obtain rfl := base.unique same_base
    rw [F.intPower?_eq, integerPower?_eq_some] at left right
    refine .inr ⟨x, base, ?_⟩
    rw [F.intPower?_eq, toInt_add fits, integerPower?_eq_some]
    obtain ⟨left_defined, rfl⟩ := left
    obtain ⟨right_defined, rfl⟩ := right
    refine ⟨fun zero => add_nonneg (left_defined zero) (right_defined zero), zpow_add' ?_⟩
    by_cases zero : x = 0
    · have := left_defined zero
      have := right_defined zero
      exact .inr (by omega)
    · exact .inl zero

theorem hasValue_pow_mul {m n : Int64} (m_ne : n ≠ 0) (fits : IsExponent (m.toInt * n.toInt))
    (value : HasValue point (pow (pow b m) n) v) : HasValue point (pow b (m * n)) v := by
  rw [hasValue_pow] at value
  rcases value with ⟨zero, -⟩ | ⟨a, inner, outer⟩
  · exact absurd zero m_ne
  rw [F.intPower?_eq, integerPower?_eq_some] at outer
  obtain ⟨outer_defined, rfl⟩ := outer
  rw [hasValue_pow] at inner ⊢
  rcases inner with ⟨rfl, rfl⟩ | ⟨x, base, inner⟩
  · exact .inl ⟨by simp, one_zpow _⟩
  · rw [F.intPower?_eq, integerPower?_eq_some] at inner
    obtain ⟨inner_defined, rfl⟩ := inner
    refine .inr ⟨x, base, ?_⟩
    rw [F.intPower?_eq, toInt_mul fits, integerPower?_eq_some]
    refine ⟨?_, zpow_mul x _ _⟩
    rintro rfl
    have nonneg := inner_defined rfl
    rcases nonneg.eq_or_lt with none | positive
    · rw [← none, zero_mul]
    · have vanishes : (0 : K) ^ m.toInt = 0 := zero_zpow _ positive.ne'
      exact mul_nonneg nonneg (outer_defined vanishes)

theorem hasValue_square {a : K} (base : HasValue point b a) : HasValue point (pow b 2) (a * a) := by
  have square : a ^ (2 : Int64).toInt = a * a := zpow_two a
  refine hasValue_pow.2 (.inr ⟨a, base, ?_⟩)
  rw [F.intPower?_eq, integerPower?_eq_some]
  exact ⟨fun _ => by decide, square⟩

theorem hasValue_mulRule (fits : SumFits l r) (value : HasValue point (mul l r) v) :
    HasValue point (mulRule l r).expr v := by
  obtain ⟨a, c, left, right, rfl⟩ := hasValue_mul.1 value
  have step := rewrites_mulRule l r
  generalize mulRule l r = w at step ⊢
  cases step with
  | mulFold | mulKeep => exact value
  | mulZero _ zero =>
    rw [right.of_isConst zero, Int.cast_zero, mul_zero]
    exact Exact.zero_eq
  | zeroMul _ zero =>
    rw [left.of_isConst zero, Int.cast_zero, zero_mul]
    exact Exact.zero_eq
  | mulOne one => rwa [right.of_isConst one, Int.cast_one, mul_one]
  | oneMul one => rwa [left.of_isConst one, Int.cast_one, one_mul]
  | mulMinusOne minus =>
    refine hasValue_neg.2 ⟨a, left, ?_⟩
    rw [right.of_isConst minus, Int.cast_neg, Int.cast_one, mul_neg_one]
  | minusOneMul minus =>
    refine hasValue_neg.2 ⟨c, right, ?_⟩
    rw [left.of_isConst minus, Int.cast_neg, Int.cast_one, neg_one_mul]
  | mulConstants =>
    obtain ⟨d, x, inner, rest, rfl⟩ := hasValue_mul.1 right
    have constants := Exact.mul_eq_of.2 ⟨a, d, left, inner, rfl⟩
    exact hasValue_mul.2 ⟨a * d, x, constants, rest, mul_assoc a d x⟩
  | mulPowers equal =>
    rw [← eq_of_same equal] at right
    exact hasValue_pow_add (fits equal) left right
  | mulConst => exact hasValue_mul.2 ⟨c, a, right, left, mul_comm c a⟩
  | mulSame _ equal =>
    rw [← eq_of_same equal] at right
    rw [← left.unique right]
    exact hasValue_square left

theorem hasValue_divRule (value : HasValue point (div l r) v) :
    HasValue point (divRule l r).expr v := by
  obtain ⟨a, c, left, right, quotient⟩ := hasValue_div.1 value
  obtain ⟨nonzero, rfl⟩ := F.div_eq_some.1 quotient
  have step := rewrites_divRule l r
  generalize divRule l r = w at step ⊢
  cases step with
  | divFold | divKeep => exact value
  | zeroDiv _ zero =>
    rw [left.of_isConst zero, Int.cast_zero, zero_div]
    exact Exact.zero_eq
  | divOne one => rwa [right.of_isConst one, Int.cast_one, div_one]
  | divMinusOne _ minus =>
    refine hasValue_neg.2 ⟨a, left, ?_⟩
    rw [right.of_isConst minus, Int.cast_neg, Int.cast_one, div_neg, div_one]
  | divSame _ _ equal =>
    rw [← eq_of_same equal] at right
    rw [left.unique right, div_self nonzero]
    exact Exact.one_eq

theorem hasValue_of_pow_one (value : HasValue point (pow b 1) v) : HasValue point b v := by
  obtain ⟨zero, -⟩ | ⟨a, base, power⟩ := hasValue_pow.1 value
  · exact absurd zero (by decide)
  · rw [F.intPower?_eq, Int64.toInt_one, integerPower?_eq_some, zpow_one] at power
    rwa [← power.2]

theorem eq_one_of_pow_zero (value : HasValue point (pow b 0) v) : v = 1 := by
  obtain ⟨-, rfl⟩ | ⟨a, -, power⟩ := hasValue_pow.1 value
  · rfl
  · rw [F.intPower?_eq, Int64.toInt_zero, integerPower?_eq_some, zpow_zero] at power
    exact power.2.symm

theorem hasValue_powRule {n : Int64} (fits : ProductFits b n)
    (value : HasValue point (pow b n) v) : HasValue point (powRule b n).expr v := by
  have step := rewrites_powRule b n
  generalize powRule b n = w at step ⊢
  cases step with
  | powFold | powKeep => exact value
  | powZero =>
    rw [eq_one_of_pow_zero value]
    exact Exact.one_eq
  | powOne => exact hasValue_of_pow_one value
  | powPow nonzero other => exact hasValue_pow_mul nonzero (fits nonzero other) value

theorem hasValue_powConstRule {p : Exact F.arithmetic} (value : HasValue point (powConst b p) v) :
    HasValue point (powConstRule b p).expr v := by
  have step := rewrites_powConstRule b p
  generalize powConstRule b p = w at step ⊢
  cases step <;> exact value

theorem hasValue_powExprRule (value : HasValue point (powExpr b e) v) :
    HasValue point (powExprRule b e).expr v := by
  have step := rewrites_powExprRule b e
  generalize powExprRule b e = w at step ⊢
  cases step <;> exact value

theorem hasValue_callRule {f : Elementary} (value : HasValue point (call f e) v) :
    HasValue point (callRule f e).expr v := by
  have step := rewrites_callRule f e
  generalize callRule f e = w at step ⊢
  cases step with
  | callFold | callUndefined | callKeep => exact value
  | expLn =>
    obtain ⟨a, logarithm, exponential⟩ := hasValue_call.1 value
    obtain ⟨c, inner, logarithm⟩ := hasValue_call.1 logarithm
    rwa [← Option.some.inj ((F.exp_ln logarithm).symm.trans exponential)]

theorem hasValue_negRule (value : HasValue point (neg e) v) :
    HasValue point (negRule e).expr v := by
  obtain ⟨a, inner, rfl⟩ := hasValue_neg.1 value
  have step := rewrites_negRule e
  generalize negRule e = w at step ⊢
  cases step with
  | negFold | negKeep => exact value
  | negNeg =>
    obtain ⟨c, inside, rfl⟩ := hasValue_neg.1 inner
    rwa [neg_neg]
  | negMul =>
    obtain ⟨c, x, constant, rest, rfl⟩ := hasValue_mul.1 inner
    have negated := Exact.neg_eq_of.2 ⟨c, constant, rfl⟩
    exact hasValue_mul.2 ⟨-c, x, negated, rest, neg_mul c x⟩

theorem hasValue_pow_mono {c : Expr (Exact F.arithmetic)} {n : Int64}
    (base : ∀ a, HasValue point b a → HasValue point c a) (value : HasValue point (pow b n) v) :
    HasValue point (pow c n) v := by
  rw [hasValue_pow] at value ⊢
  exact value.imp_right fun ⟨a, h, power⟩ => ⟨a, base a h, power⟩

variable [IsStrictOrderedRing K] in
theorem nonneg_of_pow {n : Int64} (even : n % 2 = 0) (value : HasValue point (pow b n) v) :
    0 ≤ v := by
  obtain ⟨-, rfl⟩ | ⟨c, -, power⟩ := hasValue_pow.1 value
  · exact zero_le_one
  · rw [F.intPower?_eq, integerPower?_eq_some] at power
    have halves : Even n.toInt := by
      have remainder : n.toInt.tmod 2 = 0 := by
        have := congrArg Int64.toInt even
        rwa [Int64.toInt_mod, Int64.toInt_zero] at this
      exact even_iff_two_dvd.2 (Int.dvd_of_tmod_eq_zero remainder)
    rw [← power.2]
    exact halves.zpow_nonneg c

variable [IsStrictOrderedRing K] in
theorem hasValue_absRule (value : HasValue point (abs e) v) :
    HasValue point (absRule e).expr v := by
  obtain ⟨a, inner, magnitude⟩ := hasValue_abs.1 value
  obtain rfl : |a| = v := Option.some.inj magnitude
  have step := rewrites_absRule e
  generalize absRule e = w at step ⊢
  cases step with
  | absFold | absKeep => exact value
  | absAbs =>
    obtain ⟨c, inside, magnitude⟩ := hasValue_abs.1 inner
    obtain rfl : |c| = a := Option.some.inj magnitude
    rwa [abs_abs]
  | absNeg =>
    obtain ⟨c, inside, rfl⟩ := hasValue_neg.1 inner
    rw [abs_neg]
    exact hasValue_abs.2 ⟨c, inside, rfl⟩
  | absEven even => rwa [abs_of_nonneg (nonneg_of_pow even inner)]

/-! ### A run -/

/-- What a rule leads to has the value, if what it leaves to be simplified keeps values. -/
theorem hasValue_result {w : Reduct (Exact F.arithmetic)} (value : HasValue point w.expr v)
    (next : ∀ e, w = .again e → ∀ v, HasValue point e v → HasValue point e.simplify v) :
    HasValue point (Reduct.result w) v := by
  cases w with
  | done e => exact value
  | again e => exact next e rfl v value

theorem eq_of_shortInteger? {p : Exact F.arithmetic} {n : Int64}
    (short : shortInteger? p = some n) : p = .of (n.toInt : K) := by
  obtain ⟨m, integral, bound⟩ := Option.bind_eq_some_iff.1 short
  obtain ⟨c, rfl, integral⟩ := Exact.integral?_eq_some.1 integral
  obtain rfl := F.integral?_eq_some.1 integral
  split at bound
  next small =>
    obtain rfl := Option.some.inj bound
    have size : Nat.pow 2 31 = 2147483648 := rfl
    rw [Int64.toInt_ofInt_of_le (by omega) (by omega)]
  next => cases bound

theorem hasValue_pow_of_powConst {p : Exact F.arithmetic} {n : Int64}
    (short : shortInteger? p = some n) (value : HasValue point (powConst b p) v) :
    HasValue point (pow b n) v := by
  obtain ⟨a, c, base, constant, power⟩ := hasValue_powConst.1 value
  obtain rfl := Exact.of_inj.1 (constant.symm.trans (eq_of_shortInteger? short))
  refine hasValue_pow.2 (.inr ⟨a, base, ?_⟩)
  rw [F.intPower?_eq, ← F.power_intCast]
  exact power

variable [IsStrictOrderedRing K] in
/-- Simplifying keeps the value of an expression. -/
theorem hasValue_simplify (fits : ExponentsFit e) :
    ∀ v, HasValue point e v → HasValue point e.simplify v := by
  induction fits with
  | const c =>
    intro v value
    rwa [simplify_const]
  | var name i =>
    intro v value
    rwa [simplify_var]
  | add _ _ _ left right next =>
    intro v value
    obtain ⟨a, c, hl, hr, sum⟩ := hasValue_add.1 value
    rw [simplify_add]
    exact hasValue_result
      (hasValue_addRule (hasValue_add.2 ⟨a, c, left a hl, right c hr, sum⟩)) next
  | sub _ _ _ left right next =>
    intro v value
    obtain ⟨a, c, hl, hr, difference⟩ := hasValue_sub.1 value
    rw [simplify_sub]
    exact hasValue_result
      (hasValue_subRule (hasValue_sub.2 ⟨a, c, left a hl, right c hr, difference⟩)) next
  | mul _ _ fit _ left right next =>
    intro v value
    obtain ⟨a, c, hl, hr, product⟩ := hasValue_mul.1 value
    rw [simplify_mul]
    exact hasValue_result
      (hasValue_mulRule fit (hasValue_mul.2 ⟨a, c, left a hl, right c hr, product⟩)) next
  | div _ _ _ left right next =>
    intro v value
    obtain ⟨a, c, hl, hr, quotient⟩ := hasValue_div.1 value
    rw [simplify_div]
    exact hasValue_result
      (hasValue_divRule (hasValue_div.2 ⟨a, c, left a hl, right c hr, quotient⟩)) next
  | abs _ _ inner next =>
    intro v value
    obtain ⟨a, h, magnitude⟩ := hasValue_abs.1 value
    rw [simplify_abs]
    exact hasValue_result (hasValue_absRule (hasValue_abs.2 ⟨a, inner a h, magnitude⟩)) next
  | pow _ fit _ base next =>
    intro v value
    rw [simplify_pow]
    exact hasValue_result (hasValue_powRule fit (hasValue_pow_mono base value)) next
  | powInteger short _ _ fit _ base again next =>
    intro v value
    rw [simplify_powConst, short]
    have power := hasValue_pow_of_powConst short value
    have simpler := hasValue_pow_mono again (hasValue_pow_mono base power)
    exact hasValue_result (hasValue_powRule fit simpler) next
  | powConst long _ _ base next =>
    intro v value
    obtain ⟨a, c, h, constant, power⟩ := hasValue_powConst.1 value
    rw [simplify_powConst, long]
    exact hasValue_result
      (hasValue_powConstRule (hasValue_powConst.2 ⟨a, c, base a h, constant, power⟩)) next
  | powExpr _ _ _ base exponent next =>
    intro v value
    obtain ⟨a, c, hb, he, power⟩ := hasValue_powExpr.1 value
    rw [simplify_powExpr]
    exact hasValue_result
      (hasValue_powExprRule (hasValue_powExpr.2 ⟨a, c, base a hb, exponent c he, power⟩)) next
  | call _ _ argument next =>
    intro v value
    obtain ⟨a, h, result⟩ := hasValue_call.1 value
    rw [simplify_call]
    exact hasValue_result
      (hasValue_callRule (hasValue_call.2 ⟨a, argument a h, result⟩)) next
  | neg _ _ inner next =>
    intro v value
    obtain ⟨a, h, negated⟩ := hasValue_neg.1 value
    rw [simplify_neg]
    exact hasValue_result (hasValue_negRule (hasValue_neg.2 ⟨a, inner a h, negated⟩)) next

end Rules

/-- At every point where an expression has a value in exact arithmetic, the simplified expression has
that value. -/
theorem simplify_preserves_value {K : Type} [Field K] [LinearOrder K] [IsStrictOrderedRing K]
    (F : Interpretation K) (point : Nat → Exact F.arithmetic) {e : Expr (Exact F.arithmetic)}
    (fits : ExponentsFit e) {v : K} (value : e.evaluate point = .of v) :
    e.simplify.evaluate point = .of v :=
  hasValue_simplify fits v value

section Powers

variable {α : Type} [Scalar α] {name : String} {i : Nat} {n : Int64}

theorem simplify_power_var (zero : n ≠ 0) (one : n ≠ 1) :
    (pow (var name i) n : Expr α).simplify = pow (var name i) n := by
  rw [simplify_pow, simplify_var]
  simp only [powRule, zero, one, if_false, Reduct.result]

theorem exponentsFit_power_var (zero : n ≠ 0) (one : n ≠ 1) :
    ExponentsFit (pow (var name i) n : Expr α) := by
  refine .pow (.var _ _) ?_ ?_
  · rw [simplify_var]
    trivial
  · intro e rule
    simp [simplify_var, powRule, zero, one] at rule

theorem exponentsFit_power_const (c : α) (n : Int64) : ExponentsFit (pow (const c) n) := by
  refine .pow (.const c) ?_ fun e rule => ?_
  · rw [simplify_const]
    trivial
  · rw [simplify_const, powRule] at rule
    split at rule <;> cases rule

end Powers

theorem exponentsFit_mul_const {α : Type} [Scalar α] (a c : α) :
    ExponentsFit (mul (const a) (const c)) := by
  refine .mul (.const a) (.const c) ?_ fun e rule => ?_
  · rw [simplify_const]
    trivial
  · rw [simplify_const, simplify_const, mulRule] at rule
    cases rule

/-! `exp (ln x) - x ^ 2 * x ^ (-3)`, of which only `x - x ^ (-1)` is left. -/

section Cancelling

noncomputable def cancelling : Expr (Exact Interpretation.real.arithmetic) :=
  add (call .exp (call .ln (var "x" 0))) (neg (mul (pow (var "x" 0) 2) (pow (var "x" 0) (-3))))

theorem exponentsFit_cancelling : ExponentsFit cancelling := by
  have square : (2 : Int64) ≠ 0 ∧ (2 : Int64) ≠ 1 := by decide
  have cube : (-3 : Int64) ≠ 0 ∧ (-3 : Int64) ≠ 1 := by decide
  have inverse : (-1 : Int64) ≠ 0 ∧ (-1 : Int64) ≠ 1 := by decide
  have sum : (2 : Int64) + -3 = -1 := by decide
  have logarithm : (call .ln (var "x" 0) : Expr (Exact Interpretation.real.arithmetic)).simplify =
      call .ln (var "x" 0) := by
    rw [simplify_call, simplify_var]
    rfl
  have product : (mul (pow (var "x" 0) 2) (pow (var "x" 0) (-3)) :
      Expr (Exact Interpretation.real.arithmetic)).simplify = pow (var "x" 0) (-1) := by
    rw [simplify_mul, simplify_power_var square.1 square.2, simplify_power_var cube.1 cube.2]
    simp only [mulRule, isConst, Bool.or_self, Bool.false_eq_true, if_false, productRule, same,
      BEq.rfl, Bool.and_self, if_true, Reduct.result, sum]
    exact simplify_power_var inverse.1 inverse.2
  unfold cancelling
  refine .add (.call (.call (.var _ _) ?_) ?_) (.neg (.mul ?_ ?_ ?_ ?_) ?_) ?_
  · intro e rule
    simp [simplify_var, callRule] at rule
  · intro e rule
    simp [logarithm, callRule] at rule
  · exact exponentsFit_power_var square.1 square.2
  · exact exponentsFit_power_var cube.1 cube.2
  · rw [simplify_power_var square.1 square.2, simplify_power_var cube.1 cube.2]
    exact fun _ => ⟨by decide, by decide⟩
  · intro e rule
    rw [simplify_power_var square.1 square.2, simplify_power_var cube.1 cube.2] at rule
    simp only [mulRule, isConst, Bool.or_self, Bool.false_eq_true, if_false, productRule, same,
      BEq.rfl, Bool.and_self, if_true, Reduct.again.injEq, sum] at rule
    rw [← rule]
    exact exponentsFit_power_var inverse.1 inverse.2
  · intro e rule
    simp [product, negRule] at rule
  · intro e rule
    rw [simplify_call, logarithm, simplify_neg, product] at rule
    obtain rfl : sub (var "x" 0) (pow (var "x" 0) (-1)) = e := Reduct.again.inj rule
    refine .sub (.var _ _) (exponentsFit_power_var inverse.1 inverse.2) ?_
    intro e rule
    rw [simplify_var, simplify_power_var inverse.1 inverse.2] at rule
    cases rule

theorem hasValue_cancelling : cancelling.evaluate (fun _ => .of 2) = .of (3 / 2) := by
  have argument : HasValue (fun _ => .of 2) (var "x" 0 : Expr (Exact Interpretation.real.arithmetic))
      (2 : ℝ) := rfl
  have power (n : Int64) : HasValue (fun _ => .of 2)
      (pow (var "x" 0) n : Expr (Exact Interpretation.real.arithmetic)) ((2 : ℝ) ^ n.toInt) := by
    refine hasValue_pow.2 (.inr ⟨2, argument, ?_⟩)
    rw [Interpretation.intPower?_eq, integerPower?_eq_some]
    exact ⟨fun zero => absurd zero two_ne_zero, rfl⟩
  have logarithm : Interpretation.real.arithmetic.apply .ln 2 = some (Real.log 2) :=
    Interpretation.real_apply_eq_some.2 ⟨two_pos, rfl⟩
  refine hasValue_add.2 ⟨2, -((2 : ℝ) ^ (2 : Int64).toInt * 2 ^ (-3 : Int64).toInt), ?_, ?_, ?_⟩
  · exact hasValue_call.2 ⟨Real.log 2, hasValue_call.2 ⟨2, argument, logarithm⟩,
      Interpretation.real.exp_ln logarithm⟩
  · exact hasValue_neg.2 ⟨_, hasValue_mul.2 ⟨_, _, power 2, power (-3), rfl⟩, rfl⟩
  · have square : (2 : Int64).toInt = 2 := by decide
    have cube : (-3 : Int64).toInt = -3 := by decide
    rw [square, cube]
    norm_num

end Cancelling

theorem simplify_cancelling : ExponentsFit cancelling ∧
    cancelling.evaluate (fun _ => .of 2) = .of (3 / 2) ∧
    cancelling.simplify.evaluate (fun _ => .of 2) = .of (3 / 2) :=
  ⟨exponentsFit_cancelling, hasValue_cancelling,
    simplify_preserves_value _ _ exponentsFit_cancelling hasValue_cancelling⟩

end Expr

end Simultaneous
