import Simultaneous.Proofs.Expr.Quotient
import Simultaneous.Proofs.Expr.Reading

/-!
Linear expressions in one unknown: sums, differences and multiples of the unknown and of constants.
Simplification folds their constants and keeps them linear, with the same slope; the derivative of
what is left simplifies to the slope, a constant.
-/

namespace Simultaneous

open Scalar

variable {K : Type} [Field K] [LinearOrder K] {F : Interpretation K}

namespace Expr

/-! ### Constants -/

def AmountsTo (k : Expr (Exact F.arithmetic)) (c : K) : Prop :=
  k.IsRational ∧ k.constant? = some (.of c)

def IsLiteral (k : Expr (Exact F.arithmetic)) (c : K) : Prop := k = const (.of c)

variable {name : String} {e k l r : Expr (Exact F.arithmetic)} {a b c v : K}
variable {point : Nat → Exact F.arithmetic}

theorem AmountsTo.takes (amounts : k.AmountsTo c) (point : Nat → Exact F.arithmetic) :
    k.isConstant ∧ HasValue point k c := by
  obtain ⟨-, constant⟩ := amounts
  unfold constant? at constant
  split at constant
  next no_unknowns =>
    refine ⟨no_unknowns, ?_⟩
    rw [HasValue, evaluate_of_isConstant no_unknowns point fun _ => undefined]
    exact Option.some.inj constant
  next => cases constant

theorem powRule_const (point : Nat → Exact F.arithmetic) {x : Exact F.arithmetic} {n : Int64}
    (value : HasValue point (pow (const x) n) v) :
    Reduct.result (powRule (const x) n) = const (.of v) := by
  have kept := hasValue_powRule (b := const x) trivial value
  unfold powRule at kept ⊢
  by_cases zero : n = 0
  · rw [if_pos zero] at kept ⊢
    exact congrArg const kept
  · rw [if_neg zero] at kept ⊢
    exact congrArg const kept

theorem simplify_literal (c : K) :
    (const (.of c) : Expr (Exact F.arithmetic)).simplify = const (.of c) := simplify_const _

theorem simplify_add_const (left : l.simplify = const (.of a)) (right : r.simplify = const (.of b)) :
    (add l r).simplify = const (.of (a + b)) := by
  rw [simplify_add, left, right]
  rfl

theorem simplify_sub_const (left : l.simplify = const (.of a)) (right : r.simplify = const (.of b)) :
    (sub l r).simplify = const (.of (a - b)) := by
  rw [simplify_sub, left, right]
  rfl

theorem simplify_mul_const (left : l.simplify = const (.of a)) (right : r.simplify = const (.of b)) :
    (mul l r).simplify = const (.of (a * b)) := by
  rw [simplify_mul, left, right]
  rfl

theorem simplify_neg_const (inner : e.simplify = const (.of a)) :
    (neg e).simplify = const (.of (-a)) := by
  rw [simplify_neg, inner]
  rfl

theorem simplify_div_const (left : l.simplify = const (.of a)) (right : r.simplify = const (.of b))
    (nonzero : b ≠ 0) : (div l r).simplify = const (.of (a / b)) := by
  have other : (Exact.of b == (zero : Exact F.arithmetic)) = false := by
    rw [Exact.zero_eq]
    exact decide_eq_false nonzero
  rw [simplify_div, left, right]
  simp only [divRule, other]
  exact congrArg const (Exact.div_eq_of.2 ⟨a, b, rfl, rfl, F.div_eq_some.2 ⟨nonzero, rfl⟩⟩)

theorem simplify_pow_const {b : Expr (Exact F.arithmetic)} {n : Int64}
    (base : b.simplify = const (.of a)) (power : integerPower? a n.toInt = some v) :
    (pow b n).simplify = const (.of v) := by
  rw [simplify_pow, base]
  refine powRule_const (fun _ => undefined) (hasValue_pow.2 (.inr ⟨a, rfl, ?_⟩))
  rwa [F.intPower?_eq]

theorem simplify_of_isConstant (rational : k.IsRational) (constant : k.isConstant)
    (value : HasValue point k c) : k.simplify = const (.of c) := by
  induction k generalizing c with
  | const x =>
    rw [simplify_const]
    exact congrArg const value
  | var s i => cases constant
  | add l r left right =>
    obtain ⟨of_l, of_r⟩ := Bool.and_eq_true_iff.1 constant
    obtain ⟨a, b, hl, hr, rfl⟩ := hasValue_add.1 value
    exact simplify_add_const (left rational.1 of_l hl) (right rational.2 of_r hr)
  | sub l r left right =>
    obtain ⟨of_l, of_r⟩ := Bool.and_eq_true_iff.1 constant
    obtain ⟨a, b, hl, hr, rfl⟩ := hasValue_sub.1 value
    exact simplify_sub_const (left rational.1 of_l hl) (right rational.2 of_r hr)
  | mul l r left right =>
    obtain ⟨of_l, of_r⟩ := Bool.and_eq_true_iff.1 constant
    obtain ⟨a, b, hl, hr, rfl⟩ := hasValue_mul.1 value
    exact simplify_mul_const (left rational.1 of_l hl) (right rational.2 of_r hr)
  | div l r left right =>
    obtain ⟨of_l, of_r⟩ := Bool.and_eq_true_iff.1 constant
    obtain ⟨a, b, hl, hr, quotient⟩ := hasValue_div.1 value
    obtain ⟨nonzero, rfl⟩ := F.div_eq_some.1 quotient
    exact simplify_div_const (left rational.1 of_l hl) (right rational.2 of_r hr) nonzero
  | neg e inner =>
    obtain ⟨a, h, rfl⟩ := hasValue_neg.1 value
    exact simplify_neg_const (inner rational constant h)
  | pow b n base =>
    obtain ⟨rfl, rfl⟩ | ⟨a, h, power⟩ := hasValue_pow.1 value
    · rw [simplify_pow]
      unfold powRule
      rw [if_pos rfl]
      exact congrArg const Exact.one_eq
    · rw [F.intPower?_eq] at power
      exact simplify_pow_const (base rational.1 constant h) power
  | powConst b p base =>
    obtain ⟨a, q, h, rfl, power⟩ := hasValue_powConst.1 value
    rw [simplify_powConst, base rational.1 constant h]
    split
    next n short =>
      rw [simplify_const]
      exact powRule_const point
        (hasValue_pow_of_powConst short (hasValue_powConst.2 ⟨a, q, rfl, rfl, power⟩))
    next => exact congrArg const (Exact.power_eq_of.2 ⟨a, q, rfl, rfl, power⟩)
  | abs e | powExpr b e | call f e => exact rational.elim

theorem AmountsTo.simplify_eq (amounts : k.AmountsTo c) : k.simplify = const (.of c) :=
  have ⟨constant, value⟩ := amounts.takes fun _ => undefined
  simplify_of_isConstant amounts.1 constant value

theorem amountsTo_const (c : K) : (const (.of c) : Expr (Exact F.arithmetic)).AmountsTo c :=
  ⟨trivial, rfl⟩

/-! ### Linear expressions -/

/-- Sums, differences and multiples of the unknown and of constants, with the slope. -/
inductive IsLinear (amounts : Expr (Exact F.arithmetic) → K → Prop) (name : String) :
    Expr (Exact F.arithmetic) → K → Prop
  | constant {k : Expr (Exact F.arithmetic)} {c : K} : amounts k c → IsLinear amounts name k 0
  | unknown : IsLinear amounts name (var name 0) 1
  | add {l r : Expr (Exact F.arithmetic)} {a b : K} : IsLinear amounts name l a →
      IsLinear amounts name r b → IsLinear amounts name (add l r) (a + b)
  | sub {l r : Expr (Exact F.arithmetic)} {a b : K} : IsLinear amounts name l a →
      IsLinear amounts name r b → IsLinear amounts name (sub l r) (a - b)
  | neg {e : Expr (Exact F.arithmetic)} {a : K} : IsLinear amounts name e a →
      IsLinear amounts name (neg e) (-a)
  | multiple {k e : Expr (Exact F.arithmetic)} {c a : K} : amounts k c → IsLinear amounts name e a →
      IsLinear amounts name (mul k e) (c * a)
  | multiplied {e k : Expr (Exact F.arithmetic)} {a c : K} : IsLinear amounts name e a →
      amounts k c → IsLinear amounts name (mul e k) (a * c)
  | divided {e k : Expr (Exact F.arithmetic)} {a c : K} : IsLinear amounts name e a →
      amounts k c → c ≠ 0 → IsLinear amounts name (div e k) (a / c)

/-- A linear expression has a value everywhere, on a straight line of its slope. -/
theorem IsLinear.exists_takes {amounts : Expr (Exact F.arithmetic) → K → Prop}
    (values : ∀ k c, amounts k c → ∀ u, k.Takes u c) (linear : IsLinear amounts name e a) :
    ∃ b, ∀ u, e.Takes u (a * u + b) := by
  induction linear with
  | @constant k c amounts =>
    refine ⟨c, fun u => ?_⟩
    rw [zero_mul, zero_add]
    exact values k c amounts u
  | unknown =>
    refine ⟨0, fun u => ?_⟩
    rw [one_mul, add_zero]
    rfl
  | add _ _ left right =>
    obtain ⟨b, hl⟩ := left
    obtain ⟨d, hr⟩ := right
    exact ⟨b + d, fun u => hasValue_add.2 ⟨_, _, hl u, hr u, by ring⟩⟩
  | sub _ _ left right =>
    obtain ⟨b, hl⟩ := left
    obtain ⟨d, hr⟩ := right
    exact ⟨b - d, fun u => hasValue_sub.2 ⟨_, _, hl u, hr u, by ring⟩⟩
  | neg _ inner =>
    obtain ⟨b, h⟩ := inner
    exact ⟨-b, fun u => hasValue_neg.2 ⟨_, h u, by ring⟩⟩
  | @multiple k e c a amounts _ inner =>
    obtain ⟨b, h⟩ := inner
    exact ⟨c * b, fun u => hasValue_mul.2 ⟨_, _, values k c amounts u, h u, by ring⟩⟩
  | @multiplied e k a c _ amounts inner =>
    obtain ⟨b, h⟩ := inner
    exact ⟨b * c, fun u => hasValue_mul.2 ⟨_, _, h u, values k c amounts u, by ring⟩⟩
  | @divided e k a c _ amounts nonzero inner =>
    obtain ⟨b, h⟩ := inner
    refine ⟨b / c, fun u => hasValue_div.2 ⟨_, _, h u, values k c amounts u, ?_⟩⟩
    exact F.div_eq_some.2 ⟨nonzero, by field_simp⟩

theorem IsLinear.mono {amounts others : Expr (Exact F.arithmetic) → K → Prop}
    (linear : IsLinear amounts name e a) (weaker : ∀ k c, amounts k c → others k c) :
    IsLinear others name e a := by
  induction linear with
  | constant amounts => exact .constant (weaker _ _ amounts)
  | unknown => exact .unknown
  | add _ _ left right => exact .add left right
  | sub _ _ left right => exact .sub left right
  | neg _ inner => exact .neg inner
  | multiple amounts _ inner => exact .multiple (weaker _ _ amounts) inner
  | multiplied _ amounts inner => exact .multiplied inner (weaker _ _ amounts)
  | divided _ amounts nonzero inner => exact .divided inner (weaker _ _ amounts) nonzero

abbrev IsFolded (name : String) (e : Expr (Exact F.arithmetic)) (a : K) : Prop :=
  IsLinear IsLiteral name e a

theorem isFolded_const (c : K) : IsFolded name (const (.of c) : Expr (Exact F.arithmetic)) 0 :=
  .constant rfl

theorem IsFolded.linear (folded : IsFolded name e a) : IsLinear AmountsTo name e a :=
  folded.mono fun _ c literal => literal ▸ amountsTo_const c

theorem isFolded_zero : IsFolded name (const zero : Expr (Exact F.arithmetic)) 0 := by
  rw [Exact.zero_eq]
  exact isFolded_const 0

theorem IsFolded.exists_takes (folded : IsFolded name e a) : ∃ b, ∀ u, e.Takes u (a * u + b) := by
  refine IsLinear.exists_takes (fun k c literal u => ?_) folded
  rw [literal]
  rfl

theorem IsFolded.slope_eq (folded : IsFolded name e c) (values : ∀ u, e.Takes u (a * u + b)) :
    c = a := by
  obtain ⟨d, own⟩ := folded.exists_takes
  have origin := (own 0).unique (values 0)
  have unit := (own 1).unique (values 1)
  linear_combination unit - origin

theorem IsFolded.of_const {x : Exact F.arithmetic} (folded : IsFolded name (const x) a) :
    ∃ c, x = .of c := by
  cases folded with
  | @constant _ c literal =>
    cases literal
    exact ⟨c, rfl⟩

theorem IsFolded.of_neg (folded : IsFolded name (neg e) a) : IsFolded name e (-a) := by
  cases folded with
  | constant literal => cases literal
  | neg inner => rwa [neg_neg]

theorem IsFolded.of_multiple {x : Exact F.arithmetic} (folded : IsFolded name (mul (const x) e) a) :
    (∃ c, x = .of c) ∧ ∃ b, IsFolded name e b := by
  cases folded with
  | constant literal => cases literal
  | @multiple _ _ c b literal inner =>
    cases literal
    exact ⟨⟨c, rfl⟩, b, inner⟩
  | multiplied inner literal =>
    cases literal
    exact ⟨IsFolded.of_const inner, 0, isFolded_const _⟩

/-! ### Rules -/

variable {w : Reduct (Exact F.arithmetic)}

theorem Rewrites.exists_folded_add (step : Rewrites (add l r) w) (left : IsFolded name l a)
    (right : IsFolded name r b) : ∃ c, IsFolded name w.expr c := by
  cases step with
  | addFold =>
    obtain ⟨c, rfl⟩ := left.of_const
    obtain ⟨d, rfl⟩ := right.of_const
    exact ⟨0, isFolded_const (c + d)⟩
  | addZero => exact ⟨a, left⟩
  | zeroAdd => exact ⟨b, right⟩
  | addNeg => exact ⟨_, .sub left right.of_neg⟩
  | addKeep => exact ⟨_, .add left right⟩

theorem Rewrites.exists_folded_sub (step : Rewrites (sub l r) w) (left : IsFolded name l a)
    (right : IsFolded name r b) : ∃ c, IsFolded name w.expr c := by
  cases step with
  | subFold =>
    obtain ⟨c, rfl⟩ := left.of_const
    obtain ⟨d, rfl⟩ := right.of_const
    exact ⟨0, isFolded_const (c - d)⟩
  | subZero => exact ⟨a, left⟩
  | zeroSub => exact ⟨_, .neg right⟩
  | subSame => exact ⟨0, isFolded_zero⟩
  | subKeep => exact ⟨_, .sub left right⟩

theorem Rewrites.exists_folded_neg (step : Rewrites (neg e) w) (inner : IsFolded name e a) :
    ∃ c, IsFolded name w.expr c := by
  cases step with
  | negFold =>
    obtain ⟨c, rfl⟩ := inner.of_const
    exact ⟨0, isFolded_const (-c)⟩
  | negNeg => exact ⟨_, inner.of_neg⟩
  | negMul =>
    obtain ⟨⟨c, rfl⟩, d, rest⟩ := inner.of_multiple
    exact ⟨_, .multiple (c := -c) rfl rest⟩
  | negKeep => exact ⟨_, .neg inner⟩

theorem Rewrites.exists_folded_mul (step : Rewrites (mul l r) w)
    (left : IsFolded name l a) (right : IsFolded name r b)
    (constant : (∃ c : K, l = const (.of c)) ∨ ∃ c : K, r = const (.of c)) :
    ∃ c, IsFolded name w.expr c := by
  cases step with
  | mulFold =>
    obtain ⟨c, rfl⟩ := left.of_const
    obtain ⟨d, rfl⟩ := right.of_const
    exact ⟨0, isFolded_const (c * d)⟩
  | mulZero | zeroMul => exact ⟨0, isFolded_zero⟩
  | mulOne => exact ⟨a, left⟩
  | oneMul => exact ⟨b, right⟩
  | mulMinusOne => exact ⟨_, .neg left⟩
  | minusOneMul => exact ⟨_, .neg right⟩
  | mulConstants =>
    obtain ⟨c, rfl⟩ := left.of_const
    obtain ⟨⟨d, rfl⟩, s, rest⟩ := right.of_multiple
    exact ⟨_, .multiple (c := c * d) rfl rest⟩
  | mulPowers => rcases constant with ⟨c, same⟩ | ⟨c, same⟩ <;> cases same
  | mulConst =>
    obtain ⟨c, rfl⟩ := right.of_const
    exact ⟨_, .multiple (c := c) rfl left⟩
  | mulSame not_both equal =>
    obtain rfl := eq_of_same equal
    obtain ⟨c, rfl⟩ : ∃ c : K, l = const (.of c) := constant.elim id id
    exact absurd rfl (not_both _ _ rfl)
  | mulKeep =>
    rcases constant with ⟨c, rfl⟩ | ⟨c, rfl⟩
    · exact ⟨_, .multiple (c := c) rfl right⟩
    · exact ⟨_, .multiplied left (c := c) rfl⟩

theorem Rewrites.exists_folded_div (step : Rewrites (div l r) w)
    (left : IsFolded name l a) (right : r.IsLiteral c) (nonzero : c ≠ 0) :
    ∃ d, IsFolded name w.expr d := by
  cases step with
  | divFold =>
    cases right
    obtain ⟨d, rfl⟩ := left.of_const
    have quotient : (Exact.of d / Exact.of c : Exact F.arithmetic) = .of (d / c) :=
      Exact.div_eq_of.2 ⟨d, c, rfl, rfl, F.div_eq_some.2 ⟨nonzero, rfl⟩⟩
    rw [quotient]
    exact ⟨0, isFolded_const (d / c)⟩
  | zeroDiv => exact ⟨0, isFolded_zero⟩
  | divOne => exact ⟨a, left⟩
  | divMinusOne => exact ⟨_, .neg left⟩
  | divSame =>
    rw [Exact.one_eq]
    exact ⟨0, isFolded_const 1⟩
  | divKeep => exact ⟨_, .divided left right nonzero⟩

theorem Rewrites.exists_folded (step : Rewrites e w) (folded : IsFolded name e a) :
    ∃ c, IsFolded name w.expr c := by
  cases folded with
  | constant literal =>
    cases literal
    cases step
  | unknown => cases step
  | add left right => exact step.exists_folded_add left right
  | sub left right => exact step.exists_folded_sub left right
  | neg inner => exact step.exists_folded_neg inner
  | @multiple k e c a literal inner =>
    cases literal
    exact step.exists_folded_mul (isFolded_const c) inner (.inl ⟨c, rfl⟩)
  | @multiplied e k a c inner literal =>
    cases literal
    exact step.exists_folded_mul inner (isFolded_const c) (.inr ⟨c, rfl⟩)
  | divided inner literal nonzero => exact step.exists_folded_div inner literal nonzero

/-! ### Simplification -/

theorem sumFits_of_const (constant : (∃ c : K, l = const (.of c)) ∨ ∃ c : K, r = const (.of c)) :
    SumFits l r := by
  rcases constant with ⟨c, rfl⟩ | ⟨c, rfl⟩
  · trivial
  · cases l <;> trivial

theorem isFolded_result (step : Rewrites e w)
    (keeps : ∀ point v, HasValue point e v → HasValue point w.expr v) (folded : IsFolded name e a)
    (rest : ∀ f, w = .again f → ∀ {d}, IsLinear AmountsTo name f d → IsFolded name f.simplify d) :
    IsFolded name (Reduct.result w) a := by
  obtain ⟨b, values⟩ := folded.exists_takes
  obtain ⟨c, after⟩ := step.exists_folded folded
  obtain rfl := after.slope_eq fun u => keeps _ _ (values u)
  cases w with
  | done f => exact after
  | again f => exact rest f rfl after.linear

theorem AmountsTo.isFolded_simplify (amounts : k.AmountsTo c) : IsFolded name k.simplify 0 := by
  rw [amounts.simplify_eq]
  exact isFolded_const c

/-- Simplifying keeps an expression linear and its slope, and folds the constants. -/
theorem isFolded_simplify (linear : IsLinear AmountsTo name e a) : IsFolded name e.simplify a := by
  induction e using simplify_induction generalizing a with
  | const x =>
    cases linear with
    | constant amounts => exact amounts.isFolded_simplify
  | var name i =>
    cases linear with
    | constant amounts => exact amounts.isFolded_simplify
    | unknown =>
      rw [simplify_var]
      exact .unknown
  | add l r left right rest =>
    cases linear with
    | constant amounts => exact amounts.isFolded_simplify
    | add of_l of_r =>
      rw [simplify_add]
      exact isFolded_result (rewrites_addRule _ _) (fun _ _ => hasValue_addRule)
        (.add (left of_l) (right of_r)) rest
  | sub l r left right rest =>
    cases linear with
    | constant amounts => exact amounts.isFolded_simplify
    | sub of_l of_r =>
      rw [simplify_sub]
      exact isFolded_result (rewrites_subRule _ _) (fun _ _ => hasValue_subRule)
        (.sub (left of_l) (right of_r)) rest
  | mul l r left right rest =>
    cases linear with
    | constant amounts => exact amounts.isFolded_simplify
    | @multiple _ _ c _ amounts of_r =>
      rw [amounts.simplify_eq] at rest
      rw [simplify_mul, amounts.simplify_eq]
      have fits : SumFits (const (.of c)) r.simplify := sumFits_of_const (.inl ⟨c, rfl⟩)
      exact isFolded_result (rewrites_mulRule _ _) (fun _ _ => hasValue_mulRule fits)
        (.multiple rfl (right of_r)) rest
    | @multiplied _ _ _ c of_l amounts =>
      rw [amounts.simplify_eq] at rest
      rw [simplify_mul, amounts.simplify_eq]
      have fits : SumFits l.simplify (const (.of c)) := sumFits_of_const (.inr ⟨c, rfl⟩)
      exact isFolded_result (rewrites_mulRule _ _) (fun _ _ => hasValue_mulRule fits)
        (.multiplied (left of_l) rfl) rest
  | div l r left _ rest =>
    cases linear with
    | constant amounts => exact amounts.isFolded_simplify
    | divided of_l amounts nonzero =>
      rw [amounts.simplify_eq] at rest
      rw [simplify_div, amounts.simplify_eq]
      exact isFolded_result (rewrites_divRule _ _) (fun _ _ => hasValue_divRule)
        (.divided (left of_l) rfl nonzero) rest
  | neg e inner rest =>
    cases linear with
    | constant amounts => exact amounts.isFolded_simplify
    | neg of_e =>
      rw [simplify_neg]
      exact isFolded_result (rewrites_negRule _) (fun _ _ => hasValue_negRule)
        (.neg (inner of_e)) rest
  | abs | pow | powInteger | powConst | powExpr | call =>
    cases linear with
    | constant amounts => exact amounts.isFolded_simplify

/-! ### Derivatives -/

theorem simplify_mul_zero (folded : IsFolded name e a) :
    (mul e (const zero)).simplify = const (.of 0) := by
  have simple := isFolded_simplify folded.linear
  rw [simplify_mul, simplify_const, Exact.zero_eq]
  generalize e.simplify = x at simple ⊢
  unfold mulRule
  split
  next same =>
    cases same
    obtain ⟨c, rfl⟩ := simple.of_const
    exact congrArg const (congrArg Exact.of (mul_zero c))
  next =>
    have zero : isConst 0 (const (.of 0) : Expr (Exact F.arithmetic)) = true :=
      Exact.beq_eq_true.2 ⟨0, rfl, by rw [Exact.ofInt_eq, Int.cast_zero]⟩
    rw [if_pos (by rw [zero, Bool.true_or])]
    exact congrArg const Exact.zero_eq

theorem slope_of_isFolded (folded : IsFolded name e a) : e.slope name = const (.of a) := by
  unfold slope
  induction folded with
  | constant literal =>
    cases literal
    exact (simplify_const _).trans (congrArg const Exact.zero_eq)
  | unknown =>
    rw [derivative, if_pos rfl, simplify_const, Exact.one_eq]
  | add _ _ left right => exact simplify_add_const left right
  | sub _ _ left right => exact simplify_sub_const left right
  | neg _ inner => exact simplify_neg_const inner
  | @multiple k e c a literal folded inner =>
    cases literal
    have total := simplify_add_const (simplify_mul_const (simplify_literal c) inner)
      (simplify_mul_zero folded)
    rwa [add_zero] at total
  | @multiplied e k a c folded literal inner =>
    cases literal
    have total := simplify_add_const (simplify_mul_zero folded)
      (simplify_mul_const (simplify_literal c) inner)
    rwa [zero_add, mul_comm] at total
  | @divided e k a c folded literal nonzero inner =>
    cases literal
    have square : integerPower? c (2 : Int64).toInt = some (c ^ 2) :=
      integerPower?_eq_some.2 ⟨fun _ => by decide, zpow_natCast c 2⟩
    have total := simplify_div_const (simplify_sub_const
      (simplify_mul_const (simplify_literal c) inner) (simplify_mul_zero folded))
      (simplify_pow_const (simplify_literal c) square) (pow_ne_zero 2 nonzero)
    have quotient : (c * a - 0) / c ^ 2 = a / c := by field_simp; ring
    rwa [quotient] at total

end Expr

end Simultaneous
