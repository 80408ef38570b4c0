import Simultaneous.Proofs.Expr.Derivative
import Simultaneous.Proofs.Expr.Rational

/-!
Partial derivatives of rational expressions over the real numbers. Where such an expression has a
value it has one nearby, as an analytic function of the coordinates, and the symbolic derivative by
an unknown has the value of the partial derivative.
-/

namespace Simultaneous

open Scalar Filter Topology

variable {F : Interpretation ℝ} {n : Nat}

noncomputable def coordinates (x : Fin n → ℝ) : Array (Exact F.arithmetic) :=
  Array.ofFn fun i => .of (x i)

theorem size_coordinates (x : Fin n → ℝ) :
    (coordinates x : Array (Exact F.arithmetic)).size = n := Array.size_ofFn

theorem pointOf_coordinates (x : Fin n → ℝ) (i : Fin n) :
    pointOf (coordinates x : Array (Exact F.arithmetic)) i = .of (x i) := by
  simp [pointOf, coordinates]

namespace Expr

def ValueAt (e : Expr (Exact F.arithmetic)) (x : Fin n → ℝ) (v : ℝ) : Prop :=
  HasValue (pointOf (coordinates x)) e v

noncomputable def function (e : Expr (Exact F.arithmetic)) (x : Fin n → ℝ) : ℝ :=
  (e.evaluate (pointOf (coordinates x))).value?.getD 0

variable {e l r b : Expr (Exact F.arithmetic)} {x : Fin n → ℝ} {v : ℝ}

theorem ValueAt.function_eq (value : e.ValueAt x v) : e.function x = v := by
  have value : e.evaluate (pointOf (coordinates x)) = .of v := value
  rw [function, value]
  rfl

theorem ValueAt.at_function (value : e.ValueAt x v) : e.ValueAt x (e.function x) := by
  rwa [value.function_eq]

theorem lt_of_valueAt_var {name : String} {i : Nat}
    (value : (var name i : Expr (Exact F.arithmetic)).ValueAt x v) : i < n := by
  have value : pointOf (coordinates x) i = .of v := value
  by_contra outside
  have missing : (coordinates x : Array (Exact F.arithmetic))[i]? = none := by
    apply Array.getElem?_eq_none
    rw [size_coordinates]
    exact Nat.le_of_not_lt outside
  rw [pointOf, missing] at value
  exact Exact.of_ne_undefined v value.symm

theorem valueAt_var {name : String} (i : Fin n) :
    (var name i : Expr (Exact F.arithmetic)).ValueAt x (x i) := pointOf_coordinates x i

/-! ### Values nearby -/

def Analytic (e : Expr (Exact F.arithmetic)) (x : Fin n → ℝ) : Prop :=
  AnalyticAt ℝ e.function x ∧ ∀ᶠ y in 𝓝 x, e.ValueAt y (e.function y)

def Follows (e : Expr (Exact F.arithmetic)) (f : (Fin n → ℝ) → ℝ) (x : Fin n → ℝ) : Prop :=
  AnalyticAt ℝ f x ∧ ∀ᶠ y in 𝓝 x, e.ValueAt y (f y)

theorem Analytic.follows (analytic : e.Analytic x) : e.Follows e.function x := analytic

theorem analyticAt_coordinate (i : Fin n) : AnalyticAt ℝ (fun y : Fin n → ℝ => y i) x :=
  (ContinuousLinearMap.proj (R := ℝ) (φ := fun _ : Fin n => ℝ) i).analyticAt x

theorem analytic_power {f : (Fin n → ℝ) → ℝ} (analytic : AnalyticAt ℝ f x) {m : Int}
    (defined : f x = 0 → 0 ≤ m) :
    AnalyticAt ℝ (fun y => f y ^ m) x ∧ ∀ᶠ y in 𝓝 x, f y = 0 → 0 ≤ m := by
  rcases le_or_gt 0 m with nonneg | negative
  · exact ⟨analytic.fun_zpow_nonneg nonneg, .of_forall fun _ _ => nonneg⟩
  · have nonzero : f x ≠ 0 := fun zero => absurd (defined zero) (Int.not_le.2 negative)
    refine ⟨analytic.fun_zpow nonzero, ?_⟩
    filter_upwards [analytic.continuousAt.eventually_ne nonzero] with y other zero
    exact absurd zero other

theorem valueAt_square {a : ℝ} (base : b.ValueAt x a) : (pow b 2).ValueAt x (a ^ 2) := by
  have two : (2 : Int64).toInt = (2 : Nat) := rfl
  refine (isPower_pow (by decide) _ _).2 ⟨a, base, integerPower?_eq_some.2 ⟨fun _ => by decide, ?_⟩⟩
  rw [two, zpow_natCast]

namespace Follows

variable {f g : (Fin n → ℝ) → ℝ}

theorem function_eventuallyEq (follows : e.Follows f x) : f =ᶠ[𝓝 x] e.function := by
  filter_upwards [follows.2] with y value
  exact value.function_eq.symm

theorem analytic (follows : e.Follows f x) : e.Analytic x := by
  refine ⟨follows.1.congr follows.function_eventuallyEq, ?_⟩
  filter_upwards [follows.2] with y value
  exact value.at_function

theorem const (c : ℝ) : (const (.of c) : Expr (Exact F.arithmetic)).Follows (fun _ => c) x :=
  ⟨analyticAt_const, .of_forall fun _ => hasValue_const.2 rfl⟩

theorem var (name : String) (i : Fin n) :
    (var name i : Expr (Exact F.arithmetic)).Follows (fun y => y i) x :=
  ⟨analyticAt_coordinate i, .of_forall fun _ => valueAt_var i⟩

theorem add (left : l.Follows f x) (right : r.Follows g x) :
    (add l r).Follows (fun y => f y + g y) x := by
  refine ⟨left.1.add right.1, ?_⟩
  filter_upwards [left.2, right.2] with y hl hr
  exact hasValue_add.2 ⟨_, _, hl, hr, rfl⟩

theorem sub (left : l.Follows f x) (right : r.Follows g x) :
    (sub l r).Follows (fun y => f y - g y) x := by
  refine ⟨left.1.sub right.1, ?_⟩
  filter_upwards [left.2, right.2] with y hl hr
  exact hasValue_sub.2 ⟨_, _, hl, hr, rfl⟩

theorem mul (left : l.Follows f x) (right : r.Follows g x) :
    (mul l r).Follows (fun y => f y * g y) x := by
  refine ⟨left.1.mul right.1, ?_⟩
  filter_upwards [left.2, right.2] with y hl hr
  exact hasValue_mul.2 ⟨_, _, hl, hr, rfl⟩

theorem div (left : l.Follows f x) (right : r.Follows g x) (nonzero : g x ≠ 0) :
    (div l r).Follows (fun y => f y / g y) x := by
  refine ⟨left.1.div right.1 nonzero, ?_⟩
  filter_upwards [left.2, right.2, right.1.continuousAt.eventually_ne nonzero] with y hl hr other
  exact hasValue_div.2 ⟨_, _, hl, hr, F.div_eq_some.2 ⟨other, rfl⟩⟩

theorem neg (inner : e.Follows f x) : (neg e).Follows (fun y => -f y) x := by
  refine ⟨inner.1.neg, ?_⟩
  filter_upwards [inner.2] with y h
  exact hasValue_neg.2 ⟨_, h, rfl⟩

theorem power {m : Int} (base : b.Follows f x) (power : e.IsPower b m)
    (defined : f x = 0 → 0 ≤ m) : e.Follows (fun y => f y ^ m) x := by
  obtain ⟨analytic, near⟩ := base
  obtain ⟨analytic_power, defined⟩ := analytic_power analytic defined
  refine ⟨analytic_power, ?_⟩
  filter_upwards [near, defined] with y h defined
  exact (power _ _).2 ⟨_, h, integerPower?_eq_some.2 ⟨defined, rfl⟩⟩

end Follows

theorem IsPower.defined {m : Int} (power : e.IsPower b m) (value : e.ValueAt x v) :
    b.function x = 0 → 0 ≤ m := by
  obtain ⟨a, h, defined⟩ := (power _ v).1 value
  rw [ValueAt.function_eq h]
  exact (integerPower?_eq_some.1 defined).1

theorem Analytic.of_value {named : String → Nat → Prop} (plain : e.Plain named (· ≠ 0))
    (value : e.ValueAt x v) : e.Analytic x := by
  induction e generalizing v with
  | const c =>
    obtain rfl : c = .of v := value
    exact (Follows.const v).analytic
  | var name i =>
    have inside := lt_of_valueAt_var value
    exact (Follows.var name ⟨i, inside⟩).analytic
  | add l r left right =>
    obtain ⟨a, c, hl, hr, -⟩ := hasValue_add.1 value
    exact ((left plain.1 hl).follows.add (right plain.2 hr).follows).analytic
  | sub l r left right =>
    obtain ⟨a, c, hl, hr, -⟩ := hasValue_sub.1 value
    exact ((left plain.1 hl).follows.sub (right plain.2 hr).follows).analytic
  | mul l r left right =>
    obtain ⟨a, c, hl, hr, -⟩ := hasValue_mul.1 value
    exact ((left plain.1 hl).follows.mul (right plain.2 hr).follows).analytic
  | div l r left right =>
    obtain ⟨a, c, hl, hr, quotient⟩ := hasValue_div.1 value
    obtain ⟨nonzero, -⟩ := F.div_eq_some.1 quotient
    rw [← ValueAt.function_eq hr] at nonzero
    exact ((left plain.1 hl).follows.div (right plain.2 hr).follows nonzero).analytic
  | neg e inner =>
    obtain ⟨a, h, -⟩ := hasValue_neg.1 value
    exact (inner plain h).follows.neg.analytic
  | pow b k base =>
    have power : (pow b k).IsPower b k.toInt := isPower_pow plain.2
    obtain ⟨a, h, -⟩ := (power _ v).1 value
    exact ((base plain.1 h).follows.power power (power.defined value)).analytic
  | powConst b p base =>
    obtain ⟨plain_b, m, rfl, -⟩ := plain
    have power : (powConst b (.of (m : ℝ))).IsPower b m := isPower_powConst m
    obtain ⟨a, h, -⟩ := (power _ v).1 value
    exact ((base plain_b h).follows.power power (power.defined value)).analytic
  | abs e | powExpr b e | call f e => exact plain.elim

/-! ### Derivatives along a line -/

section Lines

variable {f g : (Fin n → ℝ) → ℝ} {a c : ℝ} {d : Fin n → ℝ}

theorem hasLineDerivAt_add (left : HasLineDerivAt ℝ f a x d) (right : HasLineDerivAt ℝ g c x d) :
    HasLineDerivAt ℝ (fun y => f y + g y) (a + c) x d :=
  HasDerivAt.add left right

theorem hasLineDerivAt_sub (left : HasLineDerivAt ℝ f a x d) (right : HasLineDerivAt ℝ g c x d) :
    HasLineDerivAt ℝ (fun y => f y - g y) (a - c) x d :=
  HasDerivAt.sub left right

theorem hasLineDerivAt_neg (inner : HasLineDerivAt ℝ f a x d) :
    HasLineDerivAt ℝ (fun y => -f y) (-a) x d :=
  HasDerivAt.neg inner

theorem hasLineDerivAt_mul (left : HasLineDerivAt ℝ f a x d) (right : HasLineDerivAt ℝ g c x d) :
    HasLineDerivAt ℝ (fun y => f y * g y) (f x * c + g x * a) x d := by
  refine (HasDerivAt.mul left right).congr_deriv ?_
  rw [zero_smul, add_zero]
  ring

theorem hasLineDerivAt_div (left : HasLineDerivAt ℝ f a x d) (right : HasLineDerivAt ℝ g c x d)
    (nonzero : g x ≠ 0) :
    HasLineDerivAt ℝ (fun y => f y / g y) ((g x * a - f x * c) / g x ^ 2) x d := by
  have start : g (x + (0 : ℝ) • d) = g x := by rw [zero_smul, add_zero]
  refine (HasDerivAt.div left right (by rwa [start])).congr_deriv ?_
  rw [zero_smul, add_zero]
  ring

theorem hasLineDerivAt_zpow (base : HasLineDerivAt ℝ f a x d) {m : Int}
    (defined : f x ≠ 0 ∨ 0 ≤ m) :
    HasLineDerivAt ℝ (fun y => f y ^ m) (m * f x ^ (m - 1) * a) x d := by
  have start : f (x + (0 : ℝ) • d) = f x := by rw [zero_smul, add_zero]
  have outer := hasDerivAt_zpow m (f (x + (0 : ℝ) • d)) (by rwa [start])
  have whole := outer.comp (0 : ℝ) base
  rwa [start] at whole

theorem hasLineDerivAt_coordinate (i j : Fin n) :
    HasLineDerivAt ℝ (fun y : Fin n → ℝ => y i) (if i = j then 1 else 0) x (Pi.single j 1) := by
  have whole := ((hasDerivAt_id (0 : ℝ)).mul_const ((Pi.single j 1 : Fin n → ℝ) i)).const_add (x i)
  refine HasDerivAt.congr_deriv whole ?_
  rw [one_mul, Pi.single_apply]

end Lines

/-! ### Values of derivatives -/

def HasPartial (e : Expr (Exact F.arithmetic)) (name : String) (j : Fin n) (x : Fin n → ℝ) : Prop :=
  ∃ d, (e.derivative name).ValueAt x d ∧ HasLineDerivAt ℝ e.function d x (Pi.single j 1)

variable {name : String} {j : Fin n}

theorem Follows.hasPartial {f : (Fin n → ℝ) → ℝ} {d : ℝ} (follows : e.Follows f x)
    (slope : (e.derivative name).ValueAt x d) (line : HasLineDerivAt ℝ f d x (Pi.single j 1)) :
    e.HasPartial name j x :=
  ⟨d, slope, line.congr_of_eventuallyEq follows.function_eventuallyEq.symm⟩

theorem HasPartial.power {m : Int} (base : b.HasPartial name j x) (analytic : b.Analytic x)
    (nonzero : m ≠ 0) (power : e.IsPower b m) (value : e.ValueAt x v)
    (slope : ∀ a a', b.ValueAt x a → (b.derivative name).ValueAt x a' →
      integerPower? a (m - 1) = some (a ^ (m - 1)) →
      (e.derivative name).ValueAt x (m * a ^ (m - 1) * a')) : e.HasPartial name j x := by
  have defined := power.defined value
  obtain ⟨a, h, -⟩ := (power _ v).1 value
  obtain ⟨a', h', line⟩ := base
  have at_x : b.function x = a := ValueAt.function_eq h
  have lower : integerPower? a (m - 1) = some (a ^ (m - 1)) := by
    refine integerPower?_eq_some.2 ⟨fun zero => ?_, rfl⟩
    have := defined (at_x.trans zero)
    omega
  have line := hasLineDerivAt_zpow line (m := m) (by
    by_cases zero : b.function x = 0
    · exact .inr (defined zero)
    · exact .inl zero)
  rw [at_x] at line
  exact (analytic.follows.power power defined).hasPartial (slope a a' h h' lower) line

variable {names : Names (Exact F.arithmetic)}

theorem eq_iff_of_at (distinct : names.unknowns.Nodup) {s t : String} {i k : Nat}
    (first : names.At s i) (second : names.At t k) : s = t ↔ i = k := by
  obtain ⟨inside, rfl⟩ := List.getElem?_eq_some_iff.1 first
  obtain ⟨inside', rfl⟩ := List.getElem?_eq_some_iff.1 second
  exact distinct.getElem_inj_iff

theorem hasPartial_of_value (distinct : names.unknowns.Nodup) (at_j : names.At name j)
    (plain : e.Plain names.At (· ≠ 0)) (fits : e.HasPredecessors) (value : e.ValueAt x v) :
    e.HasPartial name j x := by
  induction e generalizing v with
  | const c =>
    obtain rfl : c = .of v := value
    exact (Follows.const v).hasPartial (hasValue_const.2 Exact.zero_eq) (hasDerivAt_const _ _)
  | var s i =>
    have inside := lt_of_valueAt_var value
    refine (Follows.var s ⟨i, inside⟩).hasPartial ?_ (hasLineDerivAt_coordinate ⟨i, inside⟩ j)
    have same : s = name ↔ (⟨i, inside⟩ : Fin n) = j := by
      rw [eq_iff_of_at distinct plain at_j, Fin.ext_iff]
    change HasValue _ (const (if s = name then one else zero)) _
    simp only [same]
    split
    next => exact Exact.one_eq
    next => exact Exact.zero_eq
  | add l r left right =>
    obtain ⟨a, c, hl, hr, -⟩ := hasValue_add.1 value
    have follows := (Analytic.of_value plain.1 hl).follows.add (Analytic.of_value plain.2 hr).follows
    obtain ⟨a', hl', line_l⟩ := left plain.1 fits.1 hl
    obtain ⟨c', hr', line_r⟩ := right plain.2 fits.2 hr
    exact follows.hasPartial (hasValue_add.2 ⟨_, _, hl', hr', rfl⟩) (hasLineDerivAt_add line_l line_r)
  | sub l r left right =>
    obtain ⟨a, c, hl, hr, -⟩ := hasValue_sub.1 value
    have follows := (Analytic.of_value plain.1 hl).follows.sub (Analytic.of_value plain.2 hr).follows
    obtain ⟨a', hl', line_l⟩ := left plain.1 fits.1 hl
    obtain ⟨c', hr', line_r⟩ := right plain.2 fits.2 hr
    exact follows.hasPartial (hasValue_sub.2 ⟨_, _, hl', hr', rfl⟩) (hasLineDerivAt_sub line_l line_r)
  | mul l r left right =>
    obtain ⟨a, c, hl, hr, -⟩ := hasValue_mul.1 value
    have follows := (Analytic.of_value plain.1 hl).follows.mul (Analytic.of_value plain.2 hr).follows
    obtain ⟨a', hl', line_l⟩ := left plain.1 fits.1 hl
    obtain ⟨c', hr', line_r⟩ := right plain.2 fits.2 hr
    refine follows.hasPartial ?_ (hasLineDerivAt_mul line_l line_r)
    exact hasValue_add.2 ⟨_, _, hasValue_mul.2 ⟨_, _, ValueAt.at_function hl, hr', rfl⟩,
      hasValue_mul.2 ⟨_, _, ValueAt.at_function hr, hl', rfl⟩, rfl⟩
  | div l r left right =>
    obtain ⟨a, c, hl, hr, quotient⟩ := hasValue_div.1 value
    obtain ⟨nonzero, -⟩ := F.div_eq_some.1 quotient
    rw [← ValueAt.function_eq hr] at nonzero
    have follows := (Analytic.of_value plain.1 hl).follows.div
      (Analytic.of_value plain.2 hr).follows nonzero
    obtain ⟨a', hl', line_l⟩ := left plain.1 fits.1 hl
    obtain ⟨c', hr', line_r⟩ := right plain.2 fits.2 hr
    have square : (pow r 2).ValueAt x (r.function x ^ 2) := valueAt_square (ValueAt.at_function hr)
    refine follows.hasPartial ?_ (hasLineDerivAt_div line_l line_r nonzero)
    exact hasValue_div.2 ⟨_, _, hasValue_sub.2 ⟨_, _,
      hasValue_mul.2 ⟨_, _, ValueAt.at_function hr, hl', rfl⟩,
      hasValue_mul.2 ⟨_, _, ValueAt.at_function hl, hr', rfl⟩, rfl⟩, square,
      F.div_eq_some.2 ⟨pow_ne_zero 2 nonzero, rfl⟩⟩
  | neg e inner =>
    obtain ⟨a, h, -⟩ := hasValue_neg.1 value
    have analytic : e.Analytic x := .of_value plain h
    obtain ⟨a', h', line⟩ := inner plain fits h
    exact analytic.follows.neg.hasPartial (hasValue_neg.2 ⟨_, h', rfl⟩) (hasLineDerivAt_neg line)
  | pow b k base =>
    have power : (pow b k).IsPower b k.toInt := isPower_pow plain.2
    obtain ⟨a, h, -⟩ := (power _ v).1 value
    refine (base plain.1 fits.1 h).power (Analytic.of_value plain.1 h) plain.2 power value ?_
    intro a a' h h' lower
    refine hasValue_mul.2 ⟨_, _, hasValue_mul.2 ⟨_, _, rfl, ?_, rfl⟩, h', rfl⟩
    refine hasValue_pow.2 (.inr ⟨a, h, ?_⟩)
    rwa [F.intPower?_eq, toInt_pred fits.2]
  | powConst b p base =>
    obtain ⟨plain_b, m, rfl, nonzero⟩ := plain
    have power : (powConst b (.of (m : ℝ))).IsPower b m := isPower_powConst m
    obtain ⟨a, h, -⟩ := (power _ v).1 value
    refine (base plain_b fits h).power (Analytic.of_value plain_b h) nonzero power value ?_
    intro a a' h h' lower
    refine hasValue_mul.2 ⟨_, _, hasValue_mul.2 ⟨_, _, rfl, ?_, rfl⟩, h', rfl⟩
    refine hasValue_powConst.2 ⟨a, m - 1, h, ?_, ?_⟩
    · rw [Exact.one_eq]
      rfl
    · rw [← lower, ← F.power_intCast, Int.cast_sub, Int.cast_one]
      rfl
  | abs e | powExpr b e | call f e => exact plain.elim

end Expr

/-! ### Second derivatives -/

noncomputable def partialDerivative (j : Fin n) (f : (Fin n → ℝ) → ℝ) (x : Fin n → ℝ) : ℝ :=
  lineDeriv ℝ f x (Pi.single j 1)

/-- Near a point where a function is analytic, its partial derivatives are values of its total
derivative. -/
theorem partialDerivative_eventuallyEq {f : (Fin n → ℝ) → ℝ} {x : Fin n → ℝ}
    (analytic : AnalyticAt ℝ f x) (j : Fin n) :
    partialDerivative j f =ᶠ[𝓝 x] fun y => fderiv ℝ f y (Pi.single j 1) := by
  filter_upwards [analytic.eventually_analyticAt] with y at_y
  exact at_y.differentiableAt.lineDeriv_eq_fderiv

theorem partialDerivative_partialDerivative {f : (Fin n → ℝ) → ℝ} {x : Fin n → ℝ}
    (analytic : AnalyticAt ℝ f x) (i j : Fin n) :
    partialDerivative j (partialDerivative i f) x =
      fderiv ℝ (fderiv ℝ f) x (Pi.single j 1) (Pi.single i 1) := by
  have total : HasFDerivAt (fderiv ℝ f) (fderiv ℝ (fderiv ℝ f) x) x :=
    analytic.fderiv.differentiableAt.hasFDerivAt
  have inner := total.clm_apply (hasFDerivAt_const (Pi.single i 1 : Fin n → ℝ) x)
  rw [partialDerivative, (partialDerivative_eventuallyEq analytic i).lineDeriv_eq,
    inner.differentiableAt.lineDeriv_eq_fderiv, inner.fderiv]
  simp

/-- Mixed partial derivatives do not depend on the order. -/
theorem partialDerivative_comm {f : (Fin n → ℝ) → ℝ} {x : Fin n → ℝ} (analytic : AnalyticAt ℝ f x)
    (i j : Fin n) :
    partialDerivative j (partialDerivative i f) x =
      partialDerivative i (partialDerivative j f) x := by
  have symmetric : IsSymmSndFDerivAt ℝ f x :=
    (analytic.contDiffAt (n := 2)).isSymmSndFDerivAt (by simp)
  rw [partialDerivative_partialDerivative analytic, partialDerivative_partialDerivative analytic]
  exact symmetric _ _

namespace Expr

/-- No exponent leaves its range while the first and second derivatives by some names are made and
simplified. -/
structure SlopesFit (unknowns : List String) (e : Expr (Exact F.arithmetic)) : Prop where
  predecessors : e.HasPredecessors
  derivative : ∀ s ∈ unknowns, ExponentsFit (e.derivative s)
  slope_predecessors : ∀ s ∈ unknowns, (e.slope s).HasPredecessors
  second : ∀ s ∈ unknowns, ∀ t ∈ unknowns, ExponentsFit ((e.slope s).derivative t)

variable {names : Names (Exact F.arithmetic)} {e : Expr (Exact F.arithmetic)} {x : Fin n → ℝ}
  {v : ℝ} {s t : String} {i j : Fin n}

theorem valueAt_slope (distinct : names.unknowns.Nodup) (at_j : names.At s j)
    (plain : e.Plain names.At (· ≠ 0)) (predecessors : e.HasPredecessors)
    (fits : ExponentsFit (e.derivative s)) (value : e.ValueAt x v) :
    (e.slope s).ValueAt x (partialDerivative j e.function x) := by
  obtain ⟨d, slope, line⟩ := hasPartial_of_value distinct at_j plain predecessors value
  rw [partialDerivative, line.lineDeriv]
  exact hasValue_simplify fits d slope

/-- The expression that the Hessian is made of has the value of the second derivative. -/
theorem valueAt_second (distinct : names.unknowns.Nodup) (at_i : names.At s i)
    (at_j : names.At t j) (plain : e.Plain names.At (· ≠ 0)) (fits : e.SlopesFit names.unknowns)
    (value : e.ValueAt x v) :
    ((e.slope s).slope t).ValueAt x
      (partialDerivative j (partialDerivative i e.function) x) := by
  have s_listed := List.mem_of_getElem? at_i
  have first (y : Fin n → ℝ) (w : ℝ) (value : e.ValueAt y w) :
      (e.slope s).ValueAt y (partialDerivative i e.function y) :=
    valueAt_slope distinct at_i plain fits.predecessors (fits.derivative s s_listed) value
  have near : (e.slope s).function =ᶠ[𝓝 x] partialDerivative i e.function := by
    filter_upwards [(Analytic.of_value plain value).2] with y value
    exact (first y _ value).function_eq
  rw [partialDerivative, ← near.lineDeriv_eq]
  exact valueAt_slope distinct at_j (plain_slope s plain.any) (fits.slope_predecessors s s_listed)
    (fits.second s s_listed t (List.mem_of_getElem? at_j)) (first x v value)

end Expr

end Simultaneous
