import Mathlib.Algebra.Polynomial.FieldDivision
import Mathlib.Order.Filter.Cofinite
import Mathlib.RingTheory.Polynomial.Wronskian
import Mathlib.Tactic.FieldSimp
import Simultaneous.Proofs.Expr.Derivative
import Simultaneous.Proofs.Expr.Rational

/-!
Rational expressions in one unknown as quotients of polynomials. Where such an expression has a value
it is that of the quotient, the symbolic derivative has the value of the quotient's derivative, and
an expression with a value anywhere has one almost everywhere, as has its derivative. So a derivative
that is constant wherever it has a value is that of a straight line: the values of the expression lie
on it, on both sides of a point where the expression has none.
-/

namespace Simultaneous

open Scalar Polynomial Filter

/-! ### Polynomials -/

section Polynomials

variable {K : Type} [Field K]

theorem exists_isCoprime (p : K[X]) {q : K[X]} (nonzero : q ≠ 0) :
    ∃ g m n, g ≠ 0 ∧ p = g * m ∧ q = g * n ∧ IsCoprime m n := by
  classical
  obtain ⟨m, p_eq⟩ := EuclideanDomain.gcd_dvd_left p q
  obtain ⟨n, q_eq⟩ := EuclideanDomain.gcd_dvd_right p q
  have combined := EuclideanDomain.gcd_eq_gcd_ab p q
  generalize EuclideanDomain.gcd p q = g at *
  generalize EuclideanDomain.gcdA p q = a at *
  generalize EuclideanDomain.gcdB p q = b at *
  have divisor : g ≠ 0 := by
    rintro rfl
    exact nonzero (q_eq.trans (zero_mul n))
  refine ⟨g, m, n, divisor, p_eq, q_eq, a, b, mul_left_cancel₀ divisor ?_⟩
  calc g * (a * m + b * n) = g * m * a + g * n * b := by ring
    _ = g * 1 := by rw [← p_eq, ← q_eq, ← combined, mul_one]

/-- Polynomials whose Wronskian vanishes are proportional. -/
theorem exists_eq_C_mul_of_wronskian [CharZero K] {p q : K[X]} (nonzero : q ≠ 0)
    (vanishes : wronskian p q = 0) : ∃ c, p = C c * q := by
  obtain ⟨g, m, n, divisor, rfl, rfl, coprime⟩ := exists_isCoprime p nonzero
  have common : wronskian (g * m) (g * n) = g ^ 2 * wronskian m n := by
    simp only [wronskian, derivative_mul]
    ring
  have reduced : wronskian m n = 0 :=
    (mul_eq_zero.1 (common.symm.trans vanishes)).resolve_left (pow_ne_zero 2 divisor)
  obtain ⟨m_constant, n_constant⟩ := coprime.wronskian_eq_zero_iff.1 reduced
  have m_eq := eq_C_of_derivative_eq_zero m_constant
  have n_eq := eq_C_of_derivative_eq_zero n_constant
  have n_nonzero : n.coeff 0 ≠ 0 := by
    intro zero
    rw [n_eq, zero, C_0, mul_zero] at nonzero
    exact nonzero rfl
  have proportional : C (m.coeff 0 / n.coeff 0) * n = m := by
    rw [m_eq, n_eq]
    simp only [coeff_C_zero]
    rw [← C_mul, div_mul_cancel₀ _ n_nonzero]
  exact ⟨m.coeff 0 / n.coeff 0, by rw [mul_left_comm, proportional]⟩

noncomputable def slopeNumerator (p q : K[X]) : K[X] := derivative p * q - p * derivative q

/-- A quotient of polynomials whose derivative is constant is a straight line. -/
theorem exists_line_of_constant_slope [CharZero K] {p q : K[X]} (nonzero : q ≠ 0) {a : K}
    (slope : slopeNumerator p q = C a * q ^ 2) : ∃ b, p = (C a * X + C b) * q := by
  have vanishes : wronskian (p - C a * X * q) q = 0 := by
    rw [slopeNumerator] at slope
    simp only [wronskian, derivative_sub, derivative_mul, derivative_C, derivative_X, zero_mul,
      zero_add, mul_one]
    linear_combination -slope
  obtain ⟨b, difference⟩ := exists_eq_C_mul_of_wronskian nonzero vanishes
  exact ⟨b, by linear_combination difference⟩

theorem eventually_eval_ne_zero {p : K[X]} (nonzero : p ≠ 0) : ∀ᶠ u in cofinite, p.eval u ≠ 0 := by
  rw [eventually_cofinite]
  simpa [IsRoot] using finite_setOfPred_isRoot nonzero

theorem eq_of_eventually_eval [Infinite K] {p q : K[X]}
    (same : ∀ᶠ u in cofinite, p.eval u = q.eval u) : p = q :=
  eq_of_infinite_eval_eq p q (frequently_cofinite_iff_infinite.1 same.frequently)

end Polynomials

variable {K : Type} [Field K] [LinearOrder K] {F : Interpretation K}

namespace Expr

def Takes (e : Expr (Exact F.arithmetic)) (u v : K) : Prop := HasValue (pointOf #[.of u]) e v

def IsOnly (name s : String) (i : Nat) : Prop := s = name ∧ i = 0

/-- Wherever the expression and its derivative have values they are those of a quotient of
polynomials, and if there is any such place, almost all places are. -/
structure IsQuotient (name : String) (e : Expr (Exact F.arithmetic)) (p q : K[X]) : Prop where
  nonzero : q ≠ 0
  value : ∀ {u v}, e.Takes u v → q.eval u ≠ 0 ∧ v = p.eval u / q.eval u
  slope : ∀ {u v d}, e.Takes u v → (e.derivative name).Takes u d →
    d = (slopeNumerator p q).eval u / q.eval u ^ 2
  generic : ∀ {u v}, e.Takes u v →
    ∀ᶠ t in cofinite, (∃ v, e.Takes t v) ∧ ∃ d, (e.derivative name).Takes t d

variable {name : String} {e l r b : Expr (Exact F.arithmetic)} {p q p' q' : K[X]}

theorem isQuotient_never (never : ∀ u v, ¬e.Takes u v) : IsQuotient name e 0 1 where
  nonzero := one_ne_zero
  value has := absurd has (never _ _)
  slope has := absurd has (never _ _)
  generic has := absurd has (never _ _)

theorem isQuotient_const (a : K) :
    IsQuotient name (const (.of a) : Expr (Exact F.arithmetic)) (C a) 1 where
  nonzero := one_ne_zero
  value has := by
    obtain rfl := Exact.of_inj.1 has
    simp
  slope _ has := by
    have zero := Exact.of_inj.1 (Exact.zero_eq.symm.trans has)
    simp [slopeNumerator, ← zero]
  generic _ := .of_forall fun t => ⟨⟨a, rfl⟩, 0, Exact.zero_eq⟩

theorem isQuotient_var : IsQuotient name (var name 0 : Expr (Exact F.arithmetic)) X 1 where
  nonzero := one_ne_zero
  value has := by
    obtain rfl := Exact.of_inj.1 has
    simp
  slope _ has := by
    rw [derivative, if_pos rfl] at has
    have one := Exact.of_inj.1 (Exact.one_eq.symm.trans has)
    simp [slopeNumerator, ← one]
  generic _ := by
    refine .of_forall fun t => ⟨⟨t, rfl⟩, 1, ?_⟩
    rw [derivative, if_pos rfl]
    exact Exact.one_eq

/-! ### Operations -/

theorem IsQuotient.add (left : IsQuotient name l p q) (right : IsQuotient name r p' q') :
    IsQuotient name (add l r) (p * q' + p' * q) (q * q') where
  nonzero := mul_ne_zero left.nonzero right.nonzero
  value has := by
    obtain ⟨a, c, hl, hr, rfl⟩ := hasValue_add.1 has
    obtain ⟨q_nonzero, rfl⟩ := left.value hl
    obtain ⟨q'_nonzero, rfl⟩ := right.value hr
    simp only [eval_mul, eval_add]
    exact ⟨mul_ne_zero q_nonzero q'_nonzero, by field_simp⟩
  slope has slope := by
    obtain ⟨a, c, hl, hr, rfl⟩ := hasValue_add.1 has
    obtain ⟨a', c', hl', hr', rfl⟩ := hasValue_add.1 slope
    obtain ⟨q_nonzero, -⟩ := left.value hl
    obtain ⟨q'_nonzero, -⟩ := right.value hr
    rw [left.slope hl hl', right.slope hr hr']
    simp only [slopeNumerator, derivative_mul, derivative_add, eval_mul, eval_add, eval_sub]
    field_simp
    ring
  generic has := by
    obtain ⟨a, c, hl, hr, -⟩ := hasValue_add.1 has
    filter_upwards [left.generic hl, right.generic hr] with t ⟨⟨a, hl⟩, a', hl'⟩ ⟨⟨c, hr⟩, c', hr'⟩
    exact ⟨⟨_, hasValue_add.2 ⟨_, _, hl, hr, rfl⟩⟩, _, hasValue_add.2 ⟨_, _, hl', hr', rfl⟩⟩

theorem IsQuotient.neg (inner : IsQuotient name e p q) : IsQuotient name (neg e) (-p) q where
  nonzero := inner.nonzero
  value has := by
    obtain ⟨a, h, rfl⟩ := hasValue_neg.1 has
    obtain ⟨q_nonzero, rfl⟩ := inner.value h
    exact ⟨q_nonzero, by rw [eval_neg, neg_div]⟩
  slope has slope := by
    obtain ⟨a, h, rfl⟩ := hasValue_neg.1 has
    obtain ⟨a', h', rfl⟩ := hasValue_neg.1 slope
    rw [inner.slope h h', ← neg_div, ← eval_neg]
    simp only [slopeNumerator, derivative_neg]
    ring_nf
  generic has := by
    obtain ⟨a, h, -⟩ := hasValue_neg.1 has
    filter_upwards [inner.generic h] with t ⟨⟨a, h⟩, a', h'⟩
    exact ⟨⟨_, hasValue_neg.2 ⟨_, h, rfl⟩⟩, _, hasValue_neg.2 ⟨_, h', rfl⟩⟩

theorem takes_sub_iff {u v : K} : (sub l r).Takes u v ↔ (add l (neg r)).Takes u v := by
  constructor
  · intro has
    obtain ⟨a, c, hl, hr, rfl⟩ := hasValue_sub.1 has
    exact hasValue_add.2 ⟨a, -c, hl, hasValue_neg.2 ⟨c, hr, rfl⟩, (sub_eq_add_neg a c).symm⟩
  · intro has
    obtain ⟨a, d, hl, negated, rfl⟩ := hasValue_add.1 has
    obtain ⟨c, hr, rfl⟩ := hasValue_neg.1 negated
    exact hasValue_sub.2 ⟨a, c, hl, hr, sub_eq_add_neg a c⟩

theorem IsQuotient.sub (left : IsQuotient name l p q) (right : IsQuotient name r p' q') :
    IsQuotient name (sub l r) (p * q' + -p' * q) (q * q') where
  nonzero := (left.add right.neg).nonzero
  value has := (left.add right.neg).value (takes_sub_iff.1 has)
  slope has slope := (left.add right.neg).slope (takes_sub_iff.1 has) (takes_sub_iff.1 slope)
  generic has := by
    filter_upwards [(left.add right.neg).generic (takes_sub_iff.1 has)]
      with t ⟨⟨v, has⟩, d, derived⟩
    exact ⟨⟨v, takes_sub_iff.2 has⟩, d, takes_sub_iff.2 derived⟩

theorem IsQuotient.mul (left : IsQuotient name l p q) (right : IsQuotient name r p' q') :
    IsQuotient name (mul l r) (p * p') (q * q') where
  nonzero := mul_ne_zero left.nonzero right.nonzero
  value has := by
    obtain ⟨a, c, hl, hr, rfl⟩ := hasValue_mul.1 has
    obtain ⟨q_nonzero, rfl⟩ := left.value hl
    obtain ⟨q'_nonzero, rfl⟩ := right.value hr
    simp only [eval_mul]
    exact ⟨mul_ne_zero q_nonzero q'_nonzero, by field_simp⟩
  slope has slope := by
    obtain ⟨a, c, hl, hr, rfl⟩ := hasValue_mul.1 has
    obtain ⟨a', c', hl', hr', rfl⟩ := slope_mul hl hr slope
    obtain ⟨q_nonzero, rfl⟩ := left.value hl
    obtain ⟨q'_nonzero, rfl⟩ := right.value hr
    rw [left.slope hl hl', right.slope hr hr']
    simp only [slopeNumerator, derivative_mul, eval_mul, eval_add, eval_sub]
    field_simp
    ring
  generic has := by
    obtain ⟨a, c, hl, hr, -⟩ := hasValue_mul.1 has
    filter_upwards [left.generic hl, right.generic hr] with t ⟨⟨a, hl⟩, a', hl'⟩ ⟨⟨c, hr⟩, c', hr'⟩
    exact ⟨⟨_, hasValue_mul.2 ⟨_, _, hl, hr, rfl⟩⟩, _, hasValue_add.2 ⟨_, _,
      hasValue_mul.2 ⟨_, _, hl, hr', rfl⟩, hasValue_mul.2 ⟨_, _, hr, hl', rfl⟩, rfl⟩⟩

theorem takes_square {u a : K} (base : b.Takes u a) : (pow b 2).Takes u (a ^ 2) := by
  have two : (2 : Int64).toInt = (2 : Nat) := rfl
  refine (isPower_pow (by decide) _ _).2 ⟨a, base, integerPower?_eq_some.2 ⟨fun _ => by decide, ?_⟩⟩
  rw [two, zpow_natCast]

/-- A quotient of expressions has a value somewhere only if the numerator of the divisor is no zero
polynomial. -/
theorem IsQuotient.div (left : IsQuotient name l p q) (right : IsQuotient name r p' q') :
    ∃ p q, IsQuotient name (div l r) p q := by
  have divides {u v : K} (has : (Expr.div l r).Takes u v) : ∃ a c, l.Takes u a ∧ r.Takes u c ∧
      p'.eval u ≠ 0 ∧ c ≠ 0 ∧ v = a / c := by
    obtain ⟨a, c, hl, hr, quotient⟩ := hasValue_div.1 has
    obtain ⟨nonzero, rfl⟩ := F.div_eq_some.1 quotient
    refine ⟨a, c, hl, hr, fun zero => nonzero ?_, nonzero, rfl⟩
    rw [(right.value hr).2, zero, zero_div]
  by_cases zero : p' = 0
  · refine ⟨0, 1, isQuotient_never fun u v has => ?_⟩
    obtain ⟨-, -, -, -, nonzero, -⟩ := divides has
    exact nonzero (by rw [zero, eval_zero])
  refine ⟨p * q', q * p', mul_ne_zero left.nonzero zero, fun has => ?_, fun has slope => ?_,
    fun has => ?_⟩
  · obtain ⟨a, c, hl, hr, p'_nonzero, -, rfl⟩ := divides has
    obtain ⟨q_nonzero, rfl⟩ := left.value hl
    obtain ⟨q'_nonzero, rfl⟩ := right.value hr
    simp only [eval_mul]
    exact ⟨mul_ne_zero q_nonzero p'_nonzero, by field_simp⟩
  · obtain ⟨a, c, hl, hr, p'_nonzero, -, rfl⟩ := divides has
    obtain ⟨a', c', hl', hr', rfl⟩ := slope_div hl hr slope
    obtain ⟨q_nonzero, rfl⟩ := left.value hl
    obtain ⟨q'_nonzero, rfl⟩ := right.value hr
    rw [left.slope hl hl', right.slope hr hr']
    simp only [slopeNumerator, derivative_mul, eval_mul, eval_add, eval_sub]
    field_simp
    ring
  · obtain ⟨a, c, hl, hr, -⟩ := divides has
    filter_upwards [left.generic hl, right.generic hr, eventually_eval_ne_zero zero]
      with t ⟨⟨a, hl⟩, a', hl'⟩ ⟨⟨c, hr⟩, c', hr'⟩ p'_nonzero
    obtain ⟨q'_nonzero, own⟩ := right.value hr
    have nonzero : c ≠ 0 := own ▸ div_ne_zero p'_nonzero q'_nonzero
    refine ⟨⟨_, hasValue_div.2 ⟨_, _, hl, hr, F.div_eq_some.2 ⟨nonzero, rfl⟩⟩⟩, _,
      hasValue_div.2 ⟨_, _, hasValue_sub.2 ⟨_, _, hasValue_mul.2 ⟨_, _, hr, hl', rfl⟩,
        hasValue_mul.2 ⟨_, _, hl, hr', rfl⟩, rfl⟩, takes_square hr,
        F.div_eq_some.2 ⟨pow_ne_zero 2 nonzero, rfl⟩⟩⟩

/-! ### Powers -/

def DerivesPower (name : String) (e b : Expr (Exact F.arithmetic)) (m : Int) : Prop :=
  ∀ u a, b.Takes u a → ∀ d, (e.derivative name).Takes u d ↔
    ∃ w a', integerPower? a (m - 1) = some w ∧ (b.derivative name).Takes u a' ∧ m * w * a' = d

theorem derivesPower_pow {k : Int64} (least : k ≠ Int64.minValue) :
    DerivesPower name (pow b k) b k.toInt := by
  intro u a base d
  constructor
  · intro slope
    obtain ⟨w, a', lower, h', rfl⟩ := slope_pow slope
    exact ⟨w, a', lower_power least base lower, h', rfl⟩
  · rintro ⟨w, a', lower, h', rfl⟩
    refine hasValue_mul.2 ⟨_, _, hasValue_mul.2 ⟨_, _, rfl, ?_, rfl⟩, h', rfl⟩
    refine hasValue_pow.2 (.inr ⟨a, base, ?_⟩)
    rwa [F.intPower?_eq, toInt_pred least]

theorem derivesPower_powConst (m : Int) : DerivesPower name (powConst b (.of (m : K))) b m := by
  have lower_eq (a : K) : F.power a (m - 1) = integerPower? a (m - 1) := by
    rw [← F.power_intCast, Int.cast_sub, Int.cast_one]
  intro u a base d
  constructor
  · intro slope
    obtain ⟨w, a', lower, h', rfl⟩ := slope_powConst base slope
    exact ⟨w, a', lower_eq a ▸ lower, h', rfl⟩
  · rintro ⟨w, a', lower, h', rfl⟩
    refine hasValue_mul.2 ⟨_, _, hasValue_mul.2 ⟨_, _, rfl, ?_, rfl⟩, h', rfl⟩
    refine hasValue_powConst.2 ⟨a, m - 1, base, ?_, (lower_eq a).trans lower⟩
    rw [Exact.one_eq]
    rfl

theorem IsQuotient.power_succ (base : IsQuotient name b p q) {m : Nat}
    (power : e.IsPower b (m + 1 : Nat)) (derives : DerivesPower name e b (m + 1 : Nat)) :
    IsQuotient name e (p ^ (m + 1)) (q ^ (m + 1)) where
  nonzero := pow_ne_zero _ base.nonzero
  value has := by
    obtain ⟨a, h, defined⟩ := (power _ _).1 has
    obtain ⟨-, rfl⟩ := integerPower?_eq_some.1 defined
    obtain ⟨q_nonzero, rfl⟩ := base.value h
    simp only [eval_pow]
    exact ⟨pow_ne_zero _ q_nonzero, by rw [zpow_natCast, div_pow]⟩
  slope has slope := by
    obtain ⟨a, h, -⟩ := (power _ _).1 has
    obtain ⟨w, a', lower, h', rfl⟩ := (derives _ _ h _).1 slope
    obtain ⟨-, rfl⟩ := integerPower?_eq_some.1 lower
    obtain ⟨q_nonzero, rfl⟩ := base.value h
    have pred : ((m + 1 : Nat) : Int) - 1 = m := by omega
    rw [base.slope h h', pred, zpow_natCast, div_pow]
    simp only [slopeNumerator, derivative_pow_succ, eval_mul, eval_sub, eval_pow, eval_C]
    push_cast
    field_simp
    ring
  generic has := by
    obtain ⟨a, h, -⟩ := (power _ _).1 has
    filter_upwards [base.generic h] with t ⟨⟨a, h⟩, a', h'⟩
    have whole {k : Int} (nonneg : 0 ≤ k) : integerPower? a k = some (a ^ k) :=
      integerPower?_eq_some.2 ⟨fun _ => nonneg, rfl⟩
    exact ⟨⟨_, (power _ _).2 ⟨a, h, whole (by omega)⟩⟩, _,
      (derives _ _ h _).2 ⟨_, a', whole (by omega), h', rfl⟩⟩

/-- A power by a negative number has a value somewhere only if the numerator of its base is no zero
polynomial. -/
theorem IsQuotient.power_negSucc (base : IsQuotient name b p q) {m : Nat}
    (power : e.IsPower b (-(m + 1 : Nat))) (derives : DerivesPower name e b (-(m + 1 : Nat))) :
    ∃ p q, IsQuotient name e p q := by
  have inverts {u v : K} (has : e.Takes u v) : ∃ a, b.Takes u a ∧ a ≠ 0 ∧ p.eval u ≠ 0 ∧
      v = (a ^ (m + 1))⁻¹ := by
    obtain ⟨a, h, defined⟩ := (power _ _).1 has
    obtain ⟨regular, rfl⟩ := integerPower?_eq_some.1 defined
    have nonzero : a ≠ 0 := fun zero => by
      have := regular zero
      omega
    refine ⟨a, h, nonzero, fun zero => nonzero ?_, by rw [zpow_neg, zpow_natCast]⟩
    rw [(base.value h).2, zero, zero_div]
  by_cases zero : p = 0
  · refine ⟨0, 1, isQuotient_never fun u v has => ?_⟩
    obtain ⟨-, -, -, nonzero, -⟩ := inverts has
    exact nonzero (by rw [zero, eval_zero])
  refine ⟨q ^ (m + 1), p ^ (m + 1), pow_ne_zero _ zero, fun has => ?_, fun has slope => ?_,
    fun has => ?_⟩
  · obtain ⟨a, h, -, p_nonzero, rfl⟩ := inverts has
    obtain ⟨q_nonzero, rfl⟩ := base.value h
    simp only [eval_pow]
    exact ⟨pow_ne_zero _ p_nonzero, by rw [div_pow, inv_div]⟩
  · obtain ⟨a, h, -, p_nonzero, rfl⟩ := inverts has
    obtain ⟨w, a', lower, h', rfl⟩ := (derives _ _ h _).1 slope
    obtain ⟨-, rfl⟩ := integerPower?_eq_some.1 lower
    obtain ⟨q_nonzero, rfl⟩ := base.value h
    have pred : -((m + 1 : Nat) : Int) - 1 = -((m + 2 : Nat) : Int) := by omega
    rw [base.slope h h', pred, zpow_neg, zpow_natCast, div_pow, inv_div]
    simp only [slopeNumerator, derivative_pow_succ, eval_mul, eval_sub, eval_pow, eval_C]
    push_cast
    field_simp
    ring
  · obtain ⟨a, h, -⟩ := inverts has
    filter_upwards [base.generic h, eventually_eval_ne_zero zero] with t ⟨⟨a, h⟩, a', h'⟩ p_nonzero
    obtain ⟨q_nonzero, own⟩ := base.value h
    have nonzero : a ≠ 0 := own ▸ div_ne_zero p_nonzero q_nonzero
    have defined (k : Int) : integerPower? a k = some (a ^ k) :=
      integerPower?_eq_some.2 ⟨fun zero => absurd zero nonzero, rfl⟩
    exact ⟨⟨_, (power _ _).2 ⟨a, h, defined _⟩⟩, _, (derives _ _ h _).2 ⟨_, a', defined _, h', rfl⟩⟩

theorem IsQuotient.power (base : IsQuotient name b p q) {m : Int} (nonzero : m ≠ 0)
    (power : e.IsPower b m) (derives : DerivesPower name e b m) :
    ∃ p q, IsQuotient name e p q := by
  obtain ⟨k, rfl | rfl⟩ := Int.eq_nat_or_neg m
  · obtain ⟨j, rfl⟩ := Nat.exists_eq_succ_of_ne_zero (Int.natCast_ne_zero.1 nonzero)
    exact ⟨_, _, base.power_succ power derives⟩
  · obtain ⟨j, rfl⟩ := Nat.exists_eq_succ_of_ne_zero (Int.natCast_ne_zero.1 (neg_ne_zero.1 nonzero))
    exact base.power_negSucc power derives

/-- A rational expression in one unknown, without the exponent zero, is a quotient of
polynomials. -/
theorem exists_isQuotient (plain : e.Plain (IsOnly name) (· ≠ 0)) (fits : e.HasPredecessors) :
    ∃ p q, IsQuotient name e p q := by
  induction e with
  | const c =>
    by_cases defined : ∃ a, c = .of a
    · obtain ⟨a, rfl⟩ := defined
      exact ⟨_, _, isQuotient_const a⟩
    · exact ⟨0, 1, isQuotient_never fun u v has => defined ⟨v, has⟩⟩
  | var s i =>
    obtain ⟨rfl, rfl⟩ := plain
    exact ⟨_, _, isQuotient_var⟩
  | add l r left right =>
    obtain ⟨p, q, of_l⟩ := left plain.1 fits.1
    obtain ⟨p', q', of_r⟩ := right plain.2 fits.2
    exact ⟨_, _, of_l.add of_r⟩
  | sub l r left right =>
    obtain ⟨p, q, of_l⟩ := left plain.1 fits.1
    obtain ⟨p', q', of_r⟩ := right plain.2 fits.2
    exact ⟨_, _, of_l.sub of_r⟩
  | mul l r left right =>
    obtain ⟨p, q, of_l⟩ := left plain.1 fits.1
    obtain ⟨p', q', of_r⟩ := right plain.2 fits.2
    exact ⟨_, _, of_l.mul of_r⟩
  | div l r left right =>
    obtain ⟨p, q, of_l⟩ := left plain.1 fits.1
    obtain ⟨p', q', of_r⟩ := right plain.2 fits.2
    exact of_l.div of_r
  | neg e inner =>
    obtain ⟨p, q, of_e⟩ := inner plain fits
    exact ⟨_, _, of_e.neg⟩
  | pow b k base =>
    obtain ⟨p, q, of_b⟩ := base plain.1 fits.1
    exact of_b.power plain.2 (isPower_pow plain.2) (derivesPower_pow fits.2)
  | powConst b c base =>
    obtain ⟨plain_b, m, rfl, nonzero⟩ := plain
    obtain ⟨p, q, of_b⟩ := base plain_b fits
    exact of_b.power nonzero (isPower_powConst m) (derivesPower_powConst m)
  | abs e | powExpr b e | call f e => exact plain.elim

/-- If the derivative has one value wherever it has any, the values of the expression are on a
straight line of that slope. -/
theorem exists_line [IsStrictOrderedRing K] (plain : e.Plain (IsOnly name) (· ≠ 0))
    (fits : e.HasPredecessors) {a : K}
    (slope : ∀ u d, (e.derivative name).Takes u d → d = a) :
    ∃ b, ∀ u v, e.Takes u v → v = a * u + b := by
  obtain ⟨p, q, of_e⟩ := exists_isQuotient plain fits
  by_cases somewhere : ∃ u v, e.Takes u v
  · obtain ⟨u, v, has⟩ := somewhere
    have identity : slopeNumerator p q = C a * q ^ 2 := by
      refine eq_of_eventually_eval ?_
      filter_upwards [of_e.generic has] with t ⟨⟨v, has⟩, d, derived⟩
      have nonzero := (of_e.value has).1
      have quotient := of_e.slope has derived
      rw [slope t d derived, eq_div_iff (pow_ne_zero 2 nonzero)] at quotient
      rw [eval_mul, eval_C, eval_pow, quotient]
    obtain ⟨b, line⟩ := exists_line_of_constant_slope of_e.nonzero identity
    refine ⟨b, fun u v has => ?_⟩
    obtain ⟨nonzero, rfl⟩ := of_e.value has
    rw [line, eval_mul, mul_div_cancel_right₀ _ nonzero]
    simp
  · exact ⟨0, fun u v has => absurd ⟨u, v, has⟩ somewhere⟩

end Expr

end Simultaneous
