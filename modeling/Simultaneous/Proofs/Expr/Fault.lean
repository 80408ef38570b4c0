import Simultaneous.Proofs.Expr.Simplify
import Simultaneous.Proofs.Scalar.Order

/-!
Why an expression has no value. Its faults are the operations in it that go wrong although all of
their operands have values, and whatever has no value has a fault. Operands cannot cancel unless
they have the same faults; an expression in which none may, and in which no zero stands beside
something without a value, is clear.
-/

namespace Simultaneous

open Scalar

inductive Fault (K : Type) where
  /-- a number divided by zero -/
  | quotient (a : K)
  /-- a function outside of its domain -/
  | call (f : Elementary) (a : K)
  /-- anything that simplification computes all the same -/
  | folded
  /-- a variable without a value -/
  | unknown (index : Nat)

namespace Interpretation

variable {K : Type} [Field K] [LinearOrder K]

/-- A function of a constant is left alone only where it has no value. -/
def HasDomains (F : Interpretation K) : Prop :=
  ∀ (f : Elementary) (a : K), f.folds (.of a : Exact F.arithmetic) = false → F.apply f a = none

theorem rational_hasDomains : rational.HasDomains := fun _ _ _ => rfl

theorem real_hasDomains : real.HasDomains := by
  intro f a left_alone
  refine if_neg fun defined => ?_
  cases f <;>
    simp_all [Elementary.folds, Elementary.Defined, Exact.zero_eq, Exact.one_eq, Exact.ofInt_eq,
      Exact.lt_of, Exact.le_of, not_lt_of_ge]

end Interpretation

namespace Exact

variable {K : Type} {A : Arithmetic K} {x y : Exact A}

def faults (x : Exact A) (f : K → Option K) (fault : K → Fault K) : Set (Fault K) :=
  {φ | ∃ a, x = of a ∧ f a = none ∧ φ = fault a}

def faultsOfTwo (x y : Exact A) (f : K → K → Option K) (fault : K → K → Fault K) :
    Set (Fault K) :=
  {φ | ∃ a b, x = of a ∧ y = of b ∧ f a b = none ∧ φ = fault a b}

variable {s t : Set (Fault K)} {f : K → Option K} {g : K → K → Option K}
  {fault : K → Fault K} {faultOfTwo : K → K → Fault K}

theorem union_faults_eq_empty (valued : s = ∅ ↔ ∃ a, x = of a) :
    s ∪ x.faults f fault = ∅ ↔ ∃ v, x.map f = of v := by
  rw [Set.union_empty_iff, valued]
  simp only [map_eq_of]
  constructor
  · rintro ⟨⟨a, rfl⟩, fine⟩
    cases value : f a with
    | some v => exact ⟨v, a, rfl, value⟩
    | none =>
      have wrong : fault a ∈ (of a : Exact A).faults f fault := ⟨a, rfl, value, rfl⟩
      rw [fine] at wrong
      exact wrong.elim
  · rintro ⟨v, a, rfl, value⟩
    refine ⟨⟨a, rfl⟩, Set.eq_empty_iff_forall_notMem.2 ?_⟩
    rintro φ ⟨b, same, wrong, -⟩
    rw [← of_inj.1 same, value] at wrong
    cases wrong

theorem union_faultsOfTwo_eq_empty (left : s = ∅ ↔ ∃ a, x = of a) (right : t = ∅ ↔ ∃ b, y = of b) :
    s ∪ t ∪ x.faultsOfTwo y g faultOfTwo = ∅ ↔ ∃ v, combine g x y = of v := by
  rw [Set.union_empty_iff, Set.union_empty_iff, left, right]
  simp only [combine_eq_of]
  constructor
  · rintro ⟨⟨⟨a, rfl⟩, b, rfl⟩, fine⟩
    cases value : g a b with
    | some v => exact ⟨v, a, b, rfl, rfl, value⟩
    | none =>
      have wrong : faultOfTwo a b ∈ (of a : Exact A).faultsOfTwo (of b) g faultOfTwo :=
        ⟨a, b, rfl, rfl, value, rfl⟩
      rw [fine] at wrong
      exact wrong.elim
  · rintro ⟨v, a, b, rfl, rfl, value⟩
    refine ⟨⟨⟨a, rfl⟩, b, rfl⟩, Set.eq_empty_iff_forall_notMem.2 ?_⟩
    rintro φ ⟨c, d, same, same', wrong, -⟩
    rw [← of_inj.1 same, ← of_inj.1 same', value] at wrong
    cases wrong

theorem faults_undefined : (undefined : Exact A).faults f fault = ∅ := by
  rw [Set.eq_empty_iff_forall_notMem]
  rintro φ ⟨a, same, -⟩
  exact of_ne_undefined a same.symm

theorem faults_subset (fault : Fault K) : x.faults f (fun _ => fault) ⊆ {fault} := by
  rintro φ ⟨a, -, -, rfl⟩
  rfl

theorem faultsOfTwo_subset (fault : Fault K) : x.faultsOfTwo y g (fun _ _ => fault) ⊆ {fault} := by
  rintro φ ⟨a, b, -, -, -, rfl⟩
  rfl

end Exact

namespace Expr

variable {K : Type} [Field K] [LinearOrder K] {F : Interpretation K}

section Definitions

variable (point : Nat → Exact F.arithmetic)

/-- The operations of an expression that go wrong at a point. -/
def faults : Expr (Exact F.arithmetic) → Set (Fault K)
  | const c => {φ | c = .undefined ∧ φ = .folded}
  | var _ i => {φ | point i = .undefined ∧ φ = .unknown i}
  | add l r | sub l r | mul l r => l.faults ∪ r.faults
  | div l r =>
    l.faults ∪ r.faults ∪
      (l.evaluate point).faultsOfTwo (r.evaluate point) F.arithmetic.div fun a _ => .quotient a
  | abs e | neg e => e.faults
  | pow b n =>
    if n = 0 then ∅
    else b.faults ∪ (b.evaluate point).faults (F.arithmetic.intPower? · n.toInt) fun _ => .folded
  | powConst b p =>
    b.faults ∪ {φ | p = .undefined ∧ φ = .folded} ∪
      (b.evaluate point).faultsOfTwo p F.power fun _ _ => .folded
  | powExpr b e =>
    b.faults ∪ e.faults ∪
      (b.evaluate point).faultsOfTwo (e.evaluate point) F.power fun _ _ => .folded
  | call f e =>
    e.faults ∪ (e.evaluate point).faults (F.apply f) fun a =>
      if f.folds (.of a : Exact F.arithmetic) then .folded else .call f a

/-- Operands that may not cancel: both have values, or their faults differ. -/
def Apart (l r : Expr (Exact F.arithmetic)) : Prop :=
  l.faults point = r.faults point → l.faults point = ∅

/-- No operation of the expression can take a value from operands of which one has none: operands
may not cancel, a zero has no factor and no divisor that goes wrong, and no power by zero or
exponential has an operand whose missing value it would replace. -/
def Clear : Expr (Exact F.arithmetic) → Prop
  | const _ | var _ _ => True
  | add l r | sub l r => l.Clear ∧ r.Clear ∧ Apart point l r
  | mul l r =>
    l.Clear ∧ r.Clear ∧ Apart point l r ∧ (HasValue point l 0 → r.faults point = ∅) ∧
      (HasValue point r 0 → l.faults point = ∅)
  | div l r =>
    l.Clear ∧ r.Clear ∧ Apart point l r ∧ (HasValue point l 0 → (div l r).faults point = ∅)
  | abs e | neg e | pow e _ => e.Clear
  | powConst b p => b.Clear ∧ (p = .of 0 → b.faults point = ∅)
  | powExpr b e => b.Clear ∧ e.Clear ∧ (HasValue point e 0 → b.faults point = ∅)
  | call f e => e.Clear ∧ (f = .exp → ∀ a, e.faults point ≠ {.call .ln a})

/-- What simplification leaves of an expression: all that has a value is a constant, no power has a
constant base, and no function that can be folded a constant argument. -/
def Tight : Expr (Exact F.arithmetic) → Prop
  | const _ => True
  | var n i => (var n i).faults point ≠ ∅
  | add l r => l.Tight ∧ r.Tight ∧ (add l r).faults point ≠ ∅
  | sub l r => l.Tight ∧ r.Tight ∧ (sub l r).faults point ≠ ∅
  | mul l r => l.Tight ∧ r.Tight ∧ (mul l r).faults point ≠ ∅
  | div l r => l.Tight ∧ r.Tight ∧ (div l r).faults point ≠ ∅
  | powExpr b e => b.Tight ∧ e.Tight ∧ (powExpr b e).faults point ≠ ∅
  | abs e => e.Tight ∧ e.faults point ≠ ∅
  | neg e => e.Tight ∧ e.faults point ≠ ∅
  | pow b n => b.Tight ∧ b.faults point ≠ ∅ ∧ n ≠ 0
  | powConst b _ => b.Tight ∧ b.faults point ≠ ∅
  | call f e =>
    e.Tight ∧ (call f e).faults point ≠ ∅ ∧ ∀ c, e = const c → f.folds c = false

end Definitions

variable {point : Nat → Exact F.arithmetic} {l r e b : Expr (Exact F.arithmetic)} {v : K}

/-! ### Faults and values -/

theorem faults_const_of (a : K) : faults point (const (.of a)) = ∅ := by
  simp [faults, Exact.of_ne_undefined]

theorem faults_const_undefined : faults point (const .undefined) = {.folded} := by
  simp [faults]

theorem faults_add : (add l r).faults point = l.faults point ∪ r.faults point := rfl

theorem faults_sub : (sub l r).faults point = l.faults point ∪ r.faults point := rfl

theorem faults_mul : (mul l r).faults point = l.faults point ∪ r.faults point := rfl

theorem faults_neg : (neg e).faults point = e.faults point := rfl

theorem faults_const_subset (point : Nat → Exact F.arithmetic) (c : Exact F.arithmetic) :
    faults point (const c) ⊆ {.folded} :=
  fun _ fault => fault.2

theorem faults_const_eq_empty_iff (point : Nat → Exact F.arithmetic) (c : Exact F.arithmetic) :
    faults point (const c) = ∅ ↔ ∃ v, c = .of v := by
  obtain rfl | ⟨a, rfl⟩ := c.eq_undefined_or_of
  · simp [faults_const_undefined, (Exact.of_ne_undefined _).symm]
  · simp [faults_const_of, Exact.of_inj]

/-- Whatever has no value has a fault, and nothing else has one. -/
theorem faults_eq_empty_iff : e.faults point = ∅ ↔ ∃ v, HasValue point e v := by
  induction e with
  | const c => exact faults_const_eq_empty_iff point c
  | var name i =>
    obtain blank | ⟨a, known⟩ := (point i).eq_undefined_or_of
    · simp [faults, HasValue, evaluate, blank, (Exact.of_ne_undefined _).symm]
    · simp [faults, HasValue, evaluate, known, Exact.of_ne_undefined, Exact.of_inj]
  | add l r left right | sub l r left right | mul l r left right =>
    simp [faults, left, right, hasValue_add, hasValue_sub, hasValue_mul]
  | div l r left right => exact Exact.union_faultsOfTwo_eq_empty left right
  | abs e ih =>
    have total : ∀ a : K, F.arithmetic.abs a = some |a| := fun a => rfl
    simp [faults, ih, hasValue_abs, total]
  | neg e ih => simp [faults, ih, hasValue_neg]
  | pow b n ih =>
    rw [faults]
    split
    next zero => simp [hasValue_pow, zero]
    next nonzero =>
      rw [Exact.union_faults_eq_empty ih]
      simp only [hasValue_pow, nonzero, false_and, false_or, Exact.map_eq_of]
      rfl
  | powConst b p ih =>
    exact Exact.union_faultsOfTwo_eq_empty ih (faults_const_eq_empty_iff point p)
  | powExpr b e base exponent => exact Exact.union_faultsOfTwo_eq_empty base exponent
  | call f e ih => exact Exact.union_faults_eq_empty ih

end Expr

end Simultaneous
