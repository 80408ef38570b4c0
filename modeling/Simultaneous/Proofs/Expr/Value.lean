import Simultaneous.Expr.Basic
import Simultaneous.Proofs.Scalar.Exact

/-!
Values of expressions in exact arithmetic: what a node has for a value, and from which values of its
operands.
-/

namespace Simultaneous.Expr

open Scalar

variable {V : Type} [CommRing V] [DecidableEq V] {A : Arithmetic V} {point : Nat → Exact A}

def HasValue (point : Nat → Exact A) (e : Expr (Exact A)) (v : V) : Prop :=
  e.evaluate point = .of v

theorem hasValue_const {c : Exact A} {v : V} : HasValue point (const c) v ↔ c = .of v := Iff.rfl

variable {l r e b : Expr (Exact A)} {v : V}

theorem hasValue_add : HasValue point (add l r) v ↔
    ∃ a c, HasValue point l a ∧ HasValue point r c ∧ a + c = v := Exact.add_eq_of

theorem hasValue_sub : HasValue point (sub l r) v ↔
    ∃ a c, HasValue point l a ∧ HasValue point r c ∧ a - c = v := Exact.sub_eq_of

theorem hasValue_mul : HasValue point (mul l r) v ↔
    ∃ a c, HasValue point l a ∧ HasValue point r c ∧ a * c = v := Exact.mul_eq_of

theorem hasValue_div : HasValue point (div l r) v ↔
    ∃ a c, HasValue point l a ∧ HasValue point r c ∧ A.div a c = some v := Exact.div_eq_of

theorem hasValue_abs : HasValue point (abs e) v ↔
    ∃ a, HasValue point e a ∧ A.abs a = some v := Exact.abs_eq_of

theorem hasValue_neg : HasValue point (neg e) v ↔ ∃ a, HasValue point e a ∧ -a = v :=
  Exact.neg_eq_of

theorem hasValue_call {f : Elementary} : HasValue point (call f e) v ↔
    ∃ a, HasValue point e a ∧ A.apply f a = some v := Exact.apply_eq_of

theorem hasValue_pow {n : Int64} : HasValue point (pow b n) v ↔
    (n = 0 ∧ v = 1) ∨ ∃ a, HasValue point b a ∧ A.intPower? a n.toInt = some v :=
  Exact.intPower_eq_of

theorem hasValue_powConst {p : Exact A} : HasValue point (powConst b p) v ↔
    ∃ a c, HasValue point b a ∧ p = .of c ∧ A.power a c = some v := Exact.power_eq_of

theorem hasValue_powExpr : HasValue point (powExpr b e) v ↔
    ∃ a c, HasValue point b a ∧ HasValue point e c ∧ A.power a c = some v := Exact.power_eq_of

theorem HasValue.unique {w : V} (one : HasValue point e v) (other : HasValue point e w) : v = w :=
  Exact.of_inj.1 (one.symm.trans other)

/-- Expressions that are equal node by node are equal: what is undefined equals nothing. -/
theorem eq_of_same {l r : Expr (Exact A)} (h : same l r = true) : l = r := by
  have constants {c d : Exact A} (h : (c == d) = true) : c = d := by
    obtain ⟨a, rfl, rfl⟩ := Exact.beq_eq_true.1 h
    rfl
  fun_induction same l r with
  | case1 c d => rw [constants h]
  | case11 e p e' q ih =>
    rw [Bool.and_eq_true] at h
    rw [ih h.1, constants h.2]
  | _ => simp_all

end Simultaneous.Expr
