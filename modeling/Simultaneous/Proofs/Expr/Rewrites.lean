import Simultaneous.Expr.Simplify

/-!
How simplification proceeds. What the rule of a node can do is said once, with one case for each way
through the rules and the conditions on which it is taken; what rules keep is shown case by case from
that. A run simplifies the operands of a node and then what the rule leaves to be simplified: whatever
follows along the run holds of every expression.
-/

namespace Simultaneous.Expr

open Scalar

variable {α : Type} [Scalar α]

/-! ### Steps -/

omit [Scalar α] in
def NotBothConst (l r : Expr α) : Prop := ∀ a c, l = const a → r = const c → False

omit [Scalar α] in
theorem NotBothConst.symm {l r : Expr α} (not_both : NotBothConst l r) : NotBothConst r l :=
  fun a c right left => not_both c a left right

def NoQuotient (l r : Expr α) : Prop := ∀ a c, l = const a → r = const c → (c == zero) = true

inductive Rewrites : Expr α → Reduct α → Prop
  | addFold {a c : α} : Rewrites (add (const a) (const c)) (.done (const (a + c)))
  | addZero {l r : Expr α} : isConst 0 r = true → Rewrites (add l r) (.done l)
  | zeroAdd {l r : Expr α} : isConst 0 l = true → Rewrites (add l r) (.done r)
  | addNeg {l e : Expr α} : Rewrites (add l (neg e)) (.again (sub l e))
  | addKeep {l r : Expr α} : NotBothConst l r → Rewrites (add l r) (.done (add l r))
  | subFold {a c : α} : Rewrites (sub (const a) (const c)) (.done (const (a - c)))
  | subZero {l r : Expr α} : isConst 0 r = true → Rewrites (sub l r) (.done l)
  | zeroSub {l r : Expr α} : NotBothConst l r → isConst 0 l = true →
      Rewrites (sub l r) (.done (neg r))
  | subSame {l r : Expr α} : NotBothConst l r → same l r = true →
      Rewrites (sub l r) (.done (const zero))
  | subKeep {l r : Expr α} : NotBothConst l r → Rewrites (sub l r) (.done (sub l r))
  | mulFold {a c : α} : Rewrites (mul (const a) (const c)) (.done (const (a * c)))
  | mulZero {l r : Expr α} : NotBothConst l r → isConst 0 r = true →
      Rewrites (mul l r) (.done (const zero))
  | zeroMul {l r : Expr α} : NotBothConst l r → isConst 0 l = true →
      Rewrites (mul l r) (.done (const zero))
  | mulOne {l r : Expr α} : isConst 1 r = true → Rewrites (mul l r) (.done l)
  | oneMul {l r : Expr α} : isConst 1 l = true → Rewrites (mul l r) (.done r)
  | mulMinusOne {l r : Expr α} : isConst (-1) r = true → Rewrites (mul l r) (.again (neg l))
  | minusOneMul {l r : Expr α} : isConst (-1) l = true → Rewrites (mul l r) (.again (neg r))
  | mulConstants {a c : α} {e : Expr α} :
      Rewrites (mul (const a) (mul (const c) e)) (.done (mul (const (a * c)) e))
  | mulPowers {b c : Expr α} {m n : Int64} : same b c = true →
      Rewrites (mul (pow b m) (pow c n)) (.again (pow b (m + n)))
  | mulConst {l : Expr α} {c : α} : NotBothConst l (const c) →
      Rewrites (mul l (const c)) (.done (mul (const c) l))
  | mulSame {l r : Expr α} : NotBothConst l r → same l r = true →
      Rewrites (mul l r) (.done (pow l 2))
  | mulKeep {l r : Expr α} : NotBothConst l r → Rewrites (mul l r) (.done (mul l r))
  | divFold {a c : α} : (c == zero) = false →
      Rewrites (div (const a) (const c)) (.done (const (a / c)))
  | zeroDiv {l r : Expr α} : NoQuotient l r → isConst 0 l = true →
      Rewrites (div l r) (.done (const zero))
  | divOne {l r : Expr α} : isConst 1 r = true → Rewrites (div l r) (.done l)
  | divMinusOne {l r : Expr α} : NoQuotient l r → isConst (-1) r = true →
      Rewrites (div l r) (.done (neg l))
  | divSame {l r : Expr α} : NoQuotient l r → isConst 0 l = false → same l r = true →
      Rewrites (div l r) (.done (const one))
  | divKeep {l r : Expr α} : NoQuotient l r → Rewrites (div l r) (.done (div l r))
  | absFold {a : α} : Rewrites (abs (const a)) (.done (const (Scalar.abs a)))
  | absAbs {e : Expr α} : Rewrites (abs (abs e)) (.done (abs e))
  | absNeg {e : Expr α} : Rewrites (abs (neg e)) (.done (abs e))
  | absEven {b : Expr α} {n : Int64} : n % 2 = 0 → Rewrites (abs (pow b n)) (.done (pow b n))
  | absKeep {e : Expr α} : (∀ c, e ≠ const c) → Rewrites (abs e) (.done (abs e))
  | powZero {b : Expr α} : Rewrites (pow b 0) (.done (const one))
  | powFold {a : α} {n : Int64} : n ≠ 0 → Rewrites (pow (const a) n) (.done (const (intPower a n)))
  | powOne {b : Expr α} : (∀ c, b ≠ const c) → Rewrites (pow b 1) (.done b)
  | powPow {b : Expr α} {m n : Int64} : n ≠ 0 → n ≠ 1 →
      Rewrites (pow (pow b m) n) (.again (pow b (m * n)))
  | powKeep {b : Expr α} {n : Int64} : (∀ c, b ≠ const c) → n ≠ 0 →
      Rewrites (pow b n) (.done (pow b n))
  | powConstFold {a p : α} : Rewrites (powConst (const a) p) (.done (const (power a p)))
  | powConstKeep {b : Expr α} {p : α} : (∀ c, b ≠ const c) →
      Rewrites (powConst b p) (.done (powConst b p))
  | powExprFold {a p : α} : Rewrites (powExpr (const a) (const p)) (.done (const (power a p)))
  | powExprConst {b : Expr α} {p : α} : Rewrites (powExpr b (const p)) (.again (powConst b p))
  | powExprKeep {b e : Expr α} : (∀ c, e ≠ const c) → Rewrites (powExpr b e) (.done (powExpr b e))
  | callFold {f : Elementary} {c : α} : f.folds c = true →
      Rewrites (call f (const c)) (.done (const (apply f c)))
  | callUndefined {f : Elementary} {c : α} : f.folds c = false →
      Rewrites (call f (const c)) (.done (call f (const c)))
  | expLn {e : Expr α} : Rewrites (call .exp (call .ln e)) (.done e)
  | callKeep {f : Elementary} {e : Expr α} : (∀ c, e ≠ const c) →
      Rewrites (call f e) (.done (call f e))
  | negFold {a : α} : Rewrites (neg (const a)) (.done (const (-a)))
  | negNeg {e : Expr α} : Rewrites (neg (neg e)) (.done e)
  | negMul {c : α} {e : Expr α} :
      Rewrites (neg (mul (const c) e)) (.again (mul (const (-c)) e))
  | negKeep {e : Expr α} : (∀ c, e ≠ const c) → Rewrites (neg e) (.done (neg e))

theorem rewrites_addRule (l r : Expr α) : Rewrites (add l r) (addRule l r) := by
  unfold addRule
  split
  next => exact .addFold
  next not_both =>
    split
    next zero => exact .addZero zero
    next =>
      split
      next zero => exact .zeroAdd zero
      next =>
        split
        next => exact .addNeg
        next => exact .addKeep not_both

theorem rewrites_subRule (l r : Expr α) : Rewrites (sub l r) (subRule l r) := by
  unfold subRule
  split
  next => exact .subFold
  next not_both =>
    split
    next zero => exact .subZero zero
    next =>
      split
      next zero => exact .zeroSub not_both zero
      next =>
        split
        next equal => exact .subSame not_both equal
        next => exact .subKeep not_both

theorem rewrites_productRule {l r : Expr α} (not_both : NotBothConst l r) :
    Rewrites (mul l r) (productRule l r) := by
  unfold productRule
  split
  next => exact .mulConstants
  next => exact .mulKeep not_both
  next =>
    split
    next equal => exact .mulPowers equal
    next => exact .mulKeep not_both
  next => exact .mulConst not_both
  next =>
    split
    next equal => exact .mulSame not_both equal
    next => exact .mulKeep not_both

theorem rewrites_mulRule (l r : Expr α) : Rewrites (mul l r) (mulRule l r) := by
  unfold mulRule
  split
  next => exact .mulFold
  next not_both =>
    split
    next zero =>
      exact (Bool.or_eq_true_iff.1 zero).elim (.mulZero not_both) (.zeroMul not_both)
    next =>
      split
      next one => exact .mulOne one
      next =>
        split
        next one => exact .oneMul one
        next =>
          split
          next minus => exact .mulMinusOne minus
          next =>
            split
            next minus => exact .minusOneMul minus
            next => exact rewrites_productRule not_both

theorem rewrites_divRule (l r : Expr α) : Rewrites (div l r) (divRule l r) := by
  have others (no_quotient : NoQuotient l r) : Rewrites (div l r) (
      if isConst 0 l then .done (const zero)
      else if isConst 1 r then .done l
      else if isConst (-1) r then .done (neg l)
      else if same l r then .done (const one)
      else .done (div l r)) := by
    split
    next zero => exact .zeroDiv no_quotient zero
    next not_zero =>
      split
      next one => exact .divOne one
      next =>
        split
        next minus => exact .divMinusOne no_quotient minus
        next =>
          split
          next equal => exact .divSame no_quotient (Bool.eq_false_iff.2 not_zero) equal
          next => exact .divKeep no_quotient
  simp only [divRule]
  split
  next =>
    split
    next by_zero =>
      refine others fun _ _ _ same => ?_
      rwa [← const.inj same]
    next nonzero => exact .divFold (Bool.eq_false_iff.2 nonzero)
  next not_both => exact others fun a c left right => (not_both a c left right).elim

theorem rewrites_absRule (e : Expr α) : Rewrites (abs e) (absRule e) := by
  unfold absRule
  split
  next => exact .absFold
  next => exact .absAbs
  next => exact .absNeg
  next =>
    split
    next even => exact .absEven even
    next => exact .absKeep nofun
  next not_const _ _ _ => exact .absKeep not_const

theorem rewrites_powRule (b : Expr α) (n : Int64) : Rewrites (pow b n) (powRule b n) := by
  unfold powRule
  split
  next zero =>
    rw [zero]
    exact .powZero
  next nonzero =>
    split
    next => exact .powFold nonzero
    next =>
      split
      next one =>
        rw [one]
        exact .powOne nofun
      next other => exact .powPow nonzero other
    next not_const _ =>
      split
      next one =>
        rw [one]
        exact .powOne not_const
      next => exact .powKeep not_const nonzero

theorem rewrites_powConstRule (b : Expr α) (p : α) : Rewrites (powConst b p) (powConstRule b p) := by
  unfold powConstRule
  split
  next => exact .powConstFold
  next not_const => exact .powConstKeep not_const

theorem rewrites_powExprRule (b e : Expr α) : Rewrites (powExpr b e) (powExprRule b e) := by
  unfold powExprRule
  split
  next => exact .powExprFold
  next => exact .powExprConst
  next not_const _ => exact .powExprKeep not_const

theorem rewrites_callRule (f : Elementary) (e : Expr α) : Rewrites (call f e) (callRule f e) := by
  unfold callRule
  split
  next =>
    split
    next folds => exact .callFold folds
    next outside => exact .callUndefined (Bool.eq_false_iff.2 outside)
  next =>
    split
    next inverse =>
      obtain ⟨rfl, rfl⟩ := inverse
      exact .expLn
    next => exact .callKeep nofun
  next not_const _ => exact .callKeep not_const

theorem rewrites_negRule (e : Expr α) : Rewrites (neg e) (negRule e) := by
  unfold negRule
  split
  next => exact .negFold
  next => exact .negNeg
  next => exact .negMul
  next not_const _ _ => exact .negKeep not_const

/-! ### Runs -/

/-- Induction along a run of simplification: the operands are simplified, then what the rule of the
node leaves to be simplified. A power by a constant that is a short integer simplifies its base
twice. -/
@[elab_as_elim]
theorem simplify_induction {motive : Expr α → Prop} (const : ∀ c, motive (const c))
    (var : ∀ name i, motive (var name i))
    (add : ∀ l r, motive l → motive r →
      (∀ e, addRule l.simplify r.simplify = .again e → motive e) → motive (add l r))
    (sub : ∀ l r, motive l → motive r →
      (∀ e, subRule l.simplify r.simplify = .again e → motive e) → motive (sub l r))
    (mul : ∀ l r, motive l → motive r →
      (∀ e, mulRule l.simplify r.simplify = .again e → motive e) → motive (mul l r))
    (div : ∀ l r, motive l → motive r →
      (∀ e, divRule l.simplify r.simplify = .again e → motive e) → motive (div l r))
    (abs : ∀ e, motive e → (∀ f, absRule e.simplify = .again f → motive f) → motive (abs e))
    (pow : ∀ b n, motive b → (∀ e, powRule b.simplify n = .again e → motive e) → motive (pow b n))
    (powInteger : ∀ b p n, shortInteger? p = some n → motive b → motive b.simplify →
      (∀ e, powRule b.simplify.simplify n = .again e → motive e) → motive (powConst b p))
    (powConst : ∀ b p, shortInteger? p = none → motive b →
      (∀ e, powConstRule b.simplify p = .again e → motive e) → motive (powConst b p))
    (powExpr : ∀ b e, motive b → motive e →
      (∀ f, powExprRule b.simplify e.simplify = .again f → motive f) → motive (powExpr b e))
    (call : ∀ f e, motive e → (∀ g, callRule f e.simplify = .again g → motive g) →
      motive (call f e))
    (neg : ∀ e, motive e → (∀ f, negRule e.simplify = .again f → motive f) → motive (neg e))
    (e : Expr α) : motive e := by
  -- operands and what a rule leaves to be simplified have fewer nodes
  induction size_eq : e.size using Nat.strongRecOn generalizing e with
  | _ m ih =>
    have smaller (t : Expr α) (less : t.size < m) : motive t := ih t.size less t rfl
    have rest {w : Reduct α} {n : Nat} (within : w.Within n) (le : n ≤ m) :
        ∀ t, w = .again t → motive t := by
      rintro t rfl
      exact smaller t (Nat.lt_of_lt_of_le within le)
    cases e with simp only [size] at size_eq
    | const c => exact const c
    | var name i => exact var name i
    | add l r =>
      have l_le := l.size_simplify_le
      have r_le := r.size_simplify_le
      exact add l r (smaller l (by omega)) (smaller r (by omega))
        (rest (addRule_within _ _) (by omega))
    | sub l r =>
      have l_le := l.size_simplify_le
      have r_le := r.size_simplify_le
      exact sub l r (smaller l (by omega)) (smaller r (by omega))
        (rest (subRule_within _ _) (by omega))
    | mul l r =>
      have l_le := l.size_simplify_le
      have r_le := r.size_simplify_le
      exact mul l r (smaller l (by omega)) (smaller r (by omega))
        (rest (mulRule_within _ _) (by omega))
    | div l r =>
      have l_le := l.size_simplify_le
      have r_le := r.size_simplify_le
      exact div l r (smaller l (by omega)) (smaller r (by omega))
        (rest (divRule_within _ _) (by omega))
    | powExpr b e =>
      have b_le := b.size_simplify_le
      have e_le := e.size_simplify_le
      exact powExpr b e (smaller b (by omega)) (smaller e (by omega))
        (rest (powExprRule_within _ _) (by omega))
    | abs e =>
      have e_le := e.size_simplify_le
      exact abs e (smaller e (by omega)) (rest (absRule_within _) (by omega))
    | pow b n =>
      have b_le := b.size_simplify_le
      exact pow b n (smaller b (by omega)) (rest (powRule_within _ _) (by omega))
    | powConst b p =>
      have b_le := b.size_simplify_le
      cases short : shortInteger? p with
      | some n =>
        have again_le := b.simplify.size_simplify_le
        exact powInteger b p n short (smaller b (by omega)) (smaller b.simplify (by omega))
          (rest (powRule_within _ _) (by omega))
      | none =>
        exact powConst b p short (smaller b (by omega)) (rest (powConstRule_within _ _) (by omega))
    | call f e =>
      have e_le := e.size_simplify_le
      exact call f e (smaller e (by omega)) (rest (callRule_within _ _) (by omega))
    | neg e =>
      have e_le := e.size_simplify_le
      exact neg e (smaller e (by omega)) (rest (negRule_within _) (by omega))

end Simultaneous.Expr
