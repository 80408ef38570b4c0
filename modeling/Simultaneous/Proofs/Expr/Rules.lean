import Simultaneous.Proofs.Expr.Simplify

/-!
What every rule keeps, simplification keeps. A relation between expressions that each rule keeps from
a node to what it makes of it, and that may be applied to the operands of a node, relates a simplified
expression to the expression.
-/

namespace Simultaneous.Expr

variable {α : Type} [Scalar α]

/-- A relation that goes from simplified operands to their node and that every rule keeps. -/
structure KeptByRules (R : Expr α → Expr α → Prop) : Prop where
  refl (e : Expr α) : R e e
  trans {e f g : Expr α} : R e f → R f g → R e g
  add {l l' r r' : Expr α} : R l' l → R r' r → R (add l' r') (add l r)
  sub {l l' r r' : Expr α} : R l' l → R r' r → R (sub l' r') (sub l r)
  mul {l l' r r' : Expr α} : R l' l → R r' r → R (mul l' r') (mul l r)
  div {l l' r r' : Expr α} : R l' l → R r' r → R (div l' r') (div l r)
  powExpr {l l' r r' : Expr α} : R l' l → R r' r → R (powExpr l' r') (powExpr l r)
  abs {e e' : Expr α} : R e' e → R (abs e') (abs e)
  pow {e e' : Expr α} (n : Int64) : R e' e → R (pow e' n) (pow e n)
  powConst {e e' : Expr α} (p : α) : R e' e → R (powConst e' p) (powConst e p)
  call {e e' : Expr α} (f : Elementary) : R e' e → R (call f e') (call f e)
  neg {e e' : Expr α} : R e' e → R (neg e') (neg e)
  addRule (l r : Expr α) : R (addRule l r).expr (.add l r)
  subRule (l r : Expr α) : R (subRule l r).expr (.sub l r)
  mulRule (l r : Expr α) : R (mulRule l r).expr (.mul l r)
  divRule (l r : Expr α) : R (divRule l r).expr (.div l r)
  absRule (e : Expr α) : R (absRule e).expr (.abs e)
  powRule (b : Expr α) (n : Int64) : R (powRule b n).expr (.pow b n)
  shortRule (b : Expr α) {p : α} {n : Int64} : shortInteger? p = some n →
    R (Expr.powRule b n).expr (.powConst b p)
  powConstRule (b : Expr α) (p : α) : R (powConstRule b p).expr (.powConst b p)
  powExprRule (b e : Expr α) : R (powExprRule b e).expr (.powExpr b e)
  callRule (f : Elementary) (e : Expr α) : R (callRule f e).expr (.call f e)
  negRule (e : Expr α) : R (negRule e).expr (.neg e)

namespace KeptByRules

variable {R : Expr α → Expr α → Prop} (kept : KeptByRules R)

include kept

theorem result {w : Reduct α} {e : Expr α} (rule : R w.expr e)
    (rest : ∀ f, w = .again f → R f.simplify f) : R (Reduct.result w) e := by
  cases w with
  | done f => exact rule
  | again f => exact kept.trans (rest f rfl) rule

theorem simplify (e : Expr α) : R e.simplify e := by
  induction e using simplify_induction with
  | const c =>
    rw [simplify_const]
    exact kept.refl _
  | var name i =>
    rw [simplify_var]
    exact kept.refl _
  | add l r left right rest =>
    rw [simplify_add]
    exact kept.result (kept.trans (kept.addRule _ _) (kept.add left right)) rest
  | sub l r left right rest =>
    rw [simplify_sub]
    exact kept.result (kept.trans (kept.subRule _ _) (kept.sub left right)) rest
  | mul l r left right rest =>
    rw [simplify_mul]
    exact kept.result (kept.trans (kept.mulRule _ _) (kept.mul left right)) rest
  | div l r left right rest =>
    rw [simplify_div]
    exact kept.result (kept.trans (kept.divRule _ _) (kept.div left right)) rest
  | powExpr b e base exponent rest =>
    rw [simplify_powExpr]
    exact kept.result (kept.trans (kept.powExprRule _ _) (kept.powExpr base exponent)) rest
  | abs e inner rest =>
    rw [simplify_abs]
    exact kept.result (kept.trans (kept.absRule _) (kept.abs inner)) rest
  | pow b n base rest =>
    rw [simplify_pow]
    exact kept.result (kept.trans (kept.powRule _ _) (kept.pow n base)) rest
  | powInteger b p n short base again rest =>
    rw [simplify_powConst, short]
    have twice : R b.simplify.simplify b := kept.trans again base
    exact kept.result (kept.trans (kept.shortRule _ short) (kept.powConst p twice)) rest
  | powConst b p long base rest =>
    rw [simplify_powConst, long]
    exact kept.result (kept.trans (kept.powConstRule _ _) (kept.powConst p base)) rest
  | call f e inner rest =>
    rw [simplify_call]
    exact kept.result (kept.trans (kept.callRule _ _) (kept.call f inner)) rest
  | neg e inner rest =>
    rw [simplify_neg]
    exact kept.result (kept.trans (kept.negRule _) (kept.neg inner)) rest

end KeptByRules

end Simultaneous.Expr
