import Simultaneous.Expr.Basic

/-!
Symbolic partial derivatives. The result is not simplified.
-/

namespace Simultaneous

open Scalar

variable {α : Type} [Scalar α]

def Elementary.derivative (f : Elementary) (a : Expr α) : Expr α :=
  let one : Expr α := .const Scalar.one
  let arcsine : Expr α := .div one (.call .sqrt (.sub one (.pow a 2)))
  match f with
  | .sin => .call .cos a
  | .cos => .neg (.call .sin a)
  | .tan => .div one (.pow (.call .cos a) 2)
  | .exp => .call .exp a
  | .ln => .div one a
  | .sqrt => .div one (.mul (.const (ofInt 2)) (.call .sqrt a))
  | .sinh => .call .cosh a
  | .cosh => .call .sinh a
  | .tanh => .sub one (.pow (.call .tanh a) 2)
  | .arcsin => arcsine
  | .arccos => .neg arcsine
  | .arctan => .div one (.add one (.pow a 2))

def Expr.derivative (name : String) : Expr α → Expr α
  | const _ => const zero
  | var n _ => const (if n = name then Scalar.one else zero)
  | add l r => add (l.derivative name) (r.derivative name)
  | sub l r => sub (l.derivative name) (r.derivative name)
  | mul l r => add (mul l (r.derivative name)) (mul r (l.derivative name))
  | div l r => div (sub (mul r (l.derivative name)) (mul l (r.derivative name))) (pow r 2)
  | abs e => mul (div e (abs e)) (e.derivative name)
  | pow b n => mul (mul (const (ofInt n.toInt)) (pow b (n - 1))) (b.derivative name)
  | powConst b p =>
    mul (mul (const p) (powConst b (p - Scalar.one))) (b.derivative name)
  | powExpr b e =>
    mul (powExpr b e)
      (add (mul (e.derivative name) (call .ln b)) (mul e (div (b.derivative name) b)))
  | call f e => mul (f.derivative e) (e.derivative name)
  | neg e => neg (e.derivative name)

end Simultaneous
