import Simultaneous.Scalar.Basic

/-!
Expression trees over an arithmetic: their values, their constants and their unknowns.
-/

namespace Simultaneous

/-- An expression. A variable has a name and the position of its value in a point. -/
inductive Expr (α : Type) where
  | const (c : α)
  | var (name : String) (index : Nat)
  | add (l r : Expr α)
  | mul (l r : Expr α)
  | sub (l r : Expr α)
  | div (l r : Expr α)
  | abs (e : Expr α)
  /-- a power by an integer -/
  | pow (base : Expr α) (n : Int64)
  /-- a power by a constant that need not be an integer -/
  | powConst (base : Expr α) (p : α)
  | powExpr (base exponent : Expr α)
  | call (f : Elementary) (e : Expr α)
  | neg (e : Expr α)

namespace Expr

variable {α : Type}

def size : Expr α → Nat
  | const _ | var _ _ => 1
  | add l r | mul l r | sub l r | div l r | powExpr l r => l.size + r.size + 1
  | abs e | pow e _ | powConst e _ | call _ e | neg e => e.size + 1

theorem size_pos (e : Expr α) : 0 < e.size := by
  cases e <;> simp [size]

/-- Equality node by node; constants are compared as numbers. -/
def same [BEq α] : Expr α → Expr α → Bool
  | const c, const d => c == d
  | var n i, var m j => n == m && i == j
  | add l r, add l' r' | mul l r, mul l' r' | sub l r, sub l' r' | div l r, div l' r'
  | powExpr l r, powExpr l' r' => same l l' && same r r'
  | abs e, abs e' | neg e, neg e' => same e e'
  | pow e n, pow e' m => same e e' && n == m
  | powConst e p, powConst e' q => same e e' && p == q
  | call f e, call g e' => f == g && same e e'
  | _, _ => false

def evaluate [Scalar α] (point : Nat → α) : Expr α → α
  | const c => c
  | var _ i => point i
  | add l r => l.evaluate point + r.evaluate point
  | sub l r => l.evaluate point - r.evaluate point
  | mul l r => l.evaluate point * r.evaluate point
  | div l r => l.evaluate point / r.evaluate point
  | abs e => Scalar.abs (e.evaluate point)
  | pow b n => Scalar.intPower (b.evaluate point) n
  | powConst b p => Scalar.power (b.evaluate point) p
  | powExpr b e => Scalar.power (b.evaluate point) (e.evaluate point)
  | call f e => Scalar.apply f (e.evaluate point)
  | neg e => -e.evaluate point

def isConstant : Expr α → Bool
  | const _ => true
  | var _ _ => false
  | add l r | mul l r | sub l r | div l r | powExpr l r => l.isConstant && r.isConstant
  | abs e | pow e _ | powConst e _ | call _ e | neg e => e.isConstant

def constant? [Scalar α] (e : Expr α) : Option α :=
  if e.isConstant then some (e.evaluate fun _ => Scalar.undefined) else none

def occurrences : Expr α → List String
  | const _ => []
  | var name _ => [name]
  | add l r | mul l r | sub l r | div l r | powExpr l r => l.occurrences ++ r.occurrences
  | abs e | pow e _ | powConst e _ | call _ e | neg e => e.occurrences

end Expr

def pointOf {α : Type} [Scalar α] (values : Array α) (i : Nat) : α :=
  values[i]?.getD Scalar.undefined

end Simultaneous
