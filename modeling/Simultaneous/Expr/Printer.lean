import Simultaneous.Decimal.Shortest
import Simultaneous.Expr.Basic
import Simultaneous.Scalar.Binary64

/-!
Expressions as text, in the syntax that residual text is read in.
-/

namespace Simultaneous

open Decimal

def numberText (x : Float) : List Char := (Value.ofFloat x).text

namespace Expr

variable {α : Type} [Scalar α]

def bracketed (s : List Char) : List Char := '(' :: s ++ [')']

def signed (negative : Bool) (s : List Char) : List Char := if negative then bracketed s else s

def infixed (op : String) (l r : List Char) : List Char := bracketed (l ++ op.toList ++ r)

/-- The text of an expression, given the text of constants. Every operation with two operands
stands in brackets, and so do negative constants. -/
def chars (number : α → List Char) : Expr α → List Char
  | const c => signed (Scalar.lt c Scalar.zero) (number c)
  | var name _ => name.toList
  | add l r => infixed " + " (l.chars number) (r.chars number)
  | mul l r => infixed " * " (l.chars number) (r.chars number)
  | sub l r => infixed " - " (l.chars number) (r.chars number)
  | div l r => infixed " / " (l.chars number) (r.chars number)
  | abs e => absName.toList ++ bracketed (e.chars number)
  | pow b n => infixed "^" (b.chars number) (signed (n.toInt < 0) (integerText n.toInt))
  | powConst b p =>
    infixed "^" (b.chars number) (signed (Scalar.lt p Scalar.zero) (number p))
  | powExpr b e => infixed "^" (b.chars number) (e.chars number)
  | call f e => f.name.toList ++ bracketed (e.chars number)
  | neg e => '-' :: bracketed (e.chars number)

def text (e : Expr Float) : String := String.ofList (e.chars numberText)

end Expr

end Simultaneous
