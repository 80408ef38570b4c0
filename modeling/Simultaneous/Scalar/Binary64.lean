import Simultaneous.Decimal.Exact
import Simultaneous.Scalar.Basic

/-!
Floating-point numbers of 64 bits as the arithmetic of the running program.
-/

namespace Simultaneous

open Decimal

def Decimal.Binary.integral? (b : Binary) : Option Int :=
  let magnitude :=
    if 0 ≤ b.exponent then some (b.mantissa * Nat.pow 2 b.exponent.toNat)
    else
      let unit := Nat.pow 2 (-b.exponent).toNat
      if b.mantissa % unit = 0 then some (b.mantissa / unit) else none
  magnitude.map fun n => if b.negative then -(n : Int) else n

def Decimal.Value.special? : Value → Option Special
  | .finite _ => none
  | .infinite false => some .infinite
  | .infinite true => some .negativeInfinite
  | .undefined => some .undefined

def Elementary.applyFloat : Elementary → Float → Float
  | .sin => Float.sin
  | .cos => Float.cos
  | .tan => Float.tan
  | .exp => Float.exp
  | .ln => Float.log
  | .sqrt => Float.sqrt
  | .sinh => Float.sinh
  | .cosh => Float.cosh
  | .tanh => Float.tanh
  | .arcsin => Float.asin
  | .arccos => Float.acos
  | .arctan => Float.atan

instance : Scalar Float where
  ofInt := Float.ofInt
  ofNumeral := Numeral.toFloat
  pi := 3.141592653589793
  e := 2.718281828459045
  undefined := 0.0 / 0.0
  lt x y := x < y
  le x y := x ≤ y
  abs := Float.abs
  power := Float.pow
  apply := Elementary.applyFloat
  integral? x :=
    match Value.ofFloat x with
    | .finite b => b.integral?
    | _ => none
  special? x := if x.isFinite then none else (Value.ofFloat x).special?

end Simultaneous
