import Simultaneous.Decimal.Numeral
import Simultaneous.Elementary

/-!
The arithmetic that expressions and solvers work in. Everything numeric in the library is written
over these operations, so that one definition serves floating-point numbers, which the program
runs on, and exact numbers, about which laws can be stated.
-/

namespace Simultaneous

open Decimal

inductive Special where
  | undefined
  | infinite
  | negativeInfinite
deriving Repr, DecidableEq

/-- The operations on numbers. No law is asked for. -/
class Scalar (α : Type) extends Add α, Sub α, Mul α, Div α, Neg α, BEq α where
  ofInt : Int → α
  ofNumeral : Numeral → α
  pi : α
  e : α
  /-- the value of what has none -/
  undefined : α
  lt : α → α → Bool
  le : α → α → Bool
  abs : α → α
  power : α → α → α
  apply : Elementary → α → α
  /-- the integer that a number is -/
  integral? : α → Option Int
  /-- which value that is no number this is -/
  special? : α → Option Special

namespace Scalar

variable {α : Type} [Scalar α]

def zero : α := ofInt 0

def one : α := ofInt 1

def decimal (digits : Nat) (exponent : Int) : α := ofNumeral ⟨false, .decimal digits exponent⟩

def degree : α := pi / ofInt 180

def isFinite (x : α) : Bool := (special? x).isNone

/-- The larger of two numbers; a value that differs from itself gives way to the other. -/
def max (x y : α) : α :=
  if !(x == x) then y else if !(y == y) then x else if lt x y then y else x

def min (x y : α) : α :=
  if !(x == x) then y else if !(y == y) then x else if lt y x then y else x

def sqrt (x : α) : α := apply .sqrt x

def multiplyPower (product base : α) (n : Nat) : α :=
  let product := if n % 2 = 1 then product * base else product
  if _ : n / 2 = 0 then product else multiplyPower product (base * base) (n / 2)
termination_by n
decreasing_by omega

def isShortExponent (n : Int) : Bool := -Int.pow 2 31 ≤ n && n < Int.pow 2 31

def intPower (base : α) (n : Int64) : α :=
  let m := n.toInt
  if isShortExponent m then
    let magnitude := multiplyPower one base m.natAbs
    if m < 0 then one / magnitude else magnitude
  else power base (ofInt m)

def constant? (name : String) : Option α :=
  if name = "Pi" then some pi
  else if name = "E" then some e
  else if name = "Degree" then some degree
  else none

end Scalar

end Simultaneous
