import Simultaneous.Decimal.Digits

/-!
Numbers of JSON text. A literal is kept as its digits; it counts as a natural number only without
a point, an exponent or a sign, and as a real number if the 64 leading bits of its digits, scaled
once by a power of ten, stay finite.
-/

namespace Simultaneous.Json

open Decimal

structure Literal where
  negative : Bool
  whole : List Char
  fraction : Option (List Char)
  exponent : Option (Bool × List Char)
deriving Repr, DecidableEq

namespace Literal

def wordMax : Nat := Nat.pow 2 64 - 1

def takeWhole (digits : List Char) : Nat × Nat :=
  digits.foldl (fun (n, dropped) c =>
    let longer := 10 * n + digitValue c
    if dropped = 0 ∧ longer ≤ wordMax then (longer, 0) else (n, dropped + 1)) (0, 0)

/-- Digits after the point extend the number while it fits 64 bits. -/
def takeFraction (n : Nat) : List Char → Nat × Nat
  | [] => (n, 0)
  | c :: rest =>
    let longer := 10 * n + digitValue c
    if longer ≤ wordMax then
      let (m, taken) := takeFraction longer rest
      (m, taken + 1)
    else (n, 0)

/-- A number scaled by a power of ten: one rounding up to `10 ^ 308`, further steps below. Nothing
if the result is too large. -/
def scale (x : Float) (exponent : Int) : Option Float :=
  if exponent.natAbs ≤ 308 then
    let power := Float.ofScientific 1 false exponent.natAbs
    if 0 ≤ exponent then
      let y := x * power
      if y.isFinite then some y else none
    else some (x / power)
  else if x == 0.0 then some x
  else if 0 ≤ exponent then none
  else scale (x / Float.ofScientific 1 false 308) (exponent + 308)
termination_by exponent.natAbs
decreasing_by omega

def isInteger (l : Literal) : Bool := l.fraction.isNone && l.exponent.isNone

def natural? (l : Literal) : Option Nat :=
  let (n, dropped) := takeWhole l.whole
  if l.isInteger && !l.negative && dropped == 0 then some n else none

/-- Exponents beyond 32 bits leave only zero. -/
def exponentMax : Nat := Nat.pow 2 31 - 1

def magnitude? (l : Literal) : Option Float :=
  let (n, dropped) := takeWhole l.whole
  let (n, taken) := takeFraction n (l.fraction.getD [])
  let start : Int := (dropped : Int) - taken
  match l.exponent with
  | none => scale (Float.ofNat n) start
  | some (negative, digits) =>
    let e := ofDigits digits
    if exponentMax < e then
      if n ≠ 0 ∧ !negative then none else some 0.0
    else scale (Float.ofNat n) (if negative then start - e else start + e)

def real? (l : Literal) : Option Float :=
  l.magnitude?.map fun x => if l.negative then -x else x

end Literal

end Simultaneous.Json
