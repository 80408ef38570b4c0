import Simultaneous.Decimal.Digits
import Simultaneous.Text.Word

/-!
Numerals: decimal numbers as they are written, read without rounding, and their nearest
floating-point number. A numeral is an optional sign followed by `inf`, `infinity` or `nan` in any
case, or by digits with an optional point among or around them and an optional exponent.
-/

namespace Simultaneous.Decimal

open Text

inductive Magnitude where
  | decimal (digits : Nat) (exponent : Int)
  | infinite
  | undefined
deriving Repr, DecidableEq

structure Numeral where
  negative : Bool
  magnitude : Magnitude
deriving Repr, DecidableEq

def Numeral.ofNat (n : Nat) : Numeral := ⟨false, .decimal n 0⟩

def takeSign : List Char → Bool × List Char
  | '-' :: rest => (true, rest)
  | '+' :: rest => (false, rest)
  | s => (false, s)

def readExponent? : List Char → Option Int
  | [] => some 0
  | c :: rest =>
    if c = 'e' ∨ c = 'E' then
      let (negative, digits) := takeSign rest
      if digits ≠ [] ∧ digits.all Char.isDigit then
        some (if negative then -(ofDigits digits : Int) else ofDigits digits)
      else none
    else none

def readMagnitude? (s : List Char) : Option Magnitude :=
  let (whole, rest) := takeDigits s
  let (fraction, tail) := match rest with
    | '.' :: after => takeDigits after
    | _ => ([], rest)
  if whole = [] ∧ fraction = [] then none
  else (readExponent? tail).map fun exponent =>
    .decimal (ofDigits (whole ++ fraction)) (exponent - fraction.length)

def Numeral.read? (s : List Char) : Option Numeral :=
  let (negative, rest) := takeSign s
  let word := lower rest
  if word = "inf".toList ∨ word = "infinity".toList then some ⟨negative, .infinite⟩
  else if word = "nan".toList then some ⟨negative, .undefined⟩
  else (readMagnitude? rest).map fun m => ⟨negative, m⟩

def Magnitude.toFloat : Magnitude → Float
  | .decimal digits exponent => Float.ofScientific digits (exponent < 0) exponent.natAbs
  | .infinite => 1.0 / 0.0
  | .undefined => 0.0 / 0.0

def Numeral.toFloat (n : Numeral) : Float :=
  if n.negative then -n.magnitude.toFloat else n.magnitude.toFloat

end Simultaneous.Decimal
