import Simultaneous.Decimal.Exact

/-!
Texts of numbers with a set number of digits: a fixed number of places after the point, or a
scientific form with a fixed number of digits after the leading one.
-/

namespace Simultaneous.Decimal

def pointed (places : Nat) (digits : List Char) : List Char :=
  let padded := List.replicate (places + 1 - digits.length) '0' ++ digits
  let whole := padded.take (padded.length - places)
  if places = 0 then whole else whole ++ '.' :: padded.drop (padded.length - places)

def signText (negative : Bool) : List Char := if negative then ['-'] else []

def integerText (n : Int) : List Char := signText (n < 0) ++ toDigits n.natAbs

def fixed (places : Nat) (b : Binary) : List Char :=
  signText b.negative ++ pointed places (toDigits (b.exact.round places))

/-- Mantissa units with one digit before the point and `places` after it, and the exponent, of a
magnitude that is not zero. Rounding up to the next power of ten moves the exponent. -/
def scientificParts (places : Nat) (x : Exact) : Nat × Int :=
  let leading := x.leading
  let units := x.round (places - leading)
  if units < Nat.pow 10 (places + 1) then (units, leading) else (units / 10, leading + 1)

def scientific (places : Nat) (b : Binary) : List Char :=
  let (units, exponent) := if b.mantissa = 0 then (0, 0) else scientificParts places b.exact
  signText b.negative ++ pointed places (toDigits units) ++ 'e' :: integerText exponent

end Simultaneous.Decimal
