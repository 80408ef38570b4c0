import Simultaneous.Decimal.Shortest

/-!
Values as they are shown to a user: seven places in the plain range, trailing zeros dropped, and six
significant digits with an exponent outside it.
-/

namespace Simultaneous

open Decimal

/-- Without zeros at the end, and without a point that is then last. -/
def trimPlaces (s : List Char) : List Char :=
  (((s.reverse.dropWhile (· = '0')).dropWhile (· = '.'))).reverse

def isPlainRange (magnitude : Float) : Bool := 1e-4 ≤ magnitude && magnitude < 1e7

def valueText (x : Float) : String :=
  match Value.ofFloat x with
  | .finite b =>
    if b.mantissa = 0 then "0"
    else if isPlainRange x.abs then String.ofList (trimPlaces (fixed 7 b))
    else String.ofList (scientific 5 b)
  | v => String.ofList v.text

end Simultaneous
