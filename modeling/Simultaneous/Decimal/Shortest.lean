import Simultaneous.Decimal.Layout

/-!
The fewest digits that read back to the same floating-point number. The decimals that round to a
number form an interval around it; the first grid of powers of ten with a point in that interval
next to the number gives the digits, the nearer of two such points wins, and a tie goes up.
-/

namespace Simultaneous.Decimal

/-- The interval of decimals that round to a binary number, in units that are four times as fine as
the number's own: the number, its two ends, and whether the ends belong to it. -/
structure Interval where
  value : Nat
  low : Nat
  high : Nat
  closed : Bool
  /-- the units are `10 ^ -places / 4` -/
  places : Nat
deriving Repr, DecidableEq

/-- Below a power of two the neighbour is only half as far away, except among the smallest
numbers, whose exponent is the least one. -/
def Binary.narrowBelow (b : Binary) : Bool :=
  b.mantissa == Nat.pow 2 52 && decide (-1074 < b.exponent)

def Binary.interval (b : Binary) : Interval :=
  let below := if b.narrowBelow then 1 else 2
  let exponent := b.exponent - 2
  let scale := if 0 ≤ exponent then Nat.pow 2 exponent.toNat else Nat.pow 5 (-exponent).toNat
  { value := 4 * b.mantissa * scale
    low := (4 * b.mantissa - below) * scale
    high := (4 * b.mantissa + 2) * scale
    closed := b.mantissa % 2 == 0
    places := (-exponent).toNat }

def Interval.contains (i : Interval) (x : Nat) : Bool :=
  (i.low < x && x < i.high) || (i.closed && (x == i.low || x == i.high))

def Interval.onGrid? (i : Interval) (drop : Nat) : Option Nat :=
  let grid := Nat.pow 10 drop
  let down := i.value / grid
  let up := down + 1
  match i.contains (down * grid), i.contains (up * grid) with
  | false, false => none
  | true, false => some down
  | false, true => some up
  | true, true =>
    if 2 * (i.value - down * grid) < grid then some down else some up

/-- The coarsest grid with a hit, tried from `10 ^ drop` units down: its digits and its step. On
the finest grid the value itself is a point. -/
def Interval.select (i : Interval) : (drop : Nat) → Nat × Nat
  | 0 => (i.value, 0)
  | drop + 1 =>
    match i.onGrid? (drop + 1) with
    | some digits => (digits, drop + 1)
    | none => i.select drop

def stripZeros (digits : Nat) (exponent : Int) : Nat × Int :=
  if h : digits ≠ 0 ∧ digits % 10 = 0 then stripZeros (digits / 10) (exponent + 1)
  else (digits, exponent)
termination_by digits
decreasing_by omega

def Binary.shortest (b : Binary) : Nat × Int :=
  let i := b.interval
  let (digits, drop) := i.select (digitCount i.value - 1)
  stripZeros digits ((drop : Int) - i.places)

def positional (digits : Nat) (exponent : Int) : List Char :=
  if 0 ≤ exponent then toDigits digits ++ List.replicate exponent.toNat '0'
  else pointed (-exponent).toNat (toDigits digits)

/-- The text of a finite number: the fewest digits that read back, never an exponent, a sign also
for a negative zero. -/
def Binary.text (b : Binary) : List Char :=
  let (digits, exponent) := if b.mantissa = 0 then (0, 0) else b.shortest
  signText b.negative ++ positional digits exponent

def Value.text : Value → List Char
  | .finite b => b.text
  | .infinite negative => signText negative ++ ['i', 'n', 'f']
  | .undefined => ['N', 'a', 'N']

end Simultaneous.Decimal
