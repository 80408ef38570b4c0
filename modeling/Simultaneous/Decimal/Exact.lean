import Simultaneous.Decimal.Digits

/-!
The exact decimal value of a binary floating-point number. A finite value is `± m · 2 ^ e`, and so
a decimal `± n · 10 ^ -s` with natural numbers `n` and `s`; every text of a number is cut from that.
-/

namespace Simultaneous.Decimal

/-- A finite binary number `± mantissa · 2 ^ exponent`. -/
structure Binary where
  negative : Bool
  mantissa : Nat
  exponent : Int
deriving Repr, DecidableEq

inductive Value where
  | finite (value : Binary)
  | infinite (negative : Bool)
  | undefined
deriving Repr, DecidableEq

def isNegativeSign : Float.Model.UnpackedFloat.Sign → Bool
  | .positive => false
  | .negative => true

def Value.ofFloat (x : Float) : Value :=
  match x.toModel.unpack with
  | .infinity sign => .infinite (isNegativeSign sign)
  | .notANumber => .undefined
  | .zero sign => .finite ⟨isNegativeSign sign, 0, 0⟩
  | .finite sign mantissa exponent _ => .finite ⟨isNegativeSign sign, mantissa, exponent⟩

/-- A decimal magnitude `units · 10 ^ -places`. -/
structure Exact where
  units : Nat
  places : Nat
deriving Repr, DecidableEq

/-- The magnitude of a binary number: a factor one half is five tenths. -/
def Binary.exact (b : Binary) : Exact :=
  if 0 ≤ b.exponent then ⟨b.mantissa * Nat.pow 2 b.exponent.toNat, 0⟩
  else ⟨b.mantissa * Nat.pow 5 (-b.exponent).toNat, (-b.exponent).toNat⟩

def Exact.leading (x : Exact) : Int := (digitCount x.units : Int) - 1 - x.places

def Exact.round (x : Exact) (places : Int) : Nat :=
  let shift := places - x.places
  if 0 ≤ shift then x.units * Nat.pow 10 shift.toNat
  else roundHalfEven x.units (Nat.pow 10 (-shift).toNat)

end Simultaneous.Decimal
