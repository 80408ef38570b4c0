import Simultaneous.Scalar.Basic

/-!
Exact arithmetic of rational numbers, in which the definitions of the library can be evaluated.
What is not rational, from a quotient by zero to the value of an elementary function, is
undefined and differs even from itself.
-/

namespace Simultaneous

open Decimal

structure Rational where
  value? : Option Rat
deriving Repr, DecidableEq

namespace Rational

def ofRat (x : Rat) : Rational := ⟨some x⟩

def undefined : Rational := ⟨none⟩

def map (f : Rat → Rat) (x : Rational) : Rational := ⟨x.value?.map f⟩

def combine (f : Rat → Rat → Option Rat) (x y : Rational) : Rational :=
  match x.value?, y.value? with
  | some a, some b => ⟨f a b⟩
  | _, _ => undefined

def compare (p : Rat → Rat → Bool) (x y : Rational) : Bool :=
  match x.value?, y.value? with
  | some a, some b => p a b
  | _, _ => false

def integral? (x : Rational) : Option Int :=
  x.value?.bind fun a => if a.den = 1 then some a.num else none

def ofNumeral (n : Numeral) : Rational :=
  match n.magnitude with
  | .decimal digits exponent =>
    let magnitude : Rat := digits * (10 : Rat) ^ exponent
    ofRat (if n.negative then -magnitude else magnitude)
  | .infinite | .undefined => undefined

def power (x y : Rational) : Rational :=
  match x.value?, y.integral? with
  | some a, some n => if a = 0 ∧ n < 0 then undefined else ofRat (a ^ n)
  | _, _ => undefined

end Rational

instance : Scalar Rational where
  add := .combine fun a b => some (a + b)
  sub := .combine fun a b => some (a - b)
  mul := .combine fun a b => some (a * b)
  div := .combine fun a b => if b = 0 then none else some (a / b)
  neg := .map (-·)
  beq := Rational.compare fun a b => a = b
  ofInt n := .ofRat n
  ofNumeral := .ofNumeral
  pi := .undefined
  e := .undefined
  undefined := .undefined
  lt := Rational.compare fun a b => a < b
  le := Rational.compare fun a b => a ≤ b
  abs := .map fun a => if a < 0 then -a else a
  power := .power
  apply _ _ := .undefined
  integral? := Rational.integral?
  special? x := if x.value?.isSome then none else some .undefined

end Simultaneous
