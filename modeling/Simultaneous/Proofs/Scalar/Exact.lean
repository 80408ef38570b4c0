import Mathlib
import Simultaneous.Scalar.Basic

/-!
Exact arithmetic with partial operations. Sums, differences and products are those of a commutative
ring; a quotient, an absolute value, a power or the value of a function may be missing, and what is
computed from something missing is missing too. Over an ordered field this is the arithmetic in
which laws of expressions are stated.
-/

namespace Simultaneous

open Decimal Scalar

/-- What a ring lacks to be an arithmetic. The operations may be undefined anywhere. -/
structure Arithmetic (V : Type) where
  pi : V
  e : V
  div : V → V → Option V
  abs : V → Option V
  power : V → V → Option V
  apply : Elementary → V → Option V
  lt : V → V → Bool
  le : V → V → Bool
  integral? : V → Option Int

structure Exact {V : Type} (A : Arithmetic V) where
  value? : Option V
deriving DecidableEq

namespace Exact

variable {V : Type} {A : Arithmetic V}

def of (x : V) : Exact A := ⟨some x⟩

def undefined : Exact A := ⟨none⟩

def map (f : V → Option V) (x : Exact A) : Exact A := ⟨x.value?.bind f⟩

def combine (f : V → V → Option V) (x y : Exact A) : Exact A :=
  ⟨x.value?.bind fun a => y.value?.bind (f a)⟩

def compare (p : V → V → Bool) (x y : Exact A) : Bool :=
  x.value?.any fun a => y.value?.any (p a)

theorem of_inj {a b : V} : (of a : Exact A) = of b ↔ a = b := by
  simp [of]

theorem of_ne_undefined (a : V) : (of a : Exact A) ≠ undefined := by
  simp [of, undefined]

theorem eq_undefined_or_of (x : Exact A) : x = undefined ∨ ∃ a, x = of a := by
  obtain ⟨_ | a⟩ := x
  · exact .inl rfl
  · exact .inr ⟨a, rfl⟩

theorem map_eq_of {f : V → Option V} {x : Exact A} {v : V} :
    x.map f = of v ↔ ∃ a, x = of a ∧ f a = some v := by
  obtain ⟨_ | a⟩ := x <;> simp [map, of]

theorem combine_eq_of {f : V → V → Option V} {x y : Exact A} {v : V} :
    combine f x y = of v ↔ ∃ a b, x = of a ∧ y = of b ∧ f a b = some v := by
  obtain ⟨_ | a⟩ := x <;> obtain ⟨_ | b⟩ := y <;> simp [combine, of]

theorem compare_eq_true {p : V → V → Bool} {x y : Exact A} :
    compare p x y = true ↔ ∃ a b, x = of a ∧ y = of b ∧ p a b = true := by
  obtain ⟨_ | a⟩ := x <;> obtain ⟨_ | b⟩ := y <;> simp [compare, of]

variable [CommRing V]

def ofNumeral (n : Numeral) : Exact A :=
  match n.magnitude with
  | .decimal digits exponent =>
    let signed : V := if n.negative then -(digits : V) else digits
    if 0 ≤ exponent then of (signed * 10 ^ exponent.toNat)
    else ⟨A.div signed (10 ^ (-exponent).toNat)⟩
  | .infinite | .undefined => undefined

instance [DecidableEq V] : Scalar (Exact A) where
  add := combine fun a b => some (a + b)
  sub := combine fun a b => some (a - b)
  mul := combine fun a b => some (a * b)
  div := combine A.div
  neg := map fun a => some (-a)
  beq := compare fun a b => a = b
  ofInt n := of n
  ofNumeral := ofNumeral
  pi := of A.pi
  e := of A.e
  undefined := undefined
  lt := compare A.lt
  le := compare A.le
  abs := map A.abs
  power := combine A.power
  apply f := map (A.apply f)
  integral? x := x.value?.bind A.integral?
  special? x := if x.value?.isSome then none else some .undefined

variable [DecidableEq V]

theorem add_eq_of {x y : Exact A} {v : V} :
    x + y = of v ↔ ∃ a b, x = of a ∧ y = of b ∧ a + b = v := by
  refine (combine_eq_of (f := fun a b => some (a + b))).trans ?_
  simp only [Option.some.injEq]

theorem sub_eq_of {x y : Exact A} {v : V} :
    x - y = of v ↔ ∃ a b, x = of a ∧ y = of b ∧ a - b = v := by
  refine (combine_eq_of (f := fun a b => some (a - b))).trans ?_
  simp only [Option.some.injEq]

theorem mul_eq_of {x y : Exact A} {v : V} :
    x * y = of v ↔ ∃ a b, x = of a ∧ y = of b ∧ a * b = v := by
  refine (combine_eq_of (f := fun a b => some (a * b))).trans ?_
  simp only [Option.some.injEq]

theorem div_eq_of {x y : Exact A} {v : V} :
    x / y = of v ↔ ∃ a b, x = of a ∧ y = of b ∧ A.div a b = some v :=
  combine_eq_of

theorem neg_eq_of {x : Exact A} {v : V} : -x = of v ↔ ∃ a, x = of a ∧ -a = v := by
  refine (map_eq_of (f := fun a => some (-a))).trans ?_
  simp only [Option.some.injEq]

theorem abs_eq_of {x : Exact A} {v : V} :
    Scalar.abs x = of v ↔ ∃ a, x = of a ∧ A.abs a = some v :=
  map_eq_of

theorem power_eq_of {x y : Exact A} {v : V} :
    Scalar.power x y = of v ↔ ∃ a b, x = of a ∧ y = of b ∧ A.power a b = some v :=
  combine_eq_of

theorem apply_eq_of {f : Elementary} {x : Exact A} {v : V} :
    Scalar.apply f x = of v ↔ ∃ a, x = of a ∧ A.apply f a = some v :=
  map_eq_of

theorem beq_eq_true {x y : Exact A} : (x == y) = true ↔ ∃ a, x = of a ∧ y = of a := by
  refine compare_eq_true.trans ⟨?_, ?_⟩
  · rintro ⟨a, b, rfl, rfl, same⟩
    exact ⟨a, rfl, by rw [of_decide_eq_true same]⟩
  · rintro ⟨a, rfl, rfl⟩
    exact ⟨a, a, rfl, rfl, decide_eq_true rfl⟩

theorem ofInt_eq (n : Int) : (Scalar.ofInt n : Exact A) = of (n : V) := rfl

theorem zero_eq : (Scalar.zero : Exact A) = of (0 : V) := by
  rw [Scalar.zero, ofInt_eq, Int.cast_zero]

theorem one_eq : (Scalar.one : Exact A) = of (1 : V) := by
  rw [Scalar.one, ofInt_eq, Int.cast_one]

theorem of_add_of (a b : V) : (of a + of b : Exact A) = of (a + b) := rfl

theorem of_sub_of (a b : V) : (of a - of b : Exact A) = of (a - b) := rfl

theorem of_mul_of (a b : V) : (of a * of b : Exact A) = of (a * b) := rfl

theorem neg_of (a : V) : (-of a : Exact A) = of (-a) := rfl

theorem integral?_eq_some {x : Exact A} {n : Int} :
    Scalar.integral? x = some n ↔ ∃ a, x = of a ∧ A.integral? a = some n := by
  obtain ⟨_ | a⟩ := x
  · simp [Scalar.integral?, of]
  · simp [Scalar.integral?, of]

/-! ### Powers by an integer -/

theorem multiplyPower_of (a b : V) (n : Nat) :
    multiplyPower (of a : Exact A) (of b) n = of (a * b ^ n) := by
  induction n using Nat.strongRecOn generalizing a b with
  | ind n ih =>
    have halves : b ^ n = (b * b) ^ (n / 2) * b ^ (n % 2) := by
      rw [← pow_two, ← pow_mul, ← pow_add, Nat.div_add_mod]
    have odd : (if n % 2 = 1 then (of a : Exact A) * of b else of a) = of (a * b ^ (n % 2)) := by
      split
      next one => rw [one, pow_one]; rfl
      next other => rw [Nat.mod_two_ne_one.1 other, pow_zero, mul_one]
    rw [multiplyPower]
    simp only [odd]
    split
    next last => rw [halves, last, pow_zero, one_mul]
    next more =>
      have shorter : n / 2 < n := by omega
      rw [of_mul_of, ih _ shorter, halves]
      congr 1
      ring

theorem multiplyPower_undefined (x : Exact A) {n : Nat} (positive : 0 < n) :
    multiplyPower x undefined n = undefined := by
  have absorbs (y : Exact A) : y * undefined = undefined := by
    obtain rfl | ⟨a, rfl⟩ := y.eq_undefined_or_of <;> rfl
  induction n using Nat.strongRecOn generalizing x with
  | ind n ih =>
    rw [multiplyPower]
    split
    next last => rw [if_pos (by omega), absorbs]
    next more =>
      rw [absorbs undefined]
      exact ih _ (by omega) _ (by omega)

end Exact

def Arithmetic.intPower? {V : Type} [CommRing V] (A : Arithmetic V) (a : V) (n : Int) : Option V :=
  if isShortExponent n then
    if n < 0 then A.div 1 (a ^ n.natAbs) else some (a ^ n.natAbs)
  else A.power a n

namespace Exact

variable {V : Type} [CommRing V] [DecidableEq V] {A : Arithmetic V}

theorem intPower_of (a : V) (n : Int64) :
    intPower (of a : Exact A) n = ⟨A.intPower? a n.toInt⟩ := by
  unfold intPower Arithmetic.intPower?
  simp only [one_eq, multiplyPower_of, one_mul]
  split
  next => split <;> rfl
  next => rfl

theorem intPower_undefined {n : Int64} (n_ne : n ≠ 0) :
    intPower (undefined : Exact A) n = undefined := by
  have positive : 0 < n.toInt.natAbs := by
    rw [Int.natAbs_pos, ← Int64.toInt_zero]
    exact fun same => n_ne (Int64.toInt_inj.1 same)
  unfold intPower
  simp only [multiplyPower_undefined _ positive]
  split
  next => split <;> rfl
  next => rfl

/-- A power by zero is one even of what has no value. -/
theorem intPower_eq_of {x : Exact A} {n : Int64} {v : V} :
    intPower x n = of v ↔ (n = 0 ∧ v = 1) ∨ ∃ a, x = of a ∧ A.intPower? a n.toInt = some v := by
  have zero (a : V) : A.intPower? a (0 : Int64).toInt = some 1 := by
    simp [Arithmetic.intPower?, isShortExponent]
  obtain rfl | ⟨a, rfl⟩ := x.eq_undefined_or_of
  · by_cases none : n = 0
    · subst none
      have one : intPower (undefined : Exact A) 0 = of 1 := by
        unfold intPower
        simp [isShortExponent, multiplyPower, one_eq]
      rw [one, of_inj]
      simp [(of_ne_undefined _).symm, eq_comm]
    · simp [intPower_undefined none, none, (of_ne_undefined _).symm]
  · have value : intPower (of a : Exact A) n = of v ↔ A.intPower? a n.toInt = some v := by
      rw [intPower_of, of, Exact.mk.injEq]
    rw [value]
    constructor
    · exact fun power => .inr ⟨a, rfl, power⟩
    · rintro (⟨rfl, rfl⟩ | ⟨b, same, power⟩)
      · exact zero a
      · rwa [of_inj.1 same]

end Exact

end Simultaneous
