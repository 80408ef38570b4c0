/-!
Decimal digits of natural numbers: writing, counting and reading them, and rounding a quotient to
the nearest natural number with ties to the even one.
-/

namespace Simultaneous.Decimal

def digitChar (d : Nat) : Char := Char.ofNat (48 + d)

def digitValue (c : Char) : Nat := c.toNat - 48

def toDigits (n : Nat) : List Char :=
  if n < 10 then [digitChar n] else toDigits (n / 10) ++ [digitChar (n % 10)]
termination_by n

def digitCount (n : Nat) : Nat :=
  if n < 10 then 1 else digitCount (n / 10) + 1
termination_by n

def ofDigits (cs : List Char) : Nat :=
  cs.foldl (fun n c => 10 * n + digitValue c) 0

def roundHalfEven (num den : Nat) : Nat :=
  let q := num / den
  let r := num % den
  if 2 * r < den then q
  else if den < 2 * r then q + 1
  else if q % 2 = 0 then q else q + 1

theorem digitValue_digitChar {d : Nat} (h : d < 10) : digitValue (digitChar d) = d := by
  have cases : d = 0 ∨ d = 1 ∨ d = 2 ∨ d = 3 ∨ d = 4 ∨ d = 5 ∨ d = 6 ∨ d = 7 ∨ d = 8 ∨ d = 9 := by
    omega
  rcases cases with h | h | h | h | h | h | h | h | h | h <;> subst h <;> decide

theorem ofDigits_append (a b : List Char) :
    ofDigits (a ++ b) = b.foldl (fun n c => 10 * n + digitValue c) (ofDigits a) := by
  simp [ofDigits, List.foldl_append]

theorem ofDigits_toDigits (n : Nat) : ofDigits (toDigits n) = n := by
  induction n using Nat.strongRecOn with
  | _ n ih =>
    rw [toDigits]
    split
    · rename_i small
      simp [ofDigits, digitValue_digitChar small]
    · rename_i large
      rw [ofDigits_append, ih (n / 10) (by omega)]
      simp only [List.foldl_cons, List.foldl_nil]
      rw [digitValue_digitChar (Nat.mod_lt _ (by decide))]
      omega

end Simultaneous.Decimal
