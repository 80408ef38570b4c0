import Simultaneous.Line.Error
import Simultaneous.Text.Word

/-!
The tokens of a line in normal text: numbers, words and single marks. A number may have a fraction
and an exponent; an exponent is written out as a power of ten.
-/

namespace Simultaneous.Line

open Text

inductive Token where
  /-- a number as read and as it is written in a residual -/
  | number (read written : List Char)
  | word (w : List Char)
  | mark (c : Char)
deriving Repr, DecidableEq

def Token.read : Token → List Char
  | .number read _ => read
  | .word w => w
  | .mark c => [c]

def takeFraction (s : List Char) : List Char × List Char :=
  match s with
  | '.' :: after =>
    match takeDigits after with
    | ([], _) => ([], s)
    | (digits, rest) => ('.' :: digits, rest)
  | _ => ([], s)

def takeExponent? (s : List Char) : Option (List Char × Bool × List Char × List Char) :=
  match s with
  | 'e' :: after =>
    let (sign, unsigned) := match after with
      | '-' :: rest => (['-'], rest)
      | '+' :: rest => (['+'], rest)
      | _ => ([], after)
    match takeDigits unsigned with
    | ([], _) => none
    | (digits, rest) => some ('e' :: sign ++ digits, sign = ['-'], digits, rest)
  | _ => none

def takeNumber (s : List Char) : Token × List Char :=
  let (whole, afterWhole) := takeDigits s
  let (fraction, afterFraction) := takeFraction afterWhole
  let mantissa := whole ++ fraction
  match takeExponent? afterFraction with
  | none => (.number mantissa mantissa, afterFraction)
  | some (read, negative, digits, rest) =>
    let sign := if negative then ['-'] else []
    (.number (mantissa ++ read)
      ("(".toList ++ mantissa ++ "*10^(".toList ++ sign ++ digits ++ "))".toList), rest)

theorem length_takeFraction_snd (s : List Char) : (takeFraction s).2.length ≤ s.length := by
  unfold takeFraction
  split
  · rename_i after
    have h := length_takeDigits_snd after
    split
    · simp
    · rename_i eq
      rw [eq] at h
      simp only at h ⊢
      exact Nat.le_succ_of_le h
  · simp

theorem length_takeExponent? {s read digits rest : List Char} {negative : Bool}
    (h : takeExponent? s = some (read, negative, digits, rest)) : rest.length ≤ s.length := by
  unfold takeExponent? at h
  split at h
  · rename_i after
    split at h
    rename_i sign unsigned signed
    have shorter : unsigned.length ≤ after.length := by
      split at signed <;> cases signed <;> simp
    have digitsShorter := length_takeDigits_snd unsigned
    split at h
    · simp at h
    · rename_i eq
      rw [eq] at digitsShorter
      simp only [Option.some.injEq, Prod.mk.injEq] at h
      obtain ⟨-, -, -, rfl⟩ := h
      simp only [List.length_cons] at digitsShorter ⊢
      omega
  · simp at h

theorem length_takeNumber (c : Char) (s : List Char) (h : c.isDigit) :
    (takeNumber (c :: s)).2.length ≤ s.length := by
  have whole : (takeDigits (c :: s)).2.length ≤ s.length := by
    simp only [takeDigits, List.dropWhile_cons, h, if_true]
    exact length_takeDigits_snd s
  have fraction := length_takeFraction_snd (takeDigits (c :: s)).2
  unfold takeNumber
  simp only
  split
  · simp only
    omega
  · rename_i eq
    have exponent := length_takeExponent? eq
    simp only
    omega

def tokens (s : List Char) : List Token :=
  match s with
  | [] => []
  | c :: rest =>
    if _ : c.isDigit then
      (takeNumber (c :: rest)).1 :: tokens (takeNumber (c :: rest)).2
    else if _ : c.isAlpha then
      .word (takeWord (c :: rest)).1 :: tokens (takeWord (c :: rest)).2
    else .mark c :: tokens rest
termination_by s.length
decreasing_by
  · rename_i digit
    have := length_takeNumber c rest digit
    simp only [List.length_cons]
    omega
  · rename_i letter
    have : (takeWord (c :: rest)).2.length ≤ rest.length := by
      simp only [takeWord, List.dropWhile_cons, isWordChar, Char.isAlphanum, letter, Bool.true_or,
        if_true]
      exact (List.dropWhile_suffix _).length_le
    simp only [List.length_cons]
    omega
  · simp

end Simultaneous.Line
