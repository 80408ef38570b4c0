import Simultaneous.Json.Value

/-!
Reading JSON text, strictly: no comments, no trailing commas, no leading zeros or plus signs, no
control characters in strings, and nothing but white space after the value.
-/

namespace Simultaneous.Json

open Decimal

def isSpace (c : Char) : Bool := c == ' ' || c == '\t' || c == '\n' || c == '\r'

def skip (s : List Char) : List Char := s.dropWhile isSpace

def takeDigits? (s : List Char) : Option (List Char × List Char) :=
  match s.takeWhile Char.isDigit with
  | [] => none
  | digits => some (digits, s.dropWhile Char.isDigit)

def takeFraction? : List Char → Option (Option (List Char) × List Char)
  | '.' :: rest => (takeDigits? rest).map fun (digits, rest) => (some digits, rest)
  | s => some (none, s)

def takeExponent? : List Char → Option (Option (Bool × List Char) × List Char)
  | c :: rest =>
    if c = 'e' ∨ c = 'E' then
      let (negative, rest) := match rest with
        | '-' :: rest => (true, rest)
        | '+' :: rest => (false, rest)
        | _ => (false, rest)
      (takeDigits? rest).map fun (digits, rest) => (some (negative, digits), rest)
    else some (none, c :: rest)
  | [] => some (none, [])

def takeLiteral? (s : List Char) : Option (Literal × List Char) := do
  let (negative, s) := match s with
    | '-' :: rest => (true, rest)
    | _ => (false, s)
  let (whole, s) ← match s with
    | '0' :: rest => if rest.head?.any Char.isDigit then none else some (['0'], rest)
    | _ => takeDigits? s
  let (fraction, s) ← takeFraction? s
  let (exponent, s) ← takeExponent? s
  some (⟨negative, whole, fraction, exponent⟩, s)

def hexValue? (c : Char) : Option Nat :=
  if c.isDigit then some (digitValue c)
  else if 'a' ≤ c ∧ c ≤ 'f' then some (c.toNat - 87)
  else if 'A' ≤ c ∧ c ≤ 'F' then some (c.toNat - 55)
  else none

def takeUnit? : List Char → Option (Nat × List Char)
  | a :: b :: c :: d :: rest => do
    let a ← hexValue? a
    let b ← hexValue? b
    let c ← hexValue? c
    let d ← hexValue? d
    some (((a * 16 + b) * 16 + c) * 16 + d, rest)
  | _ => none

def escaped? (c : Char) : Option Char :=
  match c with
  | '"' => some '"'
  | '\\' => some '\\'
  | '/' => some '/'
  | 'b' => some '\x08'
  | 'f' => some '\x0c'
  | 'n' => some '\n'
  | 'r' => some '\r'
  | 't' => some '\t'
  | _ => none

/-- One unit of a string's content: a character, or a 16-bit unit from an escape. -/
inductive Piece where
  | char (c : Char)
  | unit (n : Nat)

def takeString? : (fuel : Nat) → List Char → Option (List Piece × List Char)
  | 0, _ => none
  | fuel + 1, s =>
    match s with
    | '"' :: rest => some ([], rest)
    | '\\' :: 'u' :: rest => do
      let (n, rest) ← takeUnit? rest
      let (pieces, rest) ← takeString? fuel rest
      some (.unit n :: pieces, rest)
    | '\\' :: c :: rest => do
      let c ← escaped? c
      let (pieces, rest) ← takeString? fuel rest
      some (.char c :: pieces, rest)
    | c :: rest =>
      if c.toNat < 32 ∨ c = '\\' then none
      else do
        let (pieces, rest) ← takeString? fuel rest
        some (.char c :: pieces, rest)
    | [] => none

/-- Joins surrogate pairs; nothing if half of one is left over. -/
def join? : List Piece → Option (List Char)
  | [] => some []
  | .char c :: rest => (join? rest).map (c :: ·)
  | .unit n :: rest =>
    if 0xD800 ≤ n ∧ n < 0xDC00 then
      match rest with
      | .unit m :: rest =>
        if 0xDC00 ≤ m ∧ m < 0xE000 then
          (join? rest).map (Char.ofNat (0x10000 + (n - 0xD800) * 1024 + (m - 0xDC00)) :: ·)
        else none
      | _ => none
    else if 0xDC00 ≤ n ∧ n < 0xE000 then none
    else (join? rest).map (Char.ofNat n :: ·)

def stringAfterQuote? (s : List Char) : Option (Option String × List Char) :=
  (takeString? (s.length + 1) s).map fun (pieces, rest) => ((join? pieces).map String.ofList, rest)

def dropWord? (word : String) (s : List Char) : Option (List Char) :=
  if word.toList.isPrefixOf s then some (s.drop word.length) else none

mutual

def takeValue? : (fuel : Nat) → List Char → Option (Json × List Char)
  | 0, _ => none
  | fuel + 1, s =>
    match s with
    | '"' :: rest => (stringAfterQuote? rest).map fun (text, rest) => (.string text, rest)
    | '[' :: rest =>
      match skip rest with
      | ']' :: rest => some (.array [], rest)
      | rest => (takeItems? fuel rest).map fun (items, rest) => (.array items, rest)
    | '{' :: rest =>
      match skip rest with
      | '}' :: rest => some (.object [], rest)
      | rest => (takeMembers? fuel rest).map fun (members, rest) => (.object members, rest)
    | 'n' :: _ => (dropWord? "null" s).map fun rest => (.null, rest)
    | 't' :: _ => (dropWord? "true" s).map fun rest => (.bool true, rest)
    | 'f' :: _ => (dropWord? "false" s).map fun rest => (.bool false, rest)
    | _ => (takeLiteral? s).map fun (l, rest) => (.number l, rest)

def takeItems? : (fuel : Nat) → List Char → Option (List Json × List Char)
  | 0, _ => none
  | fuel + 1, s => do
    let (item, rest) ← takeValue? fuel s
    match skip rest with
    | ',' :: rest =>
      let (items, rest) ← takeItems? fuel (skip rest)
      some (item :: items, rest)
    | ']' :: rest => some ([item], rest)
    | _ => none

def takeMembers? : (fuel : Nat) → List Char → Option (List (Option String × Json) × List Char)
  | 0, _ => none
  | fuel + 1, s =>
    match s with
    | '"' :: rest => do
      let (key?, rest) ← stringAfterQuote? rest
      match skip rest with
      | ':' :: rest =>
        let (value, rest) ← takeValue? fuel (skip rest)
        match skip rest with
        | ',' :: rest =>
          let (members, rest) ← takeMembers? fuel (skip rest)
          some ((key?, value) :: members, rest)
        | '}' :: rest => some ([(key?, value)], rest)
        | _ => none
      | _ => none
    | _ => none

end

def read? (text : String) : Option Json :=
  let s := text.toList
  (takeValue? (s.length + 1) (skip s)).bind fun (value, rest) =>
    if (skip rest).isEmpty then some value else none

end Simultaneous.Json
