import Simultaneous.Decimal.Numeral
import Simultaneous.Formula.Error
import Simultaneous.Text.Quoted

/-!
Tokens of residual text. The text is first cut into pieces: literals, quoted texts, blanks and
single marks; comments vanish, and literals on both sides of one join. Pieces then become tokens,
where two or three marks may make one operator and a literal may go on beyond a sign, as `1e-5`.
-/

namespace Simultaneous.Formula

open Decimal Text

inductive Piece where
  | literal (s : List Char)
  | quoted (s : List Char)
  | blank
  | mark (c : Char)
deriving Repr, DecidableEq

def Piece.shown : Piece → String
  | literal s => String.ofList s
  | quoted s => Text.quoted (String.ofList s)
  | blank => " "
  | mark c => String.singleton c

def isMark (c : Char) : Bool :=
  ['+', '-', '*', '/', '%', '^', '=', '!', '>', '<', '&', '|', '(', ')', ',', ';'].contains c

def attach (c : Char) : List Piece → List Piece
  | .literal s :: rest => .literal (c :: s) :: rest
  | rest => .literal [c] :: rest

def Piece.ofChar (c : Char) : List Piece → List Piece :=
  if isMark c then (.mark c :: ·)
  else if isBlank c then (.blank :: ·)
  else attach c

inductive Place where
  | plain
  /-- in a comment up to the end of the line -/
  | lineComment
  | comment
  /-- in a quoted text, with its characters so far, the last one first -/
  | quoted (s : List Char)
deriving Repr, DecidableEq

def piecesFrom : Place → List Char → Except FormulaError (List Piece)
  | .plain, [] => .ok []
  | .plain, '/' :: '/' :: rest => piecesFrom .lineComment rest
  | .plain, '/' :: '*' :: rest => piecesFrom .comment rest
  | .plain, '"' :: rest => piecesFrom (.quoted []) rest
  | .plain, c :: rest => (piecesFrom .plain rest).map (Piece.ofChar c)
  | .lineComment, [] => .ok []
  | .lineComment, c :: rest => piecesFrom (if c = '\n' then .plain else .lineComment) rest
  | .comment, [] => .error .unmatchedComment
  | .comment, '*' :: '/' :: rest => piecesFrom .plain rest
  | .comment, _ :: rest => piecesFrom .comment rest
  | .quoted _, [] => .error .unmatchedQuote
  | .quoted s, '"' :: rest => (piecesFrom .plain rest).map (.quoted s.reverse :: ·)
  | .quoted _, ['\\'] => .error (.illegalEscape "\\")
  | .quoted s, '\\' :: c :: rest =>
    if c = '"' ∨ c = '\\' then piecesFrom (.quoted (c :: s)) rest
    else .error (.illegalEscape (String.ofList ['\\', c]))
  | .quoted s, c :: rest => piecesFrom (.quoted (c :: s)) rest

def pieces (s : List Char) : Except FormulaError (List Piece) := piecesFrom .plain s

inductive Token where
  | number (n : Numeral)
  | text (s : String)
  | truth (b : Bool)
  | identifier (name : String)
  | opener
  | closer
  | comma
  | semicolon
  | plus | minus | star | slash | percent | hat
  | eq | neq | gt | lt | geq | leq | and | or | not
  | assign | plusAssign | minusAssign | starAssign | slashAssign | percentAssign | hatAssign
  | andAssign | orAssign
deriving Repr, DecidableEq

def single? (c : Char) : Option Token :=
  match c with
  | '+' => some .plus
  | '-' => some .minus
  | '*' => some .star
  | '/' => some .slash
  | '%' => some .percent
  | '^' => some .hat
  | '=' => some .assign
  | '!' => some .not
  | '>' => some .gt
  | '<' => some .lt
  | '(' => some .opener
  | ')' => some .closer
  | ',' => some .comma
  | ';' => some .semicolon
  | _ => none

def beforeEquals? (c : Char) : Option Token :=
  match c with
  | '+' => some .plusAssign
  | '-' => some .minusAssign
  | '*' => some .starAssign
  | '/' => some .slashAssign
  | '%' => some .percentAssign
  | '^' => some .hatAssign
  | '=' => some .eq
  | '!' => some .neq
  | '>' => some .geq
  | '<' => some .leq
  | _ => none

def hexDigit? (c : Char) : Option Nat :=
  if c.isDigit then some (c.toNat - 48)
  else if 'a' ≤ c ∧ c ≤ 'f' then some (c.toNat - 87)
  else if 'A' ≤ c ∧ c ≤ 'F' then some (c.toNat - 55)
  else none

def hexNumber? (digits : List Char) : Option Nat :=
  if digits.isEmpty then none
  else (digits.foldlM (fun n c => (hexDigit? c).map (16 * n + ·)) 0).filter (· < Nat.pow 2 63)

def literalToken? (s : List Char) : Option Token :=
  let hex := match s with
    | '0' :: 'x' :: digits => (hexNumber? digits).map fun n => Token.number (.ofNat n)
    | _ => none
  hex <|> (Numeral.read? s).map .number <|>
    (if s = "true".toList then some (.truth true)
     else if s = "false".toList then some (.truth false)
     else none)

def tokens : List Piece → Except FormulaError (List Token)
  | [] => .ok []
  | .blank :: rest => tokens rest
  | .quoted s :: rest => (tokens rest).map (.text (String.ofList s) :: ·)
  | .literal s :: .mark sign :: .literal more :: rest =>
    match literalToken? s with
    | some t => (tokens (.mark sign :: .literal more :: rest)).map (t :: ·)
    | none =>
      let joined := if sign = '+' ∨ sign = '-' then Numeral.read? (s ++ sign :: more) else none
      match joined with
      | some n => (tokens rest).map (.number n :: ·)
      | none =>
        (tokens (.mark sign :: .literal more :: rest)).map (.identifier (String.ofList s) :: ·)
  | .literal s :: rest =>
    (tokens rest).map (((literalToken? s).getD (.identifier (String.ofList s))) :: ·)
  | .mark '&' :: .mark '&' :: .mark '=' :: rest => (tokens rest).map (.andAssign :: ·)
  | .mark '&' :: .mark '&' :: rest => (tokens rest).map (.and :: ·)
  | .mark '|' :: .mark '|' :: .mark '=' :: rest => (tokens rest).map (.orAssign :: ·)
  | .mark '|' :: .mark '|' :: rest => (tokens rest).map (.or :: ·)
  | .mark c :: .mark '=' :: rest =>
    match beforeEquals? c with
    | some t => (tokens rest).map (t :: ·)
    | none =>
      match single? c with
      | some t => (tokens (.mark '=' :: rest)).map (t :: ·)
      | none => .error (.unmatchedPiece (String.singleton c) (some "="))
  | .mark c :: rest =>
    match single? c with
    | some t => (tokens rest).map (t :: ·)
    | none => .error (.unmatchedPiece (String.singleton c) (rest.head?.map Piece.shown))

def tokenize (text : String) : Except FormulaError (List Token) :=
  match pieces text.toList with
  | .error e => .error e
  | .ok ps => tokens ps

end Simultaneous.Formula
