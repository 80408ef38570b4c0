import Simultaneous.Line.Bracket
import Simultaneous.Line.Error
import Simultaneous.Text.Blank
import Simultaneous.Text.Word

/-!
The character pass over an equation line. It drops blanks, lowers letters, checks what may stand
next to what, and writes the line `A = B` as `A-1*(B)` with round brackets only, `_` as `Gg`, the
decimal comma as a point, a product sign before a bracket that follows a number or a bracket, and
the conversion from degrees around trigonometric arguments.
-/

namespace Simultaneous.Line

open Text

def isOperator (c : Char) : Bool :=
  ['*', '/', '=', '+', '-', '!', '.', ',', '^'].contains c

def isOpener (c : Char) : Bool := c == '(' || c == '['

def isCloser (c : Char) : Bool := c == ')' || c == ']'

def isSpace (c : Char) : Bool := c == ' ' || c == '\t'

def isAllowed (c : Char) : Bool :=
  isWordChar c || isOperator c || isOpener c || isCloser c || c == '_' || isSpace c

def isSign (c : Char) : Bool := c == '+' || c == '-'

def isSeparator (c : Char) : Bool := c == '.' || c == ','

def takesSign (c : Char) : Bool := ['^', '*', '/', '(', '[', '=', '-', '+'].contains c

/-- The state of the pass: what was written, the last character first; the open brackets; whether
the equality sign was seen; the last character read. -/
structure Pass where
  written : List Char
  brackets : OpenBrackets
  equality : Bool
  previous : Option Char
deriving Repr, DecidableEq

namespace Pass

def start : Pass := ⟨[], [], false, none⟩

def lastWord (p : Pass) : List Char := (p.written.takeWhile isWordChar).reverse

def endsWithNumber (p : Pass) : Bool := p.lastWord.head?.any Char.isDigit

def write (p : Pass) (s : String) : Pass := { p with written := s.toList.reverse ++ p.written }

def bracketKind (mode : AngleMode) (p : Pass) : Bracket :=
  let word := String.ofList p.lastWord
  if (canonicalFunction? word).isNone then .plain
  else if mode = .degrees ∧ word ∈ trigonometric then .degrees
  else .call

end Pass

def besideFault? (p c : Char) : Option LineError :=
  if isCloser c && isOpener p then some (.atChar .emptyBrackets c)
  else if isOpener p && ['*', '/', '^', '!'].contains c then some (.atChar .unexpectedOperator c)
  else if isOperator p && isCloser c then some (.atChar .missingOperand p)
  else none

def doubledFault? (p c : Char) : Option LineError :=
  if isOperator c && isOperator p && !(isSign c && takesSign p) then
    some (.atChar .doubledOperator c)
  else none

def fault? (p : Pass) (c : Char) : Option LineError :=
  (p.previous.bind (besideFault? · c)) <|>
  (if isSeparator c && !p.previous.any Char.isDigit then some (.atChar .invalidDot c) else none) <|>
  (if c == '=' && p.equality then some (.atChar .unexpectedOperator c) else none) <|>
  (p.previous.bind (doubledFault? · c))

/-- A bracket right after a bracket or a number multiplies. -/
def openBracket (mode : AngleMode) (p : Pass) : Pass :=
  let p := if p.previous.any isCloser || p.endsWithNumber then p.write "*" else p
  let kind := p.bracketKind mode
  { p.write kind.opener with brackets := p.brackets.push kind }

def emit (mode : AngleMode) (p : Pass) (c : Char) : Except LineError Pass :=
  if c = '=' then .ok { p.write "-1*(" with equality := true }
  else if c = '_' then .ok (p.write "Gg")
  else if c = ',' then .ok (p.write ".")
  else if isOpener c then .ok (openBracket mode p)
  else if isCloser c then
    match p.brackets.pop? with
    | none => .error (.atChar .bracketMismatch c)
    | some (kind, rest) => .ok { p.write kind.closer with brackets := rest }
  else .ok (p.write (String.singleton c))

def step (mode : AngleMode) (p : Pass) (raw : Char) : Except LineError Pass :=
  if !isAllowed raw then .error (.atChar .illegalCharacter raw)
  else if isSpace raw then .ok p
  else
    let c := raw.toLower
    match fault? p c with
    | some e => .error e
    | none => (emit mode p c).map fun q => { q with previous := some c }

def run (mode : AngleMode) (p : Pass) : List Char → Except LineError Pass
  | [] => .ok p
  | c :: rest =>
    match step mode p c with
    | .error e => .error e
    | .ok q => run mode q rest

def Pass.finish (p : Pass) (line : List Char) : Except LineError (Option (List Char)) :=
  match p.previous with
  | none => .ok none
  | some last =>
    if isOperator last then .error (.atChar .missingOperand last)
    else if !p.brackets.isBalanced then .error ⟨.bracketMismatch, "("⟩
    else if !p.equality then .error ⟨.missingEquality, String.ofList (trim line)⟩
    else .ok (some (p.write ")").written.reverse)

/-- The normal text `A-1*(B)` of a line `A = B`, or nothing for a blank line. -/
def normal (mode : AngleMode) (line : List Char) : Except LineError (Option (List Char)) :=
  match run mode .start line with
  | .error e => .error e
  | .ok p => p.finish line

end Simultaneous.Line
