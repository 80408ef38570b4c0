import Simultaneous.Decimal.Numeral
import Simultaneous.Text.Blank
import Simultaneous.Text.Comment

/-!
Scripts: equation lines, then perhaps a marker line and starting values, then perhaps another
marker line and text that is ignored. Comments are taken out first, and all line numbers are those
of the text with its comments.
-/

namespace Simultaneous

open Text

inductive ScriptError where
  | startingValue (line : Nat) (text : String)
  | unterminatedComment (line : Nat)
deriving Repr, DecidableEq

namespace ScriptError

def message : ScriptError → String
  | startingValue line text =>
    "line " ++ Nat.repr line ++ ": invalid initial value '" ++ text ++ "'"
  | unterminatedComment line => "unterminated comment starting on line " ++ Nat.repr line

end ScriptError

structure Script where
  /-- equation lines without blanks at their ends, with their numbers -/
  lines : List (Nat × String)
  /-- starting values in their order -/
  starts : List (String × Decimal.Numeral)
deriving Repr, DecidableEq

namespace Script

def endOfEquations : List Char := "@$@%@EndOfEquationData@$@%@".toList

def endOfStarts : List Char := "@$@%@EndOfInitialVariableValueData@$@%@".toList

inductive Part where
  | equations
  | starts
deriving Repr, DecidableEq

def startOf? (line : List Char) : Option (String × Decimal.Numeral) :=
  ((cutAt? '=' line).or (cutWhere? isBlank line)).bind fun (name, value) =>
    let name := trim name
    if name.isEmpty then none
    else (Decimal.Numeral.read? (trim value)).map fun n => (String.ofList name, n)

def addLine (number : Nat) (line : List Char) (s : Script) : Script :=
  { s with lines := (number, String.ofList line) :: s.lines }

def addStart (start : String × Decimal.Numeral) (s : Script) : Script :=
  { s with starts := start :: s.starts }

def ofLines : Part → List (Nat × List Char) → Except ScriptError Script
  | _, [] => .ok ⟨[], []⟩
  | .equations, (number, line) :: rest =>
    if line = endOfEquations then ofLines .starts rest
    else if line = endOfStarts then .ok ⟨[], []⟩
    else (ofLines .equations rest).map (addLine number line)
  | .starts, (number, line) :: rest =>
    if line = endOfStarts then .ok ⟨[], []⟩
    else if line.isEmpty then ofLines .starts rest
    else match startOf? line with
      | none => .error (.startingValue number (String.ofList line))
      | some start => (ofLines .starts rest).map (addStart start)

def numbered (text : List Char) : List (Nat × List Char) :=
  ((Text.lines text).zipIdx 1).map fun (line, number) => (number, trim line)

def ofText (text : String) : Except ScriptError Script :=
  match Comment.strip 1 text.toList with
  | .error line => .error (.unterminatedComment line)
  | .ok plain => ofLines .equations (numbered plain)

end Script

end Simultaneous
