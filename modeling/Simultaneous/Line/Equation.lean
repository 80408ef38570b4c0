import Simultaneous.Distinct
import Simultaneous.Line.Normal
import Simultaneous.Line.Token

/-!
The token pass: words of the normal text become canonical function and constant names or unknowns,
and the unknowns are listed in the order in which they first occur.
-/

namespace Simultaneous

open Text Line

structure LineEquation where
  /-- what has to vanish -/
  residual : String
  /-- internal names of the distinct unknowns, by first occurrence -/
  unknowns : List String
deriving Repr, DecidableEq

namespace Line

inductive Meaning where
  /-- text to be written in its place -/
  | fixed (text : String)
  | unknown (name : String)
deriving Repr, DecidableEq

/-- Functions stand before a bracket, all other words do not; no word starts with an underscore. -/
def meaning (word : String) (beforeBracket : Bool) : Except LineError Meaning :=
  if word = "Degree" then .ok (.fixed word)
  else if word.toList.head? = some 'G' then
    .error ⟨.invalidIdentifier, String.ofList (replacePair 'G' 'g' '_' word.toList)⟩
  else match canonicalFunction? word with
    | some name => if beforeBracket then .ok (.fixed name) else .error ⟨.invalidIdentifier, word⟩
    | none =>
      if beforeBracket then .error ⟨.invalidIdentifier, word⟩
      else match canonicalConstant? word with
        | some name => .ok (.fixed name)
        | none => .ok (.unknown word)

def contribution (t : Token) (rest : List Token) :
    Except LineError (List Char × Option String) :=
  match t with
  | .number read written =>
    match rest with
    | .word w :: _ => .error ⟨.numberNextToIdentifier, String.ofList (read ++ w)⟩
    | .mark '.' :: _ => .error (.atChar .invalidDot '.')
    | _ => .ok (written, none)
  | .word w =>
    match meaning (String.ofList w) (rest.head? == some (.mark '(')) with
    | .error e => .error e
    | .ok (.fixed text) => .ok (text.toList, none)
    | .ok (.unknown name) => .ok (name.toList, some name)
  | .mark c => if c = '.' then .error (.atChar .invalidDot c) else .ok ([c], none)

def contributions : List Token → Except LineError (List Char × List String)
  | [] => .ok ([], [])
  | t :: rest =>
    match contribution t rest with
    | .error e => .error e
    | .ok (text, name?) =>
      match contributions rest with
      | .error e => .error e
      | .ok (texts, names) => .ok (text ++ texts, name?.toList ++ names)

end Line

def LineEquation.ofLine (mode : AngleMode) (line : String) :
    Except LineError (Option LineEquation) :=
  match normal mode line.toList with
  | .error e => .error e
  | .ok none => .ok none
  | .ok (some text) =>
    match contributions (tokens text) with
    | .error e => .error e
    | .ok (residual, names) => .ok (some ⟨String.ofList residual, firstOccurrences names⟩)

end Simultaneous
