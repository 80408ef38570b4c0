import Simultaneous.Name
import Simultaneous.Property.Table

/-!
Lines that call a property, such as `Water.Density(rho, T)`. They state that the first argument is
the formula of the property with the other arguments in the places of its parameters.
-/

namespace Simultaneous

open Text

inductive CallError where
  | malformed (line : String)
  | unknownProperty (substance property : String)
  | argumentCount (substance property : String) (expected got : Nat) (parameters : List String)
  | noOutput (line : String)
deriving Repr, DecidableEq

namespace CallError

def message : CallError → String
  | malformed line => "could not parse substance/property call: " ++ line
  | unknownProperty substance property => "unknown property " ++ substance ++ "." ++ property
  | argumentCount substance property expected got parameters =>
    substance ++ "." ++ property ++ " expects " ++ Nat.repr expected ++ " arguments (" ++
      ",".intercalate parameters ++ "), got " ++ Nat.repr got
  | noOutput line => "property call has no output variable: " ++ line

end CallError

namespace PropertyFormula

/-- Changes every run of letters, digits and underscores; `word` holds the current one, its last
character first. -/
def mapRuns (change : List Char → List Char) (word : List Char) : List Char → List Char
  | [] => change word.reverse
  | c :: rest =>
    if Name.isNameChar c then mapRuns change (c :: word) rest
    else change word.reverse ++ c :: mapRuns change [] rest

/-- The argument for a word: that of the first parameter with this name in any case. Words that
start with a digit or an underscore are no names. -/
def argumentFor? (bindings : List (String × List Char)) (word : List Char) : Option (List Char) :=
  if word.head?.any Char.isAlpha then
    (bindings.find? fun (name, _) => lower name.toList = lower word).map (·.2)
  else none

def apply (f : PropertyFormula) (arguments : List (List Char)) : List Char :=
  let bindings := f.parameters.zip arguments
  mapRuns (fun word => match argumentFor? bindings word with
    | some argument => '(' :: argument ++ [')']
    | none => word) [] f.formula.toList

end PropertyFormula

structure PropertyCall where
  substance : String
  property : String
  output : List Char
  inputs : List (List Char)
deriving Repr, DecidableEq

namespace PropertyCall

def cutArguments? (s : List Char) : Option (List Char × List Char) :=
  (cutAt? '(' s).bind fun (before, rest) =>
    if rest.getLast? = some ')' then some (before, rest.dropLast) else none

def read (line : List Char) (substance : String) (rest : List Char) :
    Except CallError PropertyCall :=
  match cutArguments? rest with
  | none => .error (.malformed (String.ofList line))
  | some (property, arguments) =>
    let property := trim property
    let arguments := (pieces (· == ',') arguments).map trim
    if property.isEmpty then .error (.malformed (String.ofList line))
    else if arguments.all List.isEmpty then .error (.noOutput (String.ofList line))
    else if arguments.any List.isEmpty then .error (.malformed (String.ofList line))
    else match arguments with
      | [] => .error (.noOutput (String.ofList line))
      | output :: inputs => .ok ⟨substance, String.ofList property, output, inputs⟩

def equation (c : PropertyCall) (t : PropertyTable) : Except CallError (List Char) :=
  match t.find? c.substance c.property with
  | none => .error (.unknownProperty c.substance c.property)
  | some f =>
    if c.inputs.length = f.parameters.length then .ok (c.output ++ '=' :: f.apply c.inputs)
    else .error (.argumentCount c.substance c.property (f.parameters.length + 1)
      (c.inputs.length + 1) f.parameters)

end PropertyCall

/-- The equation that a line states by a call; nothing for lines that do not start with a
substance and a point. -/
def PropertyTable.substitute (t : PropertyTable) (line : String) :
    Except CallError (Option String) :=
  let s := trim line.toList
  match cutAt? '.' s with
  | none => .ok none
  | some (substance, rest) =>
    let substance := String.ofList (trim substance)
    if substance.isEmpty || !t.hasSubstance substance then .ok none
    else match PropertyCall.read s substance rest with
      | .error e => .error e
      | .ok call => (call.equation t).map fun text => some (String.ofList text)

end Simultaneous
