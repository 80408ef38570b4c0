import Simultaneous.Decimal.Numeral
import Simultaneous.Name

/-!
Statements of the form `target = SolveODE(derivative, independent, start, end, initial)`. They are
recognized and listed, not integrated.
-/

namespace Simultaneous

open Text Name

structure Differential where
  target : String
  derivative : String
  independent : String
  start : String
  stop : String
  initial : String
  line : String
deriving Repr, DecidableEq

namespace Differential

def text (d : Differential) : String :=
  "d" ++ d.target ++ "/d" ++ d.independent ++ " = " ++ d.derivative ++ ", " ++ d.independent ++
    " from " ++ d.start ++ " to " ++ d.stop ++ ", " ++ d.target ++ "(" ++ d.start ++ ") = " ++
    d.initial

def distinctAnyCase (names : List String) : List String :=
  names.foldl (fun seen name =>
    if seen.any fun s => lowerName s = lowerName name then seen else seen ++ [name]) []

def identifiers (d : Differential) : List String :=
  distinctAnyCase ([d.derivative, d.start, d.stop, d.initial].flatMap identifiersIn)

/-- Where in an argument list a character stands: in quotes or not, and in how many brackets. -/
structure Depth where
  quoted : Bool
  brackets : Nat
deriving Repr, DecidableEq

def Depth.after? (d : Depth) (c : Char) : Option Depth :=
  if c = '"' then some { d with quoted := !d.quoted }
  else if d.quoted then some d
  else if c = '(' ∨ c = '[' then some { d with brackets := d.brackets + 1 }
  else if c = ')' ∨ c = ']' then
    if d.brackets = 0 then none else some { d with brackets := d.brackets - 1 }
  else some d

def splitArguments? (d : Depth) : List Char → Option (List (List Char))
  | [] => if d.brackets = 0 then some [[]] else none
  | c :: rest =>
    if c = ',' ∧ !d.quoted ∧ d.brackets = 0 then (splitArguments? d rest).map ([] :: ·)
    else match d.after? c with
      | none => none
      | some d =>
        match splitArguments? d rest with
        | some (first :: others) => some ((c :: first) :: others)
        | _ => none

/-- The derivative without its quotes; quotes stand around all of it or nowhere. -/
def unquoted? (s : List Char) : Option (List Char) :=
  match s with
  | '"' :: rest =>
    match rest.reverse with
    | '"' :: inner => if inner.contains '"' then none else some (trim inner.reverse)
    | _ => none
  | _ => if s.contains '"' then none else some s

def isBound (s : List Char) : Bool := (Decimal.Numeral.read? s).isSome || isIdentifierChars s

def ofLine? (line : String) : Option Differential := do
  let (target, rest) ← cutAt? '=' line.toList
  let (gap, rest) ← cutAtAnyCase? "solveode".toList rest
  let target := trim target
  guard (isIdentifierChars target && (trim gap).isEmpty)
  let (gap, rest) ← cutAt? '(' rest
  guard (trim gap).isEmpty
  let (body, tail) ← cutAtLast? ')' rest
  guard (trim tail).isEmpty
  let parts ← splitArguments? ⟨false, 0⟩ body
  match parts.map trim with
  | [derivative, independent, start, stop, initial] =>
    let derivative ← unquoted? derivative
    guard (isIdentifierChars independent && isBound start && isBound stop && isBound initial)
    some
      { target := String.ofList target
        derivative := String.ofList derivative
        independent := String.ofList independent
        start := String.ofList start
        stop := String.ofList stop
        initial := String.ofList initial
        line }
  | _ => none

end Differential

end Simultaneous
