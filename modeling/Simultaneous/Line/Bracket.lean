import Simultaneous.Elementary

/-!
The open brackets of a line. Round and square brackets are one kind of character here; what was
recorded when a bracket was opened decides what its closer writes.
-/

namespace Simultaneous

inductive Bracket where
  /-- grouping -/
  | plain
  /-- the argument of a call -/
  | call
  /-- the argument of a trigonometric call, to be converted from degrees -/
  | degrees
deriving Repr, DecidableEq

namespace Bracket

def opener : Bracket → String
  | plain | call => "("
  | degrees => "(Degree*("

def closer : Bracket → String
  | plain | call => ")"
  | degrees => "))"

end Bracket

abbrev OpenBrackets := List Bracket

namespace OpenBrackets

def push (open_ : OpenBrackets) (b : Bracket) : OpenBrackets := b :: open_

def pop? : OpenBrackets → Option (Bracket × OpenBrackets)
  | [] => none
  | b :: rest => some (b, rest)

def isBalanced (open_ : OpenBrackets) : Bool := open_.isEmpty

def underflowMessage : String := "closing bracket without a matching opener"

end OpenBrackets

end Simultaneous
