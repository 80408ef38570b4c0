/-!
What can be wrong with an equation line, with the text that is to blame.
-/

namespace Simultaneous

inductive LineFault where
  | illegalCharacter
  | unexpectedOperator
  | doubledOperator
  | invalidDot
  | missingEquality
  | bracketMismatch
  | emptyBrackets
  | numberNextToIdentifier
  | missingOperand
  | invalidIdentifier
deriving Repr, DecidableEq

namespace LineFault

/-- The number under which a fault is reported; zero is kept for success. -/
def code : LineFault → Nat
  | illegalCharacter => 1
  | unexpectedOperator => 2
  | doubledOperator => 3
  | invalidDot => 4
  | missingEquality => 5
  | bracketMismatch => 6
  | emptyBrackets => 7
  | numberNextToIdentifier => 8
  | missingOperand => 9
  | invalidIdentifier => 10

def description : LineFault → String
  | illegalCharacter => "illegal character"
  | unexpectedOperator => "unexpected operator"
  | doubledOperator => "two consecutive operators"
  | invalidDot => "misplaced decimal separator"
  | missingEquality => "missing equality sign"
  | bracketMismatch => "brackets do not match"
  | emptyBrackets => "empty brackets"
  | numberNextToIdentifier => "number written next to an identifier"
  | missingOperand => "operator without operand"
  | invalidIdentifier => "invalid identifier"

end LineFault

structure LineError where
  fault : LineFault
  offending : String
deriving Repr, DecidableEq

namespace LineError

def atChar (fault : LineFault) (c : Char) : LineError := ⟨fault, String.singleton c⟩

def message (e : LineError) : String :=
  if e.offending.isEmpty then e.fault.description
  else e.fault.description ++ " '" ++ e.offending ++ "'"

end LineError

end Simultaneous
