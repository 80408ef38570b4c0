import Simultaneous.Expr.Code
import Simultaneous.Expr.Derivative
import Simultaneous.Expr.OfFormula

/-!
Residuals: expressions that have to vanish, read from text, and what can go wrong with them.
-/

namespace Simultaneous

inductive EquationError where
  | formula (e : FormulaError)
  | conversion (e : ConversionError)
  | build (e : BuildError)
  | inputLength (expected got : Nat)
  | outputLength (expected got : Nat)
deriving Repr, DecidableEq

namespace EquationError

def lengthText (expected got : Nat) : String :=
  "expected " ++ ConversionError.count expected ++ ", got " ++ ConversionError.count got

def message : EquationError → String
  | formula e => "Failed to build Evalexpr AST: " ++ e.message
  | conversion e => "Failed to build JIT AST: " ++ e.message
  | build e => "Failed to build JIT function: " ++ e.message
  | inputLength expected got => "Invalid input length: " ++ lengthText expected got
  | outputLength expected got => "Invalid output length: " ++ lengthText expected got

end EquationError

variable {α : Type} [Scalar α]

def Expr.ofText (names : Names α) (text : String) : Except EquationError (Expr α) :=
  match Formula.read text with
  | .error e => .error (.formula e)
  | .ok node =>
    match Expr.ofNode names node with
    | .error e => .error (.conversion e)
    | .ok e => .ok e

def Expr.ofResidual (names : Names α) (text : String) : Except EquationError (Expr α) :=
  (Expr.ofText names text).map simplify

def Expr.slope (e : Expr α) (name : String) : Expr α := (e.derivative name).simplify

end Simultaneous
