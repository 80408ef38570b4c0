import Simultaneous.Expr.Code
import Simultaneous.Expr.Printer
import Simultaneous.Problem
import Simultaneous.Residual

/-!
One residual, compiled with its first and second partial derivatives.
-/

namespace Simultaneous

structure Equation (α : Type) where
  residual : String
  expr : Expr α
  unknowns : List String
  function : Compiled α
  slopes : List (Compiled α)
  /-- second derivatives, one row per variable -/
  curvatures : List (List (Compiled α))

namespace Equation

variable {α : Type} [Scalar α]

def ofExpr (residual : String) (unknowns : List String) (e : Expr α) : Equation α :=
  let first := unknowns.map e.slope
  let compile := Compiled.ofExpr unknowns.length
  { residual
    expr := e
    unknowns
    function := compile e
    slopes := first.map compile
    curvatures := first.map fun d => unknowns.map fun v => compile (d.slope v) }

def ofText (names : Names α) (residual : String) : Except EquationError (Equation α) :=
  (Expr.ofResidual names residual).map (ofExpr residual (lastOccurrences names.unknowns))

def value (e : Equation α) (point : Array α) : Except EquationError α :=
  if point.size = e.unknowns.length then .ok (e.function.value point)
  else .error (.inputLength e.unknowns.length point.size)

/-- The slope by a variable if the residual is affine in it and not constant: the first derivative
is a finite constant other than zero and the second one vanishes. -/
def affineSlope? (e : Equation α) (name : String) : Option α :=
  let first := e.expr.slope name
  match first, first.slope name with
  | .const a, .const b =>
    if !(a == Scalar.zero) && Scalar.isFinite a && b == Scalar.zero then some a else none
  | _, _ => none

def weightedCurvature (e : Equation α) (point weights : Array α) : Array α :=
  let w := weights[0]?.getD Scalar.zero
  (e.curvatures.flatten.map fun d => w * d.value point).toArray

def problem (e : Equation α) : Problem α :=
  { equations := 1
    unknowns := e.unknowns.length
    residuals := fun x => #[e.function.value x]
    jacobian := fun x => (e.slopes.map fun d => d.value x).toArray
    hessian? := some e.weightedCurvature }

def text (e : Equation Float) : String := e.expr.text ++ " = 0"

def details (e : Equation Float) : String :=
  "\x7b\n    Residual: " ++ e.residual ++ "\n    Simplified: " ++ e.expr.text ++
    "\n    Variables: [" ++ ", ".intercalate (e.unknowns.map Text.quoted) ++ "]\n\x7d\n"

end Equation

end Simultaneous
