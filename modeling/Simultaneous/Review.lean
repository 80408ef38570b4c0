import Simultaneous.Worksheet

/-!
The residuals of all equations of a worksheet at the values found, taken from the text of each
residual anew.
-/

namespace Simultaneous

inductive Finding (α : Type) where
  | fine (residual : α)
  | high (residual : α)
  | nonFinite (residual : α)
  /-- some unknown has no value, or the residual is not an expression -/
  | unevaluated
deriving Repr, DecidableEq

namespace Worksheet

variable {α : Type} [Scalar α]

def residualAt? (solved : Assoc α) (e : EquationEntry) : Option α :=
  if e.unknowns.all solved.contains then
    match Expr.ofResidual ⟨[], solved⟩ e.residual with
    | .ok r => some (r.evaluate (pointOf #[]))
    | .error _ => none
  else none

def finding (precision : α) : Option α → Finding α
  | none => .unevaluated
  | some r =>
    if !Scalar.isFinite r then .nonFinite r
    else if Scalar.lt (precision * Scalar.decimal 10 0) (Scalar.abs r) then .high r
    else .fine r

def findings (w : Worksheet α) (precision : α) : List (Finding α) :=
  w.equations.map fun e => finding precision (residualAt? w.unknowns.solved e)

omit [Scalar α] in
def note (w : Worksheet α) : Finding α → Worksheet α
  | .high _ => { w with highResidual := true }
  | .nonFinite _ => { w with failed := true }
  | .fine _ | .unevaluated => w

def review (w : Worksheet α) (precision : α) : Worksheet α × List (Finding α) :=
  let all := w.findings precision
  (all.foldl note w, all)

end Worksheet

end Simultaneous
