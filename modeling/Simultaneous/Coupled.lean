import Simultaneous.Expr.Code
import Simultaneous.Problem
import Simultaneous.Residual

/-!
Several residuals in the same unknowns, compiled together with their Jacobian and, on request,
with their Hessians.
-/

namespace Simultaneous

structure Coupled (α : Type) where
  residuals : List String
  exprs : List (Expr α)
  unknowns : List String
  function : CompiledList α
  jacobian : CompiledList α
  /-- the second derivatives of each residual -/
  hessians? : Option (List (CompiledList α))

namespace Coupled

variable {α : Type} [Scalar α]

def ofExprs (residuals unknowns : List String) (es : List (Expr α)) :
    Except BuildError (Coupled α) := do
  let n := unknowns.length
  let function ← CompiledList.ofExprs n es
  let jacobian ← CompiledList.ofRows n (es.map fun e => unknowns.map e.slope)
  return { residuals, exprs := es, unknowns, function, jacobian, hessians? := none }

def ofTexts (names : Names α) (residuals : List String) : Except EquationError (Coupled α) := do
  let es ← residuals.mapM (Expr.ofResidual names)
  (ofExprs residuals (lastOccurrences names.unknowns) es).mapError .build

def hessianOf (unknowns : List String) (e : Expr α) : Except BuildError (CompiledList α) :=
  CompiledList.ofRows unknowns.length (unknowns.map fun v => unknowns.map (e.slope v).slope)

def withHessians (s : Coupled α) : Except EquationError (Coupled α) := do
  let hessians ← (s.exprs.mapM (hessianOf s.unknowns)).mapError .build
  return { s with hessians? := some hessians }

def checkInputs (s : Coupled α) (point : Array α) : Except EquationError Unit :=
  if point.size = s.unknowns.length then .ok ()
  else .error (.inputLength s.unknowns.length point.size)

def fill (s : Coupled α) (point buffer : Array α) : Except EquationError (Array α) :=
  match s.checkInputs point with
  | .error e => .error e
  | .ok () =>
    if buffer.size = s.residuals.length then .ok (s.function.fill point buffer)
    else .error (.outputLength s.residuals.length buffer.size)

def values (s : Coupled α) (point : Array α) : Except EquationError (Array α) :=
  s.fill point (Array.replicate s.residuals.length Scalar.zero)

def rowsOf (n : Nat) (entries : List α) : List (List α) :=
  if _ : entries = [] ∨ n = 0 then []
  else entries.take n :: rowsOf n (entries.drop n)
termination_by entries.length
decreasing_by
  rename_i h
  simp only [not_or] at h
  have := List.length_pos_iff.2 h.1
  simp only [List.length_drop]
  omega

def jacobianRows (s : Coupled α) (point : Array α) : Except EquationError (List (List α)) :=
  match s.checkInputs point with
  | .error e => .error e
  | .ok () => .ok (rowsOf s.unknowns.length (s.jacobian.values point).toList)

def weightedHessian (s : Coupled α) (hessians : List (CompiledList α)) (point weights : Array α) :
    Array α :=
  let start : Array α := Array.replicate (s.unknowns.length * s.unknowns.length) Scalar.zero
  (hessians.zip weights.toList).foldl (fun sum (hessian, w) =>
    Array.zipWith (fun acc h => acc + w * h) sum (hessian.values point)) start

def problem (s : Coupled α) : Problem α :=
  { equations := s.residuals.length
    unknowns := s.unknowns.length
    residuals := s.function.values
    jacobian := s.jacobian.values
    hessian? := s.hessians?.map s.weightedHessian }

end Coupled

end Simultaneous
