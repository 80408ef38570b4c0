import Simultaneous.Scalar.Basic

/-!
Problems: residuals as functions of a point, with their first derivatives and perhaps their second
ones. Matrices are written row by row.
-/

namespace Simultaneous

structure Problem (α : Type) where
  equations : Nat
  unknowns : Nat
  residuals : (point : Array α) → Array α
  /-- one row per equation, one column per variable -/
  jacobian : (point : Array α) → Array α
  /-- the sum of the second derivatives of the residuals with the given weights, if there are
  second derivatives -/
  hessian? : Option ((point weights : Array α) → Array α)

end Simultaneous
