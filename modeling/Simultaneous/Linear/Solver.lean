import Simultaneous.Linear.Cholesky
import Simultaneous.Linear.PseudoInverse

/-!
The linear solves that an iteration calls on.
-/

namespace Simultaneous

structure LinearSolver (α : Type) where
  /-- for a regular matrix -/
  general? : {m n : Nat} → Grid α m n → Vector α m → Option (Vector α n)
  /-- for a positive definite matrix -/
  positive? : {n : Nat} → Grid α n n → Vector α n → Option (Vector α n)
  /-- for any matrix, in the sense of least squares -/
  least? : {m n : Nat} → Grid α m n → Vector α m → Option (Vector α n)

def LinearSolver.direct {α : Type} [Scalar α] : LinearSolver α where
  general? := Linear.solve?
  positive? := Linear.solvePositive?
  least? := Linear.leastSquares?

end Simultaneous
