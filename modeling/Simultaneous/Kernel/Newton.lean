import Simultaneous.Kernel.Basic

/-!
Newton's method with a backtracking line search. The step solves `J dx = -F`. Where `J` is
singular, the Newton step of the merit is taken if it descends, and otherwise the shortest
least-squares step. The step is halved until the merit falls enough.
-/

namespace Simultaneous.Newton

open Scalar Linear

variable {α : Type} [Scalar α] {p : Problem α}

def armijo : α := decimal 1 (-4)

def leastFraction : α := decimal 1 (-10)

/-- More fractions than halving reaches before the least one. -/
def fractionLimit : Nat := 64

def meritStep? (solver : LinearSolver α) (i : Iterate p)
    (jacobian : Grid α p.equations p.unknowns) (gradient : p.Point) : Option p.Point :=
  (p.finiteHessian? i.point i.residual).bind fun h =>
    let jt := transpose jacobian
    let b := addGrid (mulTransposed jt jt) h
    (solver.general? b (neg gradient)).filter fun dx => lt (dot gradient dx) zero

def fullStep? (solver : LinearSolver α) (i : Iterate p)
    (jacobian : Grid α p.equations p.unknowns) (gradient : p.Point) : Option p.Point :=
  let right := neg i.residual
  solver.general? jacobian right <|> meritStep? solver i jacobian gradient <|>
    solver.least? jacobian right

def search? (i : Iterate p) (step : p.Point) (slope : α) :
    (tries : Nat) → (fraction : α) → Option (Iterate p × α)
  | 0, _ => none
  | tries + 1, fraction =>
    let again :=
      let half := fraction * decimal 5 (-1)
      if lt half leastFraction then none else search? i step slope tries half
    match i.step? (scale step fraction) with
    | none => again
    | some trial =>
      if le trial.merit (i.merit + armijo * fraction * Scalar.min slope zero) then
        some (trial, fraction)
      else again

def round (solver : LinearSolver α) (options : KernelOptions α) (p : Problem α)
    (iteration : Nat) (i : Iterate p) : Round (Iterate p) α :=
  (i.inspect options iteration).bind fun (jacobian, gradient) =>
    match fullStep? solver i jacobian gradient with
    | none => .fail (.singular iteration)
    | some full =>
      let step := Problem.clamp full options.maxJump
      match search? i step (dot gradient step) fractionLimit one with
      | none => .stop (i.report iteration options)
      | some (trial, fraction) =>
        if Problem.stepIsSmall (scale step fraction) i.point options.precision &&
            lt options.precision (maxAbs trial.residual) then
          .stop (trial.report (iteration + 1) options)
        else .next trial

def kernel (solver : LinearSolver α) (options : KernelOptions α) : Kernel α :=
  Kernel.ofRounds "NewtonLineSearch" options
    (fun p =>
      if p.equations = p.unknowns then none else some (.notSquare p.equations p.unknowns))
    (fun _ _ _ => true)
    Iterate (fun _ i => i) (round solver options) (fun _ n i => i.report n options)

end Simultaneous.Newton
