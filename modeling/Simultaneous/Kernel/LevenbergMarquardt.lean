import Simultaneous.Kernel.Basic

/-!
Damped least squares, for as many equations as unknowns or more. Each step solves
`(JᵀJ + μ D) dx = -JᵀF` with `D` the diagonal of `JᵀJ`; the damping `μ` doubles until the merit
falls and is a third of that in the next iteration.
-/

namespace Simultaneous.LevenbergMarquardt

open Scalar Linear

variable {α : Type} [Scalar α]

def maxDamping : α := decimal 1 16

def leastDiagonal : α := decimal 1 (-12)

def leastDamping : α := decimal 1 (-15)

/-- More dampings than doubling reaches between the least and the greatest. -/
def dampingLimit : Nat := 256

structure State (p : Problem α) where
  iterate : Iterate p
  damping : Option α

variable {p : Problem α}

def largest {n : Nat} (d : Vector α n) : α :=
  match d.toList with
  | [] => zero
  | first :: rest => rest.foldl Scalar.max first

def search? (solver : LinearSolver α) (options : KernelOptions α) (i : Iterate p)
    (normal : Grid α p.unknowns p.unknowns) (diagonal gradient : p.Point) :
    (tries : Nat) → (damping : α) → Option (p.Point × Iterate p × α)
  | 0, _ => none
  | tries + 1, damping =>
    let again :=
      let double := damping * ofInt 2
      if lt maxDamping double then none
      else search? solver options i normal diagonal gradient tries double
    match solver.positive? (addDiagonal normal (scale diagonal damping)) (neg gradient) with
    | none => again
    | some full =>
      let step := Problem.clamp full options.maxJump
      match i.step? step with
      | none => again
      | some trial => if lt trial.merit i.merit then some (step, trial, damping) else again

def normal {m n : Nat} (jacobian : Grid α m n) : Grid α n n :=
  let jt := transpose jacobian
  mulTransposed jt jt

def dampedDiagonal {n : Nat} (normal : Grid α n n) : Vector α n :=
  (Linear.diagonal normal).map fun d => Scalar.max d leastDiagonal

def firstDamping {n : Nat} (diagonal : Vector α n) : α := decimal 1 (-3) * largest diagonal

def hasStep (solver : LinearSolver α) {n : Nat} (normal : Grid α n n)
    (diagonal gradient : Vector α n) : (tries : Nat) → (damping : α) → Bool
  | 0, _ => false
  | tries + 1, damping =>
    match solver.positive? (addDiagonal normal (scale diagonal damping)) (neg gradient) with
    | some _ => true
    | none =>
      let double := damping * ofInt 2
      if lt maxDamping double then false else hasStep solver normal diagonal gradient tries double

def round (solver : LinearSolver α) (options : KernelOptions α) (p : Problem α)
    (iteration : Nat) (s : State p) : Round (State p) α :=
  let i := s.iterate
  (i.inspect options iteration).bind fun (jacobian, gradient) =>
    let normal := normal jacobian
    let diagonal := dampedDiagonal normal
    let damping := s.damping.getD (firstDamping diagonal)
    match search? solver options i normal diagonal gradient dampingLimit damping with
    | none => .stop (i.report iteration options)
    | some (step, trial, damping) =>
      if Problem.stepIsSmall step i.point options.precision &&
          lt options.precision (maxAbs trial.residual) then
        .stop (trial.report (iteration + 1) options)
      else .next ⟨trial, some (Scalar.max (damping / ofInt 3) leastDamping)⟩

def kernel (solver : LinearSolver α) (options : KernelOptions α) : Kernel α :=
  Kernel.ofRounds "LevenbergMarquardt" options
    (fun p =>
      if p.equations < p.unknowns then some (.underDetermined p.equations p.unknowns)
      else none)
    (fun _ jacobian gradient =>
      let normal := normal jacobian
      let diagonal := dampedDiagonal normal
      hasStep solver normal diagonal gradient dampingLimit (firstDamping diagonal))
    State (fun _ i => ⟨i, none⟩) (round solver options) (fun _ n s => s.iterate.report n options)

end Simultaneous.LevenbergMarquardt
