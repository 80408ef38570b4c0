import Simultaneous.Kernel.Basic

/-!
A trust-region method. Within a radius around the point the merit is modelled by a quadratic form,
and the step follows a bent path: down the gradient to the minimum of the model in that direction,
then towards the Newton point. The radius grows and shrinks with the agreement of the model.
-/

namespace Simultaneous.Dogleg

open Scalar Linear

variable {α : Type} [Scalar α]

def acceptRatio : α := decimal 1 (-4)

/-- Where the path from `start` towards `goal` leaves the region of a radius, for a start inside
at distance `length` from the centre. -/
def boundaryPoint {n : Nat} (start goal : Vector α n) (length radius : α) : Vector α n :=
  let d := sub goal start
  let a := normSquared d
  let b := ofInt 2 * dot start d
  let c := length * length - radius * radius
  let tau := (-b + sqrt (Scalar.max (b * b - ofInt 4 * a * c) zero)) / (ofInt 2 * a)
  add start (scale d tau)

def step {n : Nat} (gradient : Vector α n) (model : Grid α n n) (newton : Vector α n)
    (radius : α) : Vector α n :=
  if le (norm newton) radius then newton
  else
    let g := norm gradient
    let curvature := quadratic model gradient
    if le curvature zero then scale (neg gradient) (radius / g)
    else
      let cauchy := scale (neg gradient) (g * g / curvature)
      let length := norm cauchy
      if le radius length then scale cauchy (radius / length)
      else boundaryPoint cauchy newton length radius

def predicted {n : Nat} (gradient : Vector α n) (model : Grid α n n) (step : Vector α n) : α :=
  -(dot gradient step + decimal 5 (-1) * quadratic model step)

structure State (p : Problem α) where
  iterate : Iterate p
  radius : α

variable {p : Problem α}

/-- The model matrix and its Newton step: with second derivatives if that is positive definite,
else without, else a step by elimination or least squares. -/
def model (solver : LinearSolver α) (i : Iterate p)
    (jacobian : Grid α p.equations p.unknowns) (gradient : p.Point) :
    Grid α p.unknowns p.unknowns × Option p.Point :=
  let jt := transpose jacobian
  let gaussNewton := mulTransposed jt jt
  let down := neg gradient
  let curved := (p.finiteHessian? i.point i.residual).bind fun h =>
    let b := addGrid gaussNewton h
    (solver.positive? b down).map fun newton => (b, some newton)
  match curved with
  | some found => found
  | none =>
    let right := neg i.residual
    (gaussNewton, solver.positive? gaussNewton down <|> solver.general? jacobian right <|>
      solver.least? jacobian right)

def nextRadius (options : KernelOptions α) (radius ratio length : α) : α :=
  if lt ratio (decimal 25 (-2)) then radius * decimal 25 (-2)
  else if lt (decimal 75 (-2)) ratio &&
      le (Scalar.abs (length - radius)) (decimal 1 (-9) * radius) then
    Scalar.min (ofInt 2 * radius) options.maxJump
  else radius

def collapsed (options : KernelOptions α) (radius : α) (x : p.Point) : Bool :=
  le radius (options.precision * Scalar.max (norm x) one * decimal 1 (-3))

def settle (options : KernelOptions α) (iteration : Nat) (i : Iterate p)
    (radius ratio length : α) : Round (State p) α :=
  let radius := nextRadius options radius ratio length
  if collapsed options radius i.point then .stop (i.report (iteration + 1) options)
  else .next ⟨i, radius⟩

def attempt (options : KernelOptions α) (iteration : Nat) (s : State p) (step : p.Point)
    (decrease : α) : Round (State p) α :=
  let refuse := settle options iteration s.iterate s.radius zero (norm step)
  match s.iterate.step? step with
  | none => refuse
  | some trial =>
    if lt zero decrease then
      let ratio := (s.iterate.merit - trial.merit) / decrease
      if lt acceptRatio ratio then
        if Problem.stepIsSmall step s.iterate.point options.precision &&
            lt options.precision (maxAbs trial.residual) then
          .stop (trial.report (iteration + 1) options)
        else settle options iteration trial s.radius ratio (norm step)
      else settle options iteration s.iterate s.radius ratio (norm step)
    else refuse

def round (solver : LinearSolver α) (options : KernelOptions α) (p : Problem α)
    (iteration : Nat) (s : State p) : Round (State p) α :=
  let i := s.iterate
  (i.inspect options iteration).bind fun (jacobian, gradient) =>
    match model solver i jacobian gradient with
    | (_, none) => .fail (.singular iteration)
    | (matrix, some newton) =>
      let step := step gradient matrix newton s.radius
      attempt options iteration s step (predicted gradient matrix step)

def kernel (solver : LinearSolver α) (options : KernelOptions α) : Kernel α :=
  Kernel.ofRounds "Dogleg" options
    (fun p =>
      if p.equations = p.unknowns then none else some (.notSquare p.equations p.unknowns))
    (fun _ _ _ => true)
    State (fun _ i => ⟨i, Scalar.min options.trustRadius options.maxJump⟩)
    (round solver options) (fun _ n s => s.iterate.report n options)

end Simultaneous.Dogleg
