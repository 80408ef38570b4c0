import Simultaneous.Linear.Solver
import Simultaneous.Problem
import Simultaneous.Residual

/-!
What an iteration for nonlinear equations is given and what it answers, and the quantities that all
iterations look at: residuals, gradient, merit, and the length of steps.
-/

namespace Simultaneous

structure KernelOptions (α : Type) where
  maxIterations : Nat
  /-- the tolerance of residuals, and that of steps relative to the point -/
  precision : α
  /-- an iteration stops where every component of the gradient is below this -/
  gradientPrecision : α
  /-- the longest step -/
  maxJump : α
  /-- the first radius of a trust region -/
  trustRadius : α

inductive SolveError where
  | equation (e : EquationError)
  | nonFinite (iteration : Nat)
  | singular (iteration : Nat)
  | underDetermined (equations unknowns : Nat)
  | notSquare (equations unknowns : Nat)
  | workerLost
  | cancelled
deriving Repr, DecidableEq

namespace SolveError

def shapeText (equations unknowns : Nat) : String :=
  ConversionError.count equations ++ " equations for " ++ ConversionError.count unknowns ++
    " variables"

def message : SolveError → String
  | equation e => e.message
  | nonFinite i =>
    "evaluation produced a non-finite value at iteration " ++ ConversionError.count i
  | singular i => "singular Jacobian at iteration " ++ ConversionError.count i
  | underDetermined m n => "block is under-determined: " ++ shapeText m n
  | notSquare m n => "method requires a square block: " ++ shapeText m n
  | workerLost => "solver worker terminated unexpectedly"
  | cancelled => "solve cancelled"

end SolveError

structure KernelReport (α : Type) where
  values : List α
  iterations : Nat
  /-- the largest magnitude of a residual at the values -/
  residualNorm : α
  converged : Bool
deriving DecidableEq

/-- What comes of running an iteration: an answer, or none in time, or none at all. -/
inductive Attempt (α : Type) where
  | report (r : KernelReport α)
  | failed (e : SolveError)
  | stalled
  | lost
deriving DecidableEq

/-- A method that looks for a root of a problem from a starting point. A run that was cancelled
before it began stops at its first iteration. -/
structure Kernel (α : Type) where
  name : String
  run : (p : Problem α) → (start : List α) → (cancelled : Bool) → Attempt α

namespace Problem

variable {α : Type} [Scalar α] (p : Problem α)

abbrev Point := Vector α p.unknowns

def residual {k : Nat} (x : Vector α k) : Vector α p.equations :=
  Linear.vectorOf p.equations (p.residuals x.toArray)

def finiteResidual? {k : Nat} (x : Vector α k) : Option (Vector α p.equations) :=
  let r := p.residual x
  if Linear.isFinite r then some r else none

def finiteJacobian? {k : Nat} (x : Vector α k) : Option (Grid α p.equations p.unknowns) :=
  let j := Linear.gridOf p.equations p.unknowns (p.jacobian x.toArray)
  if Linear.isFiniteGrid j then some j else none

def finiteHessian? (x : p.Point) (r : Vector α p.equations) :
    Option (Grid α p.unknowns p.unknowns) :=
  p.hessian?.bind fun hessian =>
    let h := Linear.gridOf p.unknowns p.unknowns (hessian x.toArray r.toArray)
    if Linear.isFiniteGrid h then some h else none

def merit {m : Nat} (r : Vector α m) : α := Scalar.decimal 5 (-1) * Linear.normSquared r

def clamp {n : Nat} (step : Vector α n) (maxJump : α) : Vector α n :=
  let length := Linear.norm step
  if Scalar.lt maxJump length && Scalar.lt Scalar.zero length then
    Linear.scale step (maxJump / length)
  else step

def stepIsSmall {n : Nat} (step x : Vector α n) (precision : α) : Bool :=
  (Vector.zipWith (fun s xi =>
    Scalar.le (Scalar.abs s) (precision * Scalar.max (Scalar.abs xi) Scalar.one)) step x).all id

end Problem

namespace KernelReport

variable {α : Type} [Scalar α]

def of {n m : Nat} (x : Vector α n) (r : Vector α m) (iterations : Nat) (precision : α) :
    KernelReport α :=
  let norm := Linear.maxAbs r
  { values := x.toList
    iterations
    residualNorm := norm
    converged := Scalar.le norm precision }

end KernelReport

inductive Round (σ α : Type) where
  | next (state : σ)
  | stop (r : KernelReport α)
  | fail (e : SolveError)

def Round.bind {σ τ α : Type} : Round σ α → (σ → Round τ α) → Round τ α
  | next state, f => f state
  | stop r, _ => stop r
  | fail e, _ => fail e

/-- A point of `k` values with its residuals, all of them finite. -/
structure Sample {α : Type} [Scalar α] (p : Problem α) (k : Nat) where
  point : Vector α k
  residual : Vector α p.equations
  residual_eq : p.finiteResidual? point = some residual

abbrev Iterate {α : Type} [Scalar α] (p : Problem α) := Sample p p.unknowns

namespace Sample

variable {α : Type} [Scalar α] {p : Problem α} {k : Nat}

def at? (p : Problem α) (x : Vector α k) : Option (Sample p k) :=
  match h : p.finiteResidual? x with
  | some r => some ⟨x, r, h⟩
  | none => none

def report (i : Sample p k) (iterations : Nat) (options : KernelOptions α) : KernelReport α :=
  .of i.point i.residual iterations options.precision

def isRoot (i : Sample p k) (options : KernelOptions α) : Bool :=
  Scalar.le (Linear.maxAbs i.residual) options.precision

def merit (i : Sample p k) : α := Problem.merit i.residual

def gradient (i : Sample p k) (jacobian : Grid α p.equations p.unknowns) : p.Point :=
  Linear.mulVector (Linear.transpose jacobian) i.residual

/-- What shows before a step is tried: a root, derivatives that are not finite, or a gradient that
vanishes end the iteration. Otherwise there are a Jacobian and a gradient to step by. -/
def inspect (i : Sample p k) (options : KernelOptions α) (iteration : Nat) :
    Round (Grid α p.equations p.unknowns × p.Point) α :=
  if i.isRoot options then .stop (i.report iteration options)
  else match p.finiteJacobian? i.point with
    | none => .fail (.nonFinite iteration)
    | some jacobian =>
      let gradient := i.gradient jacobian
      if Scalar.le (Linear.maxAbs gradient) options.gradientPrecision then
        .stop (i.report iteration options)
      else .next (jacobian, gradient)

def step? (i : Sample p k) (step : Vector α k) : Option (Sample p k) :=
  at? p (Linear.add i.point step)

end Sample

namespace Kernel

variable {α : Type}

def iterate {σ : Type} (round : (iteration : Nat) → σ → Round σ α)
    (finish : (iterations : Nat) → σ → KernelReport α) :
    (remaining iteration : Nat) → σ → Attempt α
  | 0, iteration, state => .report (finish iteration state)
  | remaining + 1, iteration, state =>
    match round iteration state with
    | .next state => iterate round finish remaining (iteration + 1) state
    | .stop r => .report r
    | .fail e => .failed e

/-- What a start comes to that has another number of values than there are variables. It can be
inspected, but no step fits it. Without a step to try, a method may still report on the start. -/
def ofMisfit [Scalar α] {p : Problem α} {k : Nat} (options : KernelOptions α) (cancelled : Bool)
    (hasStep : Grid α p.equations p.unknowns → p.Point → Bool) (i : Sample p k) : Attempt α :=
  if options.maxIterations = 0 then .report (i.report 0 options)
  else if cancelled then .failed .cancelled
  else match i.inspect options 0 with
    | .next (jacobian, gradient) =>
      if hasStep jacobian gradient then .lost else .report (i.report 0 options)
    | .stop r => .report r
    | .fail e => .failed e

/-- A method that iterates from a state made of the first iterate. A start where residuals are not
finite fails; among these are all that lack the value of a variable. -/
def ofRounds [Scalar α] (name : String) (options : KernelOptions α)
    (shapeFault? : Problem α → Option SolveError)
    (hasStep : (p : Problem α) → Grid α p.equations p.unknowns → p.Point → Bool)
    (σ : Problem α → Type)
    (start : (p : Problem α) → Iterate p → σ p)
    (round : (p : Problem α) → (iteration : Nat) → σ p → Round (σ p) α)
    (finish : (p : Problem α) → (iterations : Nat) → σ p → KernelReport α) : Kernel α where
  name
  run p x0 cancelled :=
    match shapeFault? p with
    | some e => .failed e
    | none =>
      match Linear.vector? p.unknowns x0 with
      | some x =>
        match Sample.at? p x with
        | none => .failed (.nonFinite 0)
        | some i =>
          let round iteration state :=
            if cancelled then .fail .cancelled else round p iteration state
          iterate round (finish p) options.maxIterations 0 (start p i)
      | none =>
        match Sample.at? p ⟨x0.toArray, x0.size_toArray⟩ with
        | none => .failed (.nonFinite 0)
        | some i => ofMisfit options cancelled (hasStep p) i

end Kernel

end Simultaneous
