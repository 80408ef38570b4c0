import Simultaneous.Coupled
import Simultaneous.Equation
import Simultaneous.Settings

/-!
Solving one block: a few residuals in a few unknowns, with what was solved before as constants. One
residual that is affine in its one unknown is solved directly, all else by an iteration, which runs
on a thread of its own and is given up when its time is over.
-/

namespace Simultaneous

inductive Outcome (α : Type) where
  | converged (iterations : Nat)
  /-- the iteration stopped above the tolerance; its values are kept -/
  | notConverged (residualNorm : α)
  | timedOut
  | failed (e : SolveError)
deriving DecidableEq

namespace Outcome

variable {α : Type}

def hasValues : Outcome α → Bool
  | converged _ | notConverged _ => true
  | timedOut | failed _ => false

def isError : Outcome α → Bool
  | timedOut | failed _ => true
  | converged _ | notConverged _ => false

def isTimeout : Outcome α → Bool
  | timedOut => true
  | converged _ | notConverged _ | failed _ => false

end Outcome

/-- The result of a block: one value per unknown if the outcome has values, else none. -/
structure BlockResult (α : Type) where
  unknowns : List String
  values : List α
  outcome : Outcome α
deriving DecidableEq

namespace BlockResult

variable {α : Type}

def failed (unknowns : List String) (e : SolveError) : BlockResult α := ⟨unknowns, [], .failed e⟩

def ofAttempt (unknowns : List String) : Attempt α → BlockResult α
  | .report r =>
    ⟨unknowns, r.values,
      if r.converged then .converged r.iterations else .notConverged r.residualNorm⟩
  | .failed e => failed unknowns e
  | .stalled => ⟨unknowns, [], .timedOut⟩
  | .lost => failed unknowns .workerLost

end BlockResult

inductive Worker where
  /-- no thread could be started -/
  | missing
  /-- the thread was looked at again and again before it had its answer; each time comes with the
  nanoseconds by which the look was late -/
  | watched (delays : List Nat)
deriving DecidableEq

def Worker.prompt : Worker := watched []

structure Timing (α : Type) where
  /-- a number of seconds in nanoseconds, if it is a limit at all -/
  nanoseconds? : α → Option Nat
  /-- the thread for the block of some equations -/
  worker : (equations : List Nat) → Worker

def Timing.prompt {α : Type} : Timing α := ⟨fun _ => none, fun _ => .prompt⟩

structure BlockSolver (α : Type) where
  settings : Settings α
  linear : LinearSolver α
  override? : Option (Kernel α)
  timing : Timing α

namespace BlockSolver

variable {α : Type}

/-- Waits for an answer, looking after each pause. A look that finds none is the last one if the time
is up by then; the time is not asked for when the answer is there. -/
def await (limit? : Option Nat) (pause : Nat) (answer : Attempt α) :
    (elapsed : Nat) → (delays : List Nat) → Attempt α
  | _, [] => answer
  | elapsed, delay :: later =>
    let elapsed := elapsed + pause + delay
    if limit?.any (· ≤ elapsed) then .stalled else await limit? pause answer elapsed later

def attempt (b : BlockSolver α) (worker : Worker) (answer : Attempt α) : Attempt α :=
  match worker with
  | .missing => .lost
  | .watched delays =>
    await (b.timing.nanoseconds? b.settings.timeout) (b.settings.pollInterval * 1000000) answer 0
      delays

variable [Scalar α] (b : BlockSolver α)

def direct? (e : Equation α) (name : String) (x0 : α) : Option (BlockResult α) :=
  match e.affineSlope? name, e.value #[x0] with
  | some slope, .ok r0 =>
    let x := x0 - r0 / slope
    some (if Scalar.isFinite x then ⟨[name], [x], .converged 0⟩ else .failed [name] (.nonFinite 0))
  | _, _ => none

def method (equations unknowns : Nat) : Method :=
  if equations = unknowns then b.settings.methodFor unknowns else .levenbergMarquardt

def start (initial : Assoc α) (unknowns : List String) : List α :=
  unknowns.map fun v => (initial.get? v).getD b.settings.defaultInitial

def dispatch (worker : Worker) (method : Method) (unknowns : List String) (p : Problem α)
    (x0 : List α) : BlockResult α :=
  let kernel := b.override?.getD (method.kernel b.linear b.settings.kernelOptions)
  .ofAttempt unknowns (b.attempt worker (kernel.run p x0 false))

def solveOne (worker : Worker) (names : Names α) (residual name : String) (x0 : α) :
    BlockResult α :=
  match Equation.ofText names residual with
  | .error e => .failed [name] (.equation e)
  | .ok e =>
    match direct? e name x0 with
    | some result => result
    | none => b.dispatch worker (b.method 1 1) [name] e.problem [x0]

def compile (method : Method) (names : Names α) (residuals : List String) :
    Except EquationError (Coupled α) := do
  let c ← Coupled.ofTexts names residuals
  if method = .levenbergMarquardt then return c else c.withHessians

def solveMany (worker : Worker) (names : Names α) (residuals unknowns : List String)
    (x0 : List α) : BlockResult α :=
  let method := b.method residuals.length unknowns.length
  match compile method names residuals with
  | .error e => .failed unknowns (.equation e)
  | .ok c => b.dispatch worker method unknowns c.problem x0

def solve (worker : Worker) (residuals unknowns : List String) (bindings initial : Assoc α) :
    BlockResult α :=
  if residuals.length < unknowns.length then
    .failed unknowns (.underDetermined residuals.length unknowns.length)
  else
    let names : Names α := ⟨unknowns, bindings⟩
    let x0 := b.start initial unknowns
    match residuals, unknowns, x0 with
    | [residual], [name], [x] => b.solveOne worker names residual name x
    | _, _, _ => b.solveMany worker names residuals unknowns x0

end BlockSolver

end Simultaneous
