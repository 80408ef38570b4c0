import Simultaneous.Kernel.Dogleg
import Simultaneous.Kernel.LevenbergMarquardt
import Simultaneous.Kernel.Newton

/-!
What a round comes to. Every method inspects its iterate, looks for a step, and then goes on from
the iterate after the step, reports there, or stays. The ways through a round of each method are
listed once, with what decides between them; what holds of rounds is shown by these cases.
-/

namespace Simultaneous

open Scalar Linear

variable {α : Type} [Scalar α] {p : Problem α} {options : KernelOptions α} {iteration : Nat}

/-! ### Inspections -/

namespace Sample

variable {k : Nat} {i : Sample p k}

inductive Inspection (i : Sample p k) (options : KernelOptions α) (iteration : Nat) :
    Round (Grid α p.equations p.unknowns × p.Point) α → Prop
  | root : i.isRoot options = true → Inspection i options iteration (.stop (i.report iteration options))
  | undefined : i.isRoot options = false → p.finiteJacobian? i.point = none →
      Inspection i options iteration (.fail (.nonFinite iteration))
  | flat {jacobian : Grid α p.equations p.unknowns} : i.isRoot options = false →
      p.finiteJacobian? i.point = some jacobian →
      le (maxAbs (i.gradient jacobian)) options.gradientPrecision = true →
      Inspection i options iteration (.stop (i.report iteration options))
  | steep {jacobian : Grid α p.equations p.unknowns} : i.isRoot options = false →
      p.finiteJacobian? i.point = some jacobian →
      le (maxAbs (i.gradient jacobian)) options.gradientPrecision = false →
      Inspection i options iteration (.next (jacobian, i.gradient jacobian))

theorem inspection_of_inspect {r : Round (Grid α p.equations p.unknowns × p.Point) α}
    (inspected : i.inspect options iteration = r) : i.Inspection options iteration r := by
  subst inspected
  unfold inspect
  split
  next root => exact .root root
  next no_root =>
    have no_root := Bool.eq_false_iff.2 no_root
    split
    next missing => exact .undefined no_root missing
    next jacobian found =>
      simp only
      split
      next flat => exact .flat no_root found flat
      next steep => exact .steep no_root found (Bool.eq_false_iff.2 steep)

/-- A round that begins with an inspection stays, fails, or goes on with what that shows. -/
theorem bind_inspect_cases {σ : Type} {i : Iterate p}
    {f : Grid α p.equations p.unknowns × p.Point → Round σ α} {r : Round σ α}
    (same : (i.inspect options iteration).bind f = r) :
    (i.inspect options iteration = .stop (i.report iteration options) ∧
      r = .stop (i.report iteration options)) ∨
    (i.inspect options iteration = .fail (.nonFinite iteration) ∧
      r = .fail (.nonFinite iteration)) ∨
    ∃ jacobian gradient, i.inspect options iteration = .next (jacobian, gradient) ∧
      f (jacobian, gradient) = r := by
  generalize inspected : i.inspect options iteration = shown at same
  cases inspection_of_inspect inspected with
  | root | flat => exact .inl ⟨rfl, same.symm⟩
  | undefined => exact .inr (.inl ⟨rfl, same.symm⟩)
  | steep => exact .inr (.inr ⟨_, _, rfl, same⟩)

end Sample

/-! ### Line search -/

namespace Newton

variable {solver : LinearSolver α} {i trial : Iterate p} {step : p.Point}

/-- Whatever holds of the first fraction and is kept by halving holds of the one that is found. A
part of the step leads to the trial, where the merit is low enough. -/
theorem found_of_search? {P : α → Prop} (halved : ∀ f, P f → P (f * decimal 5 (-1))) {slope last : α}
    {tries : Nat} {fraction : α} (first : P fraction)
    (found : search? i step slope tries fraction = some (trial, last)) :
    P last ∧ i.step? (scale step last) = some trial ∧
      le trial.merit (i.merit + armijo * last * Scalar.min slope zero) = true := by
  induction tries generalizing fraction with
  | zero => cases found
  | succ tries ih =>
    have again (later : (if lt (fraction * decimal 5 (-1)) leastFraction then none
        else search? i step slope tries (fraction * decimal 5 (-1))) = some (trial, last)) :
        P last ∧ i.step? (scale step last) = some trial ∧
          le trial.merit (i.merit + armijo * last * Scalar.min slope zero) = true := by
      split at later
      next => cases later
      next => exact ih (halved fraction first) later
    unfold search? at found
    simp only at found
    split at found
    next missing => exact again found
    next other tried =>
      split at found
      next passed =>
        cases found
        exact ⟨first, tried, passed⟩
      next => exact again found

def Searches (solver : LinearSolver α) (options : KernelOptions α) (iteration : Nat) (i : Iterate p)
    (step : p.Point) (found : Option (Iterate p × α)) : Prop :=
  ∃ jacobian gradient full, i.inspect options iteration = .next (jacobian, gradient) ∧
    fullStep? solver i jacobian gradient = some full ∧
    step = Problem.clamp full options.maxJump ∧
    search? i step (dot gradient step) fractionLimit one = found

inductive Outcome (solver : LinearSolver α) (options : KernelOptions α) (iteration : Nat)
    (i : Iterate p) : Round (Iterate p) α → Prop
  | still : i.inspect options iteration = .stop (i.report iteration options) →
      Outcome solver options iteration i (.stop (i.report iteration options))
  | undefined : i.inspect options iteration = .fail (.nonFinite iteration) →
      Outcome solver options iteration i (.fail (.nonFinite iteration))
  | singular {jacobian : Grid α p.equations p.unknowns} {gradient : p.Point} :
      i.inspect options iteration = .next (jacobian, gradient) →
      fullStep? solver i jacobian gradient = none →
      Outcome solver options iteration i (.fail (.singular iteration))
  | stuck {step : p.Point} : Searches solver options iteration i step none →
      Outcome solver options iteration i (.stop (i.report iteration options))
  | small {step : p.Point} {trial : Iterate p} {fraction : α} :
      Searches solver options iteration i step (some (trial, fraction)) →
      (Problem.stepIsSmall (scale step fraction) i.point options.precision &&
        lt options.precision (maxAbs trial.residual)) = true →
      Outcome solver options iteration i (.stop (trial.report (iteration + 1) options))
  | moved {step : p.Point} {trial : Iterate p} {fraction : α} :
      Searches solver options iteration i step (some (trial, fraction)) →
      (Problem.stepIsSmall (scale step fraction) i.point options.precision &&
        lt options.precision (maxAbs trial.residual)) = false →
      Outcome solver options iteration i (.next trial)

theorem outcome_of_round {r : Round (Iterate p) α}
    (same : round solver options p iteration i = r) : Outcome solver options iteration i r := by
  obtain ⟨still, rfl⟩ | ⟨undefined, rfl⟩ | ⟨jacobian, gradient, inspected, rest⟩ :=
    Sample.bind_inspect_cases same
  · exact .still still
  · exact .undefined undefined
  · simp only at rest
    split at rest
    next none => exact rest ▸ .singular inspected none
    next full stepped =>
      have searches {found : Option (Iterate p × α)} (searched : search? i
          (Problem.clamp full options.maxJump) (dot gradient (Problem.clamp full options.maxJump))
          fractionLimit one = found) :
          Searches solver options iteration i (Problem.clamp full options.maxJump) found :=
        ⟨jacobian, gradient, full, inspected, stepped, rfl, searched⟩
      split at rest
      next none => exact rest ▸ .stuck (searches none)
      next trial fraction searched =>
        split at rest
        next small => exact rest ▸ .small (searches searched) small
        next large => exact rest ▸ .moved (searches searched) (Bool.eq_false_iff.2 large)

end Newton

/-! ### Trust regions -/

namespace Dogleg

variable {solver : LinearSolver α} {s : State p}

inductive Settles (options : KernelOptions α) (iteration : Nat) (i : Iterate p)
    (radius ratio length : α) : Round (State p) α → Prop
  | collapsed : collapsed options (nextRadius options radius ratio length) i.point = true →
      Settles options iteration i radius ratio length (.stop (i.report (iteration + 1) options))
  | adapted : Dogleg.collapsed options (nextRadius options radius ratio length) i.point = false →
      Settles options iteration i radius ratio length
        (.next ⟨i, nextRadius options radius ratio length⟩)

theorem settles (i : Iterate p) (radius ratio length : α) :
    Settles options iteration i radius ratio length
      (settle options iteration i radius ratio length) := by
  unfold settle
  simp only
  split
  next collapsed => exact .collapsed collapsed
  next wide => exact .adapted (Bool.eq_false_iff.2 wide)

/-- A step that a decrease is promised of leads to a trial where the merit falls by enough of
that. -/
structure Passes (s : State p) (step : p.Point) (decrease : α) (trial : Iterate p) : Prop where
  tried : s.iterate.step? step = some trial
  promised : lt zero decrease = true
  passed : lt acceptRatio ((s.iterate.merit - trial.merit) / decrease) = true

inductive Attempts (options : KernelOptions α) (iteration : Nat) (s : State p) (step : p.Point)
    (decrease : α) : Round (State p) α → Prop
  | refused {ratio : α} {r : Round (State p) α} : (∀ trial, ¬Passes s step decrease trial) →
      Settles options iteration s.iterate s.radius ratio (norm step) r →
      Attempts options iteration s step decrease r
  | small {trial : Iterate p} : Passes s step decrease trial →
      (Problem.stepIsSmall step s.iterate.point options.precision &&
        lt options.precision (maxAbs trial.residual)) = true →
      Attempts options iteration s step decrease (.stop (trial.report (iteration + 1) options))
  | taken {trial : Iterate p} {ratio : α} {r : Round (State p) α} :
      Passes s step decrease trial →
      Settles options iteration trial s.radius ratio (norm step) r →
      Attempts options iteration s step decrease r

theorem Attempts.ends {step : p.Point} {decrease : α} {r : Round (State p) α}
    (attempts : Attempts options iteration s step decrease r) :
    ∃ j, (j = s.iterate ∨ Passes s step decrease j) ∧
      (r = .stop (j.report (iteration + 1) options) ∨
        ∃ ratio length, r = .next ⟨j, nextRadius options s.radius ratio length⟩) := by
  have settled {j : Iterate p} {ratio length : α}
      (settles : Settles options iteration j s.radius ratio length r) :
      r = .stop (j.report (iteration + 1) options) ∨
        ∃ ratio length, r = .next ⟨j, nextRadius options s.radius ratio length⟩ := by
    cases settles with
    | collapsed => exact .inl rfl
    | adapted => exact .inr ⟨ratio, length, rfl⟩
  cases attempts with
  | refused _ settles => exact ⟨s.iterate, .inl rfl, settled settles⟩
  | @small trial passes => exact ⟨trial, .inr passes, .inl rfl⟩
  | @taken trial _ _ passes settles => exact ⟨trial, .inr passes, settled settles⟩

theorem attempts (s : State p) (step : p.Point) (decrease : α) :
    Attempts options iteration s step decrease (attempt options iteration s step decrease) := by
  unfold attempt
  simp only
  split
  next missing =>
    refine .refused (fun trial passes => ?_) (settles ..)
    cases missing.symm.trans passes.tried
  next trial tried =>
    split
    next promised =>
      split
      next passed =>
        split
        next small => exact .small ⟨tried, promised, passed⟩ small
        next => exact .taken ⟨tried, promised, passed⟩ (settles ..)
      next failed =>
        refine .refused (fun other passes => ?_) (settles ..)
        cases tried.symm.trans passes.tried
        exact failed passes.passed
    next unpromised => exact .refused (fun other passes => unpromised passes.promised) (settles ..)

inductive Outcome (solver : LinearSolver α) (options : KernelOptions α) (iteration : Nat)
    (s : State p) : Round (State p) α → Prop
  | still : s.iterate.inspect options iteration = .stop (s.iterate.report iteration options) →
      Outcome solver options iteration s (.stop (s.iterate.report iteration options))
  | undefined : s.iterate.inspect options iteration = .fail (.nonFinite iteration) →
      Outcome solver options iteration s (.fail (.nonFinite iteration))
  | singular {jacobian : Grid α p.equations p.unknowns} {gradient : p.Point}
      {matrix : Grid α p.unknowns p.unknowns} :
      s.iterate.inspect options iteration = .next (jacobian, gradient) →
      model solver s.iterate jacobian gradient = (matrix, none) →
      Outcome solver options iteration s (.fail (.singular iteration))
  | tried {jacobian : Grid α p.equations p.unknowns} {gradient newton : p.Point}
      {matrix : Grid α p.unknowns p.unknowns} {r : Round (State p) α} :
      s.iterate.inspect options iteration = .next (jacobian, gradient) →
      model solver s.iterate jacobian gradient = (matrix, some newton) →
      Attempts options iteration s (step gradient matrix newton s.radius)
        (predicted gradient matrix (step gradient matrix newton s.radius)) r →
      Outcome solver options iteration s r

theorem outcome_of_round {r : Round (State p) α}
    (same : round solver options p iteration s = r) : Outcome solver options iteration s r := by
  obtain ⟨still, rfl⟩ | ⟨undefined, rfl⟩ | ⟨jacobian, gradient, inspected, rest⟩ :=
    Sample.bind_inspect_cases same
  · exact .still still
  · exact .undefined undefined
  · simp only at rest
    split at rest
    next matrix none => exact rest ▸ .singular inspected none
    next matrix newton found => exact rest ▸ .tried inspected found (attempts ..)

end Dogleg

/-! ### Damped least squares -/

namespace LevenbergMarquardt

variable {solver : LinearSolver α} {s : State p} {i trial : Iterate p} {step : p.Point}

/-- Whatever holds of the first damping and is kept by doubling holds of the one that is found. The
step solves the damped system and is cut to length, and the merit falls at the trial. -/
theorem found_of_search? {P : α → Prop} (doubled : ∀ d, P d → P (d * ofInt 2))
    {normal : Grid α p.unknowns p.unknowns} {diagonal gradient : p.Point} {last : α}
    {tries : Nat} {damping : α} (first : P damping)
    (found : search? solver options i normal diagonal gradient tries damping =
      some (step, trial, last)) :
    P last ∧ i.step? step = some trial ∧ lt trial.merit i.merit = true ∧
      ∃ full, solver.positive? (addDiagonal normal (scale diagonal last)) (neg gradient) = some full ∧
        step = Problem.clamp full options.maxJump := by
  induction tries generalizing damping with
  | zero => cases found
  | succ tries ih =>
    have again (later : (if lt maxDamping (damping * ofInt 2) then none
        else search? solver options i normal diagonal gradient tries (damping * ofInt 2)) =
          some (step, trial, last)) :
        P last ∧ i.step? step = some trial ∧ lt trial.merit i.merit = true ∧
          ∃ full, solver.positive? (addDiagonal normal (scale diagonal last)) (neg gradient) =
            some full ∧ step = Problem.clamp full options.maxJump := by
      split at later
      next => cases later
      next => exact ih (doubled damping first) later
    unfold search? at found
    simp only at found
    split at found
    next => exact again found
    next full solved =>
      split at found
      next => exact again found
      next other tried =>
        split at found
        next falls =>
          cases found
          exact ⟨first, tried, falls, full, solved, rfl⟩
        next => exact again found

def Searches (solver : LinearSolver α) (options : KernelOptions α) (iteration : Nat) (s : State p)
    (found : Option (p.Point × Iterate p × α)) : Prop :=
  ∃ jacobian gradient, s.iterate.inspect options iteration = .next (jacobian, gradient) ∧
    let diagonal := dampedDiagonal (normal jacobian)
    search? solver options s.iterate (normal jacobian) diagonal gradient dampingLimit
      (s.damping.getD (firstDamping diagonal)) = found

inductive Outcome (solver : LinearSolver α) (options : KernelOptions α) (iteration : Nat)
    (s : State p) : Round (State p) α → Prop
  | still : s.iterate.inspect options iteration = .stop (s.iterate.report iteration options) →
      Outcome solver options iteration s (.stop (s.iterate.report iteration options))
  | undefined : s.iterate.inspect options iteration = .fail (.nonFinite iteration) →
      Outcome solver options iteration s (.fail (.nonFinite iteration))
  | stuck : Searches solver options iteration s none →
      Outcome solver options iteration s (.stop (s.iterate.report iteration options))
  | small {step : p.Point} {trial : Iterate p} {damping : α} :
      Searches solver options iteration s (some (step, trial, damping)) →
      (Problem.stepIsSmall step s.iterate.point options.precision &&
        lt options.precision (maxAbs trial.residual)) = true →
      Outcome solver options iteration s (.stop (trial.report (iteration + 1) options))
  | moved {step : p.Point} {trial : Iterate p} {damping : α} :
      Searches solver options iteration s (some (step, trial, damping)) →
      (Problem.stepIsSmall step s.iterate.point options.precision &&
        lt options.precision (maxAbs trial.residual)) = false →
      Outcome solver options iteration s
        (.next ⟨trial, some (Scalar.max (damping / ofInt 3) leastDamping)⟩)

theorem outcome_of_round {r : Round (State p) α}
    (same : round solver options p iteration s = r) : Outcome solver options iteration s r := by
  obtain ⟨still, rfl⟩ | ⟨undefined, rfl⟩ | ⟨jacobian, gradient, inspected, rest⟩ :=
    Sample.bind_inspect_cases same
  · exact .still still
  · exact .undefined undefined
  · simp only at rest
    split at rest
    next none => exact rest ▸ .stuck ⟨jacobian, gradient, inspected, none⟩
    next step trial damping searched =>
      split at rest
      next small => exact rest ▸ .small ⟨jacobian, gradient, inspected, searched⟩ small
      next large =>
        exact rest ▸ .moved ⟨jacobian, gradient, inspected, searched⟩ (Bool.eq_false_iff.2 large)

end LevenbergMarquardt

end Simultaneous
