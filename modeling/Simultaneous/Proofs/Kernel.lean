import Simultaneous.Proofs.Round
import Simultaneous.Settings

/-!
Whatever ends an iteration reports on one of its iterates. So a report has one value per variable,
its values are a point at which all residuals are finite, and it says that the iteration converged
exactly if the largest residual there is within the tolerance.
-/

namespace Simultaneous

variable {α : Type}

/-- Started with one value per variable, the kernel reports one value per variable. -/
def Kernel.IsComplete (k : Kernel α) : Prop :=
  ∀ (p : Problem α) (start : List α) (cancelled : Bool) (r : KernelReport α),
    start.length = p.unknowns → k.run p start cancelled = .report r →
      r.values.length = p.unknowns

variable [Scalar α]

def KernelReport.IsOnIterate (r : KernelReport α) (p : Problem α) (options : KernelOptions α) :
    Prop :=
  ∃ (i : Iterate p) (iterations : Nat), r = i.report iterations options

def Kernel.IsFaithful (k : Kernel α) (options : KernelOptions α) : Prop :=
  ∀ (p : Problem α) (start : List α) (cancelled : Bool) (r : KernelReport α),
    start.length = p.unknowns → k.run p start cancelled = .report r → r.IsOnIterate p options

theorem Kernel.IsFaithful.isComplete {k : Kernel α} {options : KernelOptions α}
    (faithful : k.IsFaithful options) : k.IsComplete := by
  intro p start cancelled r fits reported
  obtain ⟨i, iterations, rfl⟩ := faithful p start cancelled r fits reported
  exact i.point.length_toList

def Round.IsFaithful {σ : Type} (p : Problem α) (options : KernelOptions α) (round : Round σ α) :
    Prop :=
  ∀ r, round = .stop r → r.IsOnIterate p options

section Rounds

variable {σ τ : Type} {p : Problem α} {options : KernelOptions α}

theorem Round.isFaithful_fail (e : SolveError) : (fail e : Round σ α).IsFaithful p options := by
  intro r stopped
  cases stopped

theorem Round.isFaithful_next (state : σ) : (next state : Round σ α).IsFaithful p options := by
  intro r stopped
  cases stopped

theorem Round.isFaithful_report (i : Iterate p) (iterations : Nat) :
    (stop (i.report iterations options) : Round σ α).IsFaithful p options := by
  intro r stopped
  cases stopped
  exact ⟨i, iterations, rfl⟩

theorem Kernel.iterate_isOnIterate {round : Nat → σ → Round σ α}
    {finish : Nat → σ → KernelReport α}
    (stops : ∀ iteration state, (round iteration state).IsFaithful p options)
    (finishes : ∀ iterations state, (finish iterations state).IsOnIterate p options)
    (remaining iteration : Nat) (state : σ) (r : KernelReport α)
    (reported : iterate round finish remaining iteration state = .report r) :
    r.IsOnIterate p options := by
  induction remaining generalizing iteration state with
  | zero =>
    cases reported
    exact finishes iteration state
  | succ remaining ih =>
    unfold iterate at reported
    split at reported
    next later going_on => exact ih (iteration + 1) later reported
    next s stopped =>
      cases reported
      exact stops iteration state r stopped
    next e failed => cases reported

end Rounds

/-! ### How runs begin -/

/-- What a run with some end begins with: the problem is refused, residuals at the start are not
finite, no step fits the start, or there is a first iterate to go on from by rounds. -/
inductive Kernel.Begins {σ : Type} (p : Problem α) (options : KernelOptions α)
    (shapeFault? : Option SolveError)
    (hasStep : Grid α p.equations p.unknowns → p.Point → Bool) (first : Iterate p → σ)
    (round : Nat → σ → Round σ α) (finish : Nat → σ → KernelReport α) (x0 : List α)
    (cancelled : Bool) (a : Attempt α) : Prop where
  | refused {e : SolveError} (fault : shapeFault? = some e) (ended : .failed e = a)
  | undefined (shaped : shapeFault? = none)
      (missing : Sample.at? p ⟨x0.toArray, x0.size_toArray⟩ = none)
      (ended : .failed (.nonFinite 0) = a)
  | misfit (shaped : shapeFault? = none) (misfit : x0.length ≠ p.unknowns)
      {i : Sample p x0.length} (sampled : Sample.at? p ⟨x0.toArray, x0.size_toArray⟩ = some i)
      (ended : ofMisfit options cancelled hasStep i = a)
  | iterated (shaped : shapeFault? = none) {x : p.Point}
      (given : Linear.vector? p.unknowns x0 = some x) {i : Iterate p}
      (sampled : Sample.at? p x = some i)
      (ended : iterate (fun iteration state =>
        if cancelled then .fail .cancelled else round iteration state) finish
          options.maxIterations 0 (first i) = a)

theorem Sample.at?_eq_none_of_length {p : Problem α} {x0 : List α} {k : Nat}
    (fits : x0.length = k) (missing : at? p (⟨x0.toArray, fits⟩ : Vector α k) = none) :
    at? p ⟨x0.toArray, x0.size_toArray⟩ = none := by
  subst fits
  exact missing

section Beginning

variable {name : String} {options : KernelOptions α} {shapeFault? : Problem α → Option SolveError}
  {hasStep : (p : Problem α) → Grid α p.equations p.unknowns → p.Point → Bool}
  {σ : Problem α → Type} {start : (p : Problem α) → Iterate p → σ p}
  {round : (p : Problem α) → Nat → σ p → Round (σ p) α}
  {finish : (p : Problem α) → Nat → σ p → KernelReport α}

theorem Kernel.begins_of_run {p : Problem α} {x0 : List α} {cancelled : Bool} {a : Attempt α}
    (ended : (ofRounds name options shapeFault? hasStep σ start round finish).run p x0 cancelled =
      a) :
    Begins p options (shapeFault? p) (hasStep p) (start p) (round p) (finish p) x0 cancelled a := by
  unfold ofRounds at ended
  simp only at ended
  split at ended
  next e fault => exact .refused fault ended
  next shaped =>
    split at ended
    next x given =>
      split at ended
      next missing =>
        have fits : x0.length = p.unknowns := by
          refine Decidable.byContradiction fun misfit => ?_
          rw [Linear.vector?, dif_neg misfit] at given
          cases given
        rw [Linear.vector?, dif_pos fits] at given
        cases given
        exact .undefined shaped (Sample.at?_eq_none_of_length fits missing) ended
      next i sampled => exact .iterated shaped given sampled ended
    next not_given =>
      have misfit : x0.length ≠ p.unknowns := by
        intro fits
        rw [Linear.vector?, dif_pos fits] at not_given
        cases not_given
      split at ended
      next missing => exact .undefined shaped missing ended
      next i sampled => exact .misfit shaped misfit sampled ended

/-- An iteration from iterates to iterates is faithful. -/
theorem Kernel.isFaithful_ofRounds
    (stops : ∀ p iteration state, (round p iteration state).IsFaithful p options)
    (finishes : ∀ p iterations state, (finish p iterations state).IsOnIterate p options) :
    (ofRounds name options shapeFault? hasStep σ start round finish).IsFaithful options := by
  intro p x0 cancelled r fits reported
  cases begins_of_run reported with
  | refused fault ended => cases ended
  | undefined shaped missing ended => cases ended
  | misfit shaped misfit sampled ended => exact absurd fits misfit
  | iterated shaped given sampled ended =>
    refine iterate_isOnIterate ?_ (finishes p) _ _ _ r ended
    intro iteration state
    cases cancelled with
    | true => exact Round.isFaithful_fail _
    | false => exact stops p iteration state

omit [Scalar α] in
theorem Kernel.iterate_ne_stalled {ρ : Type} (round : Nat → ρ → Round ρ α)
    (finish : Nat → ρ → KernelReport α) (remaining iteration : Nat) (state : ρ) :
    iterate round finish remaining iteration state ≠ .stalled := by
  induction remaining generalizing iteration state with
  | zero => exact nofun
  | succ remaining ih =>
    unfold iterate
    split
    next => exact ih _ _
    next => exact nofun
    next => exact nofun

theorem Kernel.ofMisfit_ne_stalled {p : Problem α} {k : Nat} (cancelled : Bool)
    (hasStep : Grid α p.equations p.unknowns → p.Point → Bool) (i : Sample p k) :
    ofMisfit options cancelled hasStep i ≠ .stalled := by
  unfold ofMisfit
  split
  next => exact nofun
  next =>
    split
    next => exact nofun
    next =>
      split
      next => split <;> exact nofun
      next => exact nofun
      next => exact nofun

/-- A method that iterates by rounds answers by itself, however late. -/
theorem Kernel.ofRounds_ne_stalled (p : Problem α) (x0 : List α) (cancelled : Bool) :
    (ofRounds name options shapeFault? hasStep σ start round finish).run p x0 cancelled ≠
      .stalled := by
  intro stalled
  cases begins_of_run stalled with
  | refused _ ended | undefined _ _ ended => cases ended
  | misfit _ _ _ ended => exact ofMisfit_ne_stalled cancelled _ _ ended
  | iterated _ _ _ ended => exact iterate_ne_stalled _ _ _ _ _ ended

end Beginning

namespace Newton

theorem Outcome.isFaithful {solver : LinearSolver α} {options : KernelOptions α} {p : Problem α}
    {iteration : Nat} {i : Iterate p} {r : Round (Iterate p) α}
    (outcome : Outcome solver options iteration i r) : r.IsFaithful p options := by
  cases outcome with
  | still | stuck => exact Round.isFaithful_report i iteration
  | undefined | singular => exact Round.isFaithful_fail _
  | small => exact Round.isFaithful_report _ (iteration + 1)
  | moved => exact Round.isFaithful_next _

theorem round_isFaithful (solver : LinearSolver α) (options : KernelOptions α) (p : Problem α)
    (iteration : Nat) (i : Iterate p) :
    (round solver options p iteration i).IsFaithful p options :=
  (outcome_of_round rfl).isFaithful

theorem kernel_isFaithful (solver : LinearSolver α) (options : KernelOptions α) :
    (kernel solver options).IsFaithful options :=
  Kernel.isFaithful_ofRounds (round_isFaithful solver options) fun _ n i => ⟨i, n, rfl⟩

end Newton

namespace Dogleg

theorem Outcome.isFaithful {solver : LinearSolver α} {options : KernelOptions α} {p : Problem α}
    {iteration : Nat} {s : State p} {r : Round (State p) α}
    (outcome : Outcome solver options iteration s r) : r.IsFaithful p options := by
  cases outcome with
  | still => exact Round.isFaithful_report s.iterate iteration
  | undefined | singular => exact Round.isFaithful_fail _
  | tried _ _ attempts =>
    obtain ⟨j, -, rfl | ⟨ratio, length, rfl⟩⟩ := attempts.ends
    · exact Round.isFaithful_report j (iteration + 1)
    · exact Round.isFaithful_next _

theorem round_isFaithful (solver : LinearSolver α) (options : KernelOptions α) (p : Problem α)
    (iteration : Nat) (s : State p) :
    (round solver options p iteration s).IsFaithful p options :=
  (outcome_of_round rfl).isFaithful

theorem kernel_isFaithful (solver : LinearSolver α) (options : KernelOptions α) :
    (kernel solver options).IsFaithful options :=
  Kernel.isFaithful_ofRounds (round_isFaithful solver options)
    fun _ n s => ⟨s.iterate, n, rfl⟩

end Dogleg

namespace LevenbergMarquardt

theorem Outcome.isFaithful {solver : LinearSolver α} {options : KernelOptions α} {p : Problem α}
    {iteration : Nat} {s : State p} {r : Round (State p) α}
    (outcome : Outcome solver options iteration s r) : r.IsFaithful p options := by
  cases outcome with
  | still | stuck => exact Round.isFaithful_report s.iterate iteration
  | undefined => exact Round.isFaithful_fail _
  | small => exact Round.isFaithful_report _ (iteration + 1)
  | moved => exact Round.isFaithful_next _

theorem round_isFaithful (solver : LinearSolver α) (options : KernelOptions α) (p : Problem α)
    (iteration : Nat) (s : State p) :
    (round solver options p iteration s).IsFaithful p options :=
  (outcome_of_round rfl).isFaithful

theorem kernel_isFaithful (solver : LinearSolver α) (options : KernelOptions α) :
    (kernel solver options).IsFaithful options :=
  Kernel.isFaithful_ofRounds (round_isFaithful solver options)
    fun _ n s => ⟨s.iterate, n, rfl⟩

end LevenbergMarquardt

/-- The kernels that settings choose are faithful, whatever linear solves come to. -/
theorem Method.kernel_isFaithful (m : Method) (solver : LinearSolver α)
    (options : KernelOptions α) : (m.kernel solver options).IsFaithful options := by
  cases m with
  | newtonLineSearch => exact Newton.kernel_isFaithful solver options
  | dogleg => exact Dogleg.kernel_isFaithful solver options
  | levenbergMarquardt => exact LevenbergMarquardt.kernel_isFaithful solver options

theorem Method.kernel_isComplete (m : Method) (solver : LinearSolver α)
    (options : KernelOptions α) : (m.kernel solver options).IsComplete :=
  (m.kernel_isFaithful solver options).isComplete

theorem Method.kernel_ne_stalled (m : Method) (solver : LinearSolver α)
    (options : KernelOptions α) (p : Problem α) (x0 : List α) (cancelled : Bool) :
    (m.kernel solver options).run p x0 cancelled ≠ .stalled := by
  cases m with
  | newtonLineSearch => exact Kernel.ofRounds_ne_stalled p x0 cancelled
  | dogleg => exact Kernel.ofRounds_ne_stalled p x0 cancelled
  | levenbergMarquardt => exact Kernel.ofRounds_ne_stalled p x0 cancelled

end Simultaneous
