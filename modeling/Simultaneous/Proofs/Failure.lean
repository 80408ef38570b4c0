import Simultaneous.Proofs.Block

/-!
What the solve of a block fails with. Before any iteration that is the number of its equations, the
text of one of them, or a value that is not finite; an iteration on the task of a block can fail with
what it computes, but neither with the shape of the task nor with the text of an equation.
-/

namespace Simultaneous

variable {α : Type}

/-! ### Failures of iterations -/

/-- The failure comes up when all texts are read: it is neither about the numbers of equations and
unknowns nor about the text of an equation. -/
def SolveError.IsLate : SolveError → Prop
  | equation (.build _) | nonFinite _ | singular _ | workerLost | cancelled => True
  | equation _ | underDetermined _ _ | notSquare _ _ => False

def Round.FailsLate {σ : Type} (round : Round σ α) : Prop :=
  ∀ e, round = .fail e → e.IsLate

def Kernel.TakesSquare (k : Kernel α) : Prop :=
  ∀ (p : Problem α) (start : List α) (cancelled : Bool) (e : SolveError),
    p.equations = p.unknowns → k.run p start cancelled = .failed e → e.IsLate

/-- The iteration never fails with an equation that is not converted: it reads no text. -/
def Kernel.ReadsNoText (k : Kernel α) : Prop :=
  ∀ (p : Problem α) (start : List α) (cancelled : Bool) (e : ConversionError),
    k.run p start cancelled ≠ .failed (.equation (.conversion e))

section Rounds

variable {σ τ : Type}

theorem Round.failsLate_next (state : σ) : (next state : Round σ α).FailsLate := by
  intro e failed
  cases failed

theorem Round.failsLate_stop (r : KernelReport α) : (stop r : Round σ α).FailsLate := by
  intro e failed
  cases failed

theorem Round.failsLate_fail {e : SolveError} (late : e.IsLate) :
    (fail e : Round σ α).FailsLate := by
  intro f failed
  cases failed
  exact late

theorem Kernel.iterate_failsLate {round : Nat → σ → Round σ α} {finish : Nat → σ → KernelReport α}
    (late : ∀ iteration state, (round iteration state).FailsLate) (remaining iteration : Nat)
    (state : σ) (e : SolveError)
    (failed : iterate round finish remaining iteration state = .failed e) : e.IsLate := by
  induction remaining generalizing iteration state with
  | zero => cases failed
  | succ remaining ih =>
    unfold iterate at failed
    split at failed
    next later going_on => exact ih (iteration + 1) later failed
    next r stopped => cases failed
    next f stopped =>
      cases failed
      exact late iteration state e stopped

variable [Scalar α] {p : Problem α} {k : Nat}

theorem Sample.Inspection.failsLate {i : Sample p k} {options : KernelOptions α} {iteration : Nat}
    {r : Round (Grid α p.equations p.unknowns × p.Point) α}
    (inspection : i.Inspection options iteration r) : r.FailsLate := by
  cases inspection with
  | root | flat => exact Round.failsLate_stop _
  | undefined => exact Round.failsLate_fail trivial
  | steep => exact Round.failsLate_next _

theorem Kernel.ofMisfit_failsLate (options : KernelOptions α) (cancelled : Bool)
    (hasStep : Grid α p.equations p.unknowns → p.Point → Bool) (i : Sample p k) (e : SolveError)
    (failed : ofMisfit options cancelled hasStep i = .failed e) : e.IsLate := by
  unfold ofMisfit at failed
  split at failed
  next => cases failed
  next =>
    split at failed
    next =>
      cases failed
      exact trivial
    next =>
      split at failed
      next jacobian gradient inspected =>
        split at failed
        next => cases failed
        next => cases failed
      next r stopped => cases failed
      next f stopped =>
        cases failed
        exact (Sample.inspection_of_inspect stopped).failsLate e rfl

end Rounds

variable [Scalar α]

/-- An iteration takes square problems if it finds no fault with their shape. -/
theorem Kernel.takesSquare_ofRounds {name : String} {options : KernelOptions α}
    {shapeFault? : Problem α → Option SolveError}
    {hasStep : (p : Problem α) → Grid α p.equations p.unknowns → p.Point → Bool}
    {σ : Problem α → Type} {start : (p : Problem α) → Iterate p → σ p}
    {round : (p : Problem α) → Nat → σ p → Round (σ p) α}
    {finish : (p : Problem α) → Nat → σ p → KernelReport α}
    (square : ∀ p : Problem α, p.equations = p.unknowns → shapeFault? p = none)
    (late : ∀ p iteration state, (round p iteration state).FailsLate) :
    (ofRounds name options shapeFault? hasStep σ start round finish).TakesSquare := by
  intro p x0 cancelled e equal failed
  cases begins_of_run failed with
  | refused fault ended =>
    rw [square p equal] at fault
    cases fault
  | undefined shaped missing ended =>
    cases ended
    exact trivial
  | misfit shaped misfit sampled ended =>
    exact ofMisfit_failsLate options cancelled (hasStep p) _ e ended
  | iterated shaped given sampled ended =>
    refine iterate_failsLate ?_ _ _ _ e ended
    intro iteration state
    cases cancelled with
    | true => exact Round.failsLate_fail trivial
    | false => exact late p iteration state

theorem Newton.Outcome.failsLate {solver : LinearSolver α} {options : KernelOptions α}
    {p : Problem α} {iteration : Nat} {i : Iterate p} {r : Round (Iterate p) α}
    (outcome : Outcome solver options iteration i r) : r.FailsLate := by
  cases outcome with
  | still | stuck | small => exact Round.failsLate_stop _
  | undefined | singular => exact Round.failsLate_fail trivial
  | moved => exact Round.failsLate_next _

theorem Dogleg.Outcome.failsLate {solver : LinearSolver α} {options : KernelOptions α}
    {p : Problem α} {iteration : Nat} {s : State p} {r : Round (State p) α}
    (outcome : Outcome solver options iteration s r) : r.FailsLate := by
  cases outcome with
  | still => exact Round.failsLate_stop _
  | undefined | singular => exact Round.failsLate_fail trivial
  | tried _ _ attempts =>
    obtain ⟨j, -, rfl | ⟨ratio, length, rfl⟩⟩ := attempts.ends
    · exact Round.failsLate_stop _
    · exact Round.failsLate_next _

theorem LevenbergMarquardt.Outcome.failsLate {solver : LinearSolver α} {options : KernelOptions α}
    {p : Problem α} {iteration : Nat} {s : State p} {r : Round (State p) α}
    (outcome : Outcome solver options iteration s r) : r.FailsLate := by
  cases outcome with
  | still | stuck | small => exact Round.failsLate_stop _
  | undefined => exact Round.failsLate_fail trivial
  | moved => exact Round.failsLate_next _

theorem Method.kernel_takesSquare (m : Method) (solver : LinearSolver α)
    (options : KernelOptions α) : (m.kernel solver options).TakesSquare := by
  cases m with
  | newtonLineSearch =>
    exact Kernel.takesSquare_ofRounds (fun p equal => if_pos equal)
      (fun _ _ _ => (Newton.outcome_of_round rfl).failsLate)
  | dogleg =>
    exact Kernel.takesSquare_ofRounds (fun p equal => if_pos equal)
      (fun _ _ _ => (Dogleg.outcome_of_round rfl).failsLate)
  | levenbergMarquardt =>
    exact Kernel.takesSquare_ofRounds
      (fun p equal => if_neg (Nat.not_lt.2 (Nat.le_of_eq equal.symm)))
      (fun _ _ _ => (LevenbergMarquardt.outcome_of_round rfl).failsLate)

/-! ### Failures of blocks -/

namespace BlockSolver

variable {b : BlockSolver α}

/-- What a block fails with before any iteration: too few equations, the text of one that is not
converted, too many outputs, or a value that is not finite. -/
theorem prepare_failed {residuals unknowns : List String} {bindings initial : Assoc α}
    {result : BlockResult α} (prepared : b.prepare residuals unknowns bindings initial = .inl result)
    {e : SolveError} (failed : result.outcome = .failed e) :
    e = .underDetermined residuals.length unknowns.length ∨
      (∃ text ∈ residuals, ∃ f, Expr.ofResidual (⟨unknowns, bindings⟩ : Names α) text = .error f ∧
        e = .equation f) ∨ e.IsLate := by
  cases prepares_of_eq prepared with
  | tooFew =>
    cases failed
    exact .inl rfl
  | unread _ member made =>
    cases failed
    exact .inr (.inl ⟨_, member, _, made, rfl⟩)
  | tooLarge =>
    cases failed
    exact .inr (.inr trivial)
  | direct _ _ solved =>
    rcases direct?_eq_some solved with ⟨x, rfl⟩ | rfl
    · cases failed
    · cases failed
      exact .inr (.inr trivial)

/-- What a block fails with that has distinct unknowns and no more equations than these: as above,
in the course of an iteration, or with what an iteration in place of those of the settings fails
with. -/
theorem solve_failed {residuals unknowns : List String} (distinct : unknowns.Nodup)
    (few : residuals.length ≤ unknowns.length) {worker : Worker} {bindings initial : Assoc α}
    {e : SolveError}
    (failed : (b.solve worker residuals unknowns bindings initial).outcome = .failed e) :
    e = .underDetermined residuals.length unknowns.length ∨
      (∃ text ∈ residuals, ∃ f, Expr.ofResidual (⟨unknowns, bindings⟩ : Names α) text = .error f ∧
        e = .equation f) ∨ e.IsLate ∨
      ∃ k p x0, b.override? = some k ∧ k.run p x0 false = .failed e := by
  rw [← b.finish_prepare] at failed
  cases prepared : b.prepare residuals unknowns bindings initial with
  | inl result =>
    rw [prepared] at failed
    exact (prepare_failed prepared failed).imp_right (Or.imp_right .inl)
  | inr t =>
    right
    right
    rw [prepared] at failed
    obtain ⟨many, equations_eq, unknowns_eq, -⟩ := prepare_sizes distinct prepared
    have square : t.problem.equations = t.problem.unknowns := by omega
    change (BlockResult.ofAttempt unknowns _).outcome = _ at failed
    have takes := t.method.kernel_takesSquare b.linear b.settings.kernelOptions t.problem t.start
      false
    generalize chosen : b.override?.getD (t.method.kernel b.linear b.settings.kernelOptions) = k
      at failed
    rcases BlockResult.failed_of_ofAttempt failed with ended | rfl
    · have attempt := eq_of_attempt ended nofun nofun
      cases own : b.override? with
      | none =>
        rw [own, Option.getD_none] at chosen
        exact .inl (takes e square (chosen ▸ attempt))
      | some l =>
        rw [own, Option.getD_some] at chosen
        exact .inr ⟨l, _, _, rfl, chosen ▸ attempt⟩
    · exact .inl trivial

theorem solve_ne_notSquare (own : b.override? = none) {residuals unknowns : List String}
    (distinct : unknowns.Nodup) (few : residuals.length ≤ unknowns.length)
    (worker : Worker) (bindings initial : Assoc α) (m n : Nat) :
    (b.solve worker residuals unknowns bindings initial).outcome ≠ .failed (.notSquare m n) := by
  intro failed
  rcases solve_failed distinct few failed with same | ⟨_, _, _, _, same⟩ | late | ⟨k, _, _, other, _⟩
  · cases same
  · cases same
  · cases late
  · cases own.symm.trans other

/-- Where the iteration reads no text, a block fails to convert only if one of its residuals does. -/
theorem exists_unconverted (reads : ∀ k, b.override? = some k → k.ReadsNoText)
    {residuals unknowns : List String} (distinct : unknowns.Nodup)
    (few : residuals.length ≤ unknowns.length) {worker : Worker} {bindings initial : Assoc α}
    {e : ConversionError} (failed : (b.solve worker residuals unknowns bindings initial).outcome =
      .failed (.equation (.conversion e))) :
    ∃ text ∈ residuals, ∃ tree, Formula.read text = .ok tree ∧
      Expr.ofNode (⟨unknowns, bindings⟩ : Names α) tree = .error e := by
  rcases solve_failed distinct few failed with same | ⟨text, member, f, made, same⟩ | late |
    ⟨k, p, x0, other, attempt⟩
  · cases same
  · cases same
    refine ⟨text, member, ?_⟩
    unfold Expr.ofResidual Expr.ofText at made
    cases read : Formula.read text with
    | error d =>
      rw [read] at made
      cases made
    | ok tree =>
      rw [read] at made
      cases converted : Expr.ofNode (⟨unknowns, bindings⟩ : Names α) tree with
      | error d =>
        simp only [converted] at made
        cases made
        exact ⟨tree, rfl, converted⟩
      | ok x =>
        simp only [converted] at made
        cases made
  · cases late
  · exact absurd attempt (reads k other p x0 false e)

end BlockSolver

end Simultaneous
