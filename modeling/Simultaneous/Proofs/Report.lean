import Simultaneous.Proofs.Kernel
import Simultaneous.Proofs.Linear.Magnitude

/-!
What a report says about its values. Iterations carry a point together with its residuals, so
whatever they report on, the residuals there are finite, and the norm is that of exactly these. This
holds also of a start that has another number of values than the problem has variables: no step
fits it, but an iteration may report on the start itself.
-/

namespace Simultaneous

open Scalar

section Samples

variable {α : Type} [Scalar α] {p : Problem α} {options : KernelOptions α} {k : Nat}

def Problem.residualsAt (p : Problem α) (values : List α) : List α :=
  (Linear.vectorOf p.equations (p.residuals values.toArray)).toList

def KernelReport.IsOnSample (r : KernelReport α) (p : Problem α) (k : Nat)
    (options : KernelOptions α) : Prop :=
  ∃ (i : Sample p k) (iterations : Nat), r = i.report iterations options

theorem Sample.residual_spec (i : Sample p k) :
    Linear.isFinite i.residual = true ∧ i.residual.toList = p.residualsAt i.point.toList := by
  have sampled := i.residual_eq
  unfold Problem.finiteResidual? at sampled
  simp only at sampled
  split at sampled
  next finite =>
    have same : p.residual i.point = i.residual := Option.some.inj sampled
    refine ⟨same ▸ finite, ?_⟩
    rw [← same]
    rfl
  next => cases sampled

theorem Sample.eq_report_of_inspect {i : Sample p k} {iteration : Nat} {r : KernelReport α}
    (stopped : i.inspect options iteration = .stop r) : r = i.report iteration options := by
  cases inspection_of_inspect stopped with
  | root | flat => rfl

theorem Kernel.eq_report_of_ofMisfit {cancelled : Bool}
    {hasStep : Grid α p.equations p.unknowns → p.Point → Bool} {i : Sample p k}
    {r : KernelReport α} (reported : ofMisfit options cancelled hasStep i = .report r) :
    r = i.report 0 options := by
  unfold ofMisfit at reported
  split at reported
  next none_allowed => exact (Attempt.report.inj reported).symm
  next =>
    split at reported
    next => cases reported
    next =>
      split at reported
      next jacobian gradient going_on =>
        split at reported
        next => cases reported
        next no_step => exact (Attempt.report.inj reported).symm
      next s stopped =>
        cases reported
        exact Sample.eq_report_of_inspect stopped
      next => cases reported

/-- From a start of any length, an iteration that is faithful where the length is right reports on a
sample of that length. -/
theorem Kernel.isOnSample_of_ofRounds {name : String} {shapeFault? : Problem α → Option SolveError}
    {hasStep : (p : Problem α) → Grid α p.equations p.unknowns → p.Point → Bool}
    {σ : Problem α → Type} {start : (p : Problem α) → Iterate p → σ p}
    {round : (p : Problem α) → Nat → σ p → Round (σ p) α}
    {finish : (p : Problem α) → Nat → σ p → KernelReport α}
    (faithful : (ofRounds name options shapeFault? hasStep σ start round finish).IsFaithful options)
    {x0 : List α} {cancelled : Bool} {r : KernelReport α}
    (reported : (ofRounds name options shapeFault? hasStep σ start round finish).run p x0
      cancelled = .report r) :
    r.IsOnSample p x0.length options := by
  by_cases fits : x0.length = p.unknowns
  · rw [fits]
    exact faithful p x0 cancelled r fits reported
  · cases begins_of_run reported with
    | refused fault ended => cases ended
    | undefined shaped missing ended => cases ended
    | misfit shaped misfit sampled ended => exact ⟨_, 0, eq_report_of_ofMisfit ended⟩
    | iterated shaped given sampled ended =>
      rw [Linear.vector?, dif_neg fits] at given
      cases given

theorem Method.kernel_isOnSample {m : Method} {solver : LinearSolver α} {x0 : List α}
    {cancelled : Bool} {r : KernelReport α}
    (reported : (m.kernel solver options).run p x0 cancelled = .report r) :
    r.IsOnSample p x0.length options := by
  have faithful := m.kernel_isFaithful solver options
  cases m with
  | newtonLineSearch => exact Kernel.isOnSample_of_ofRounds faithful reported
  | dogleg => exact Kernel.isOnSample_of_ofRounds faithful reported
  | levenbergMarquardt => exact Kernel.isOnSample_of_ofRounds faithful reported

end Samples

namespace Method

/-- A report has as many values as the start. All residuals at its values are finite, its norm is
the largest magnitude of these, and it says that the iteration converged exactly if the norm is
within the tolerance. -/
theorem report_spec {α : Type} [Scalar α] [LawfulOrder α] (m : Method) (solver : LinearSolver α)
    (options : KernelOptions α) (p : Problem α) (start : List α) (cancelled : Bool)
    (r : KernelReport α) (reported : (m.kernel solver options).run p start cancelled = .report r) :
    r.values.length = start.length ∧
      (∀ c ∈ p.residualsAt r.values, isFinite c = true) ∧
      IsLargestMagnitude r.residualNorm (p.residualsAt r.values) ∧
      (r.converged = true ↔ le r.residualNorm options.precision = true) := by
  obtain ⟨i, iterations, rfl⟩ := kernel_isOnSample reported
  obtain ⟨finite, same⟩ := i.residual_spec
  have values : (i.report iterations options).values = i.point.toList := rfl
  rw [values, ← same]
  refine ⟨i.point.length_toList, fun c member => ?_, Linear.isLargestMagnitude_maxAbs finite,
    Iff.rfl⟩
  exact Vector.all_eq_true_iff_forall_mem.1 finite c (Vector.mem_toList_iff.1 member)

def twice : Problem (Exact Interpretation.rational.arithmetic) where
  equations := 1
  unknowns := 1
  residuals point := point.map fun x => ofInt 2 * x - ofInt 6
  jacobian _ := #[ofInt 2]
  hessian? := none

def twiceReport : KernelReport (Exact Interpretation.rational.arithmetic) :=
  ⟨[.of 3], 1, .of 0, true⟩

theorem twice_report_spec :
    twiceReport.values.length = 1 ∧
      (∀ c ∈ twice.residualsAt twiceReport.values, isFinite c = true) ∧
      IsLargestMagnitude twiceReport.residualNorm (twice.residualsAt twiceReport.values) ∧
      (twiceReport.converged = true ↔
        le twiceReport.residualNorm Settings.standard.kernelOptions.precision = true) :=
  report_spec newtonLineSearch .direct Settings.standard.kernelOptions twice [.of 0] false
    twiceReport (by decide +kernel)

end Method

end Simultaneous
