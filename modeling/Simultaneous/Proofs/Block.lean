import Simultaneous.Proofs.Kernel
import Simultaneous.Proofs.Prepare

/-!
The result of a block is about the unknowns of the block, and an outcome with values has one value
for each of them. A block times out when its iteration is still without an answer after the limit.
-/

namespace Simultaneous

variable {α : Type}

namespace Outcome

theorem isError_eq (o : Outcome α) : o.isError = !o.hasValues := by
  cases o <;> rfl

end Outcome

/-- The result is about the unknowns, with one value for each if there are values. -/
structure BlockResult.Answers (r : BlockResult α) (unknowns : List String) : Prop where
  unknowns_eq : r.unknowns = unknowns
  length_values : r.outcome.hasValues → r.values.length = unknowns.length

namespace BlockResult

theorem answers_failed (unknowns : List String) (e : SolveError) :
    (failed unknowns e : BlockResult α).Answers unknowns :=
  ⟨rfl, fun values => by cases values⟩

theorem unknowns_ofAttempt (unknowns : List String) (attempt : Attempt α) :
    (ofAttempt unknowns attempt).unknowns = unknowns := by
  cases attempt <;> rfl

theorem answers_ofAttempt {unknowns : List String} {attempt : Attempt α}
    (complete : ∀ r, attempt = .report r → r.values.length = unknowns.length) :
    (ofAttempt unknowns attempt).Answers unknowns := by
  cases attempt with
  | report r => exact ⟨rfl, fun _ => complete r rfl⟩
  | failed e => exact answers_failed unknowns e
  | stalled => exact ⟨rfl, fun values => by cases values⟩
  | lost => exact answers_failed unknowns .workerLost

theorem failed_of_ofAttempt {unknowns : List String} {attempt : Attempt α}
    {e : SolveError} (failed : (ofAttempt unknowns attempt).outcome = .failed e) :
    attempt = .failed e ∨ e = .workerLost := by
  cases attempt with
  | report r =>
    rw [ofAttempt] at failed
    split at failed <;> cases failed
  | failed f =>
    cases failed
    exact .inl rfl
  | stalled => cases failed
  | lost =>
    cases failed
    exact .inr rfl

theorem ofAttempt_timedOut_iff {unknowns : List String} {attempt : Attempt α} :
    (ofAttempt unknowns attempt).outcome = .timedOut ↔ attempt = .stalled := by
  cases attempt with
  | report r =>
    refine iff_of_false ?_ nofun
    rw [ofAttempt]
    split <;> exact nofun
  | failed e => exact iff_of_false nofun nofun
  | stalled => exact iff_of_true rfl rfl
  | lost => exact iff_of_false nofun nofun

end BlockResult

namespace BlockSolver

/-- Started with one value per variable, the kernel that is used in place of those of the settings,
if there is one, reports one value per variable. -/
def IsComplete (b : BlockSolver α) : Prop := ∀ k, b.override? = some k → k.IsComplete

/-! ### Waiting -/

theorem await_cases (limit? : Option Nat) (pause : Nat) (answer : Attempt α) (elapsed : Nat)
    (delays : List Nat) : await limit? pause answer elapsed delays = answer ∨
      await limit? pause answer elapsed delays = .stalled := by
  induction delays generalizing elapsed with
  | nil => exact .inl rfl
  | cons delay later ih =>
    rw [await]
    split
    next => exact .inr rfl
    next => exact ih _

/-- How late it is when a thread was looked at some more times. -/
def lookedAt (pause elapsed : Nat) (delays : List Nat) : Nat :=
  delays.foldl (fun elapsed delay => elapsed + pause + delay) elapsed

theorem le_lookedAt (pause elapsed : Nat) (delays : List Nat) :
    elapsed ≤ lookedAt pause elapsed delays := by
  induction delays generalizing elapsed with
  | nil => exact Nat.le_refl elapsed
  | cons delay later ih =>
    have step : elapsed ≤ elapsed + pause + delay := by omega
    exact Nat.le_trans step (ih _)

/-- Waiting for an answer is given up exactly if the time is up at the last look that finds none. -/
theorem await_eq_stalled_iff {limit? : Option Nat} {pause : Nat} {answer : Attempt α}
    (answers : answer ≠ .stalled) (elapsed : Nat) (delays : List Nat) :
    await limit? pause answer elapsed delays = .stalled ↔
      delays ≠ [] ∧ ∃ limit, limit? = some limit ∧ limit ≤ lookedAt pause elapsed delays := by
  induction delays generalizing elapsed with
  | nil => exact iff_of_false answers fun ended => ended.1 rfl
  | cons delay later ih =>
    rw [await]
    simp only [List.cons_ne_nil, not_false_eq_true, ne_eq, true_and]
    split
    next late =>
      obtain ⟨limit, given, passed⟩ := (Option.any_eq_true _ _).1 late
      refine iff_of_true rfl ⟨limit, given, ?_⟩
      exact Nat.le_trans (of_decide_eq_true passed) (le_lookedAt pause _ later)
    next going =>
      rw [ih]
      refine ⟨And.right, fun ended => ⟨?_, ended⟩⟩
      rintro rfl
      obtain ⟨limit, given, passed⟩ := ended
      exact going ((Option.any_eq_true _ _).2 ⟨limit, given, decide_eq_true passed⟩)

theorem attempt_cases (b : BlockSolver α) (worker : Worker) (answer : Attempt α) :
    b.attempt worker answer = answer ∨ b.attempt worker answer = .stalled ∨
      b.attempt worker answer = .lost := by
  cases worker with
  | missing => exact .inr (.inr rfl)
  | watched delays => exact (await_cases _ _ _ _ _).imp_right .inl

theorem attempt_eq_stalled_iff (b : BlockSolver α) (worker : Worker) {answer : Attempt α}
    (answers : answer ≠ .stalled) :
    b.attempt worker answer = .stalled ↔
      ∃ delays limit, worker = .watched delays ∧ delays ≠ [] ∧
        b.timing.nanoseconds? b.settings.timeout = some limit ∧
        limit ≤ lookedAt (b.settings.pollInterval * 1000000) 0 delays := by
  cases worker with
  | missing => exact iff_of_false nofun nofun
  | watched delays =>
    refine (await_eq_stalled_iff answers 0 delays).trans ?_
    constructor
    · rintro ⟨some, limit, given, passed⟩
      exact ⟨delays, limit, rfl, some, given, passed⟩
    · rintro ⟨_, limit, same, some, given, passed⟩
      cases same
      exact ⟨some, limit, given, passed⟩

theorem eq_of_attempt {b : BlockSolver α} {worker : Worker} {answer ended : Attempt α}
    (comes : b.attempt worker answer = ended) (in_time : ended ≠ .stalled) (kept : ended ≠ .lost) :
    answer = ended := by
  rcases b.attempt_cases worker answer with same | given_up | lost
  · exact same.symm.trans comes
  · exact absurd (comes.symm.trans given_up) in_time
  · exact absurd (comes.symm.trans lost) kept

/-! ### Answers -/

variable [Scalar α] {b : BlockSolver α}

theorem answers_dispatch (complete : b.IsComplete) (worker : Worker) (method : Method)
    {unknowns : List String} {p : Problem α} {x0 : List α} (fits : p.unknowns = unknowns.length)
    (started : x0.length = unknowns.length) :
    (b.dispatch worker method unknowns p x0).Answers unknowns := by
  apply BlockResult.answers_ofAttempt
  intro r reported
  replace reported := eq_of_attempt reported nofun nofun
  rw [← fits] at started ⊢
  cases chosen : b.override? with
  | none =>
    rw [chosen, Option.getD_none] at reported
    exact method.kernel_isComplete b.linear _ p x0 false r started reported
  | some k =>
    rw [chosen, Option.getD_some] at reported
    exact complete k chosen p x0 false r started reported

theorem answers_direct? {e : Equation α} {name : String} {x0 : α} {result : BlockResult α}
    (solved : direct? e name x0 = some result) : result.Answers [name] := by
  rcases direct?_eq_some solved with ⟨x, rfl⟩ | rfl
  · exact ⟨rfl, fun _ => rfl⟩
  · exact BlockResult.answers_failed [name] _

variable {residuals unknowns : List String} {bindings initial : Assoc α}

theorem answers_of_prepare {result : BlockResult α}
    (prepared : b.prepare residuals unknowns bindings initial = .inl result) :
    result.Answers unknowns := by
  cases prepares_of_eq prepared with
  | tooFew | unread | tooLarge => exact BlockResult.answers_failed unknowns _
  | direct _ _ solved => exact answers_direct? solved

theorem unknowns_solve (worker : Worker) (residuals unknowns : List String)
    (bindings initial : Assoc α) :
    (b.solve worker residuals unknowns bindings initial).unknowns = unknowns := by
  rw [← b.finish_prepare]
  cases prepared : b.prepare residuals unknowns bindings initial with
  | inl result => exact (answers_of_prepare prepared).unknowns_eq
  | inr t => exact BlockResult.unknowns_ofAttempt _ _

theorem answers_solve (complete : b.IsComplete) (worker : Worker) (residuals : List String)
    {unknowns : List String} (distinct : unknowns.Nodup) (bindings initial : Assoc α) :
    (b.solve worker residuals unknowns bindings initial).Answers unknowns := by
  rw [← b.finish_prepare]
  cases prepared : b.prepare residuals unknowns bindings initial with
  | inl result => exact answers_of_prepare prepared
  | inr t =>
    obtain ⟨-, -, fits, started⟩ := prepare_sizes distinct prepared
    exact answers_dispatch complete worker t.method fits started

/-! ### Time limits -/

theorem prepare_ne_timedOut {result : BlockResult α}
    (prepared : b.prepare residuals unknowns bindings initial = .inl result) :
    result.outcome ≠ .timedOut := by
  cases prepares_of_eq prepared with
  | tooFew | unread | tooLarge => exact nofun
  | direct _ _ solved =>
    rcases direct?_eq_some solved with ⟨x, rfl⟩ | rfl
    · exact nofun
    · exact nofun

/-- With the iterations that settings choose, a block times out exactly if one is started on it and
has no answer at some look at its thread, the last of which comes when the time is up. -/
theorem solve_timedOut_iff (own : b.override? = none) (worker : Worker) :
    (b.solve worker residuals unknowns bindings initial).outcome = .timedOut ↔
      (∃ t, b.prepare residuals unknowns bindings initial = .inr t) ∧
        ∃ delays limit, worker = .watched delays ∧ delays ≠ [] ∧
          b.timing.nanoseconds? b.settings.timeout = some limit ∧
          limit ≤ lookedAt (b.settings.pollInterval * 1000000) 0 delays := by
  rw [← b.finish_prepare]
  cases prepared : b.prepare residuals unknowns bindings initial with
  | inl result => exact iff_of_false (prepare_ne_timedOut prepared) (fun started => nomatch started.1)
  | inr t =>
    have answers := t.method.kernel_ne_stalled b.linear b.settings.kernelOptions t.problem t.start
      false
    rw [finish, dispatch, own, Option.getD_none, BlockResult.ofAttempt_timedOut_iff,
      b.attempt_eq_stalled_iff worker answers]
    exact (and_iff_right ⟨t, rfl⟩).symm

end BlockSolver

end Simultaneous
