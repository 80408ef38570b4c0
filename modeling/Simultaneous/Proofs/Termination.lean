import Simultaneous.Proofs.Retry

/-!
Every run ends. A run goes through rounds, at most as many as it may, and a report counts no more
than there were. The loop inside a round ends because of what the rounds keep: from the first one on,
the damping is at least a positive number that does not depend on the problem.
-/

namespace Simultaneous

open Scalar Linear

section Rounds

variable {α : Type} [Scalar α] {p : Problem α}

/-! ### The parts of a method -/

namespace Method

def State (m : Method) (p : Problem α) : Type :=
  match m with
  | newtonLineSearch => Iterate p
  | dogleg => Dogleg.State p
  | levenbergMarquardt => LevenbergMarquardt.State p

def first (m : Method) (options : KernelOptions α) (i : Iterate p) : m.State p :=
  match m with
  | newtonLineSearch => i
  | dogleg => ⟨i, Scalar.min options.trustRadius options.maxJump⟩
  | levenbergMarquardt => ⟨i, none⟩

def iterateOf (m : Method) : m.State p → Iterate p :=
  match m with
  | newtonLineSearch => id
  | dogleg => Dogleg.State.iterate
  | levenbergMarquardt => LevenbergMarquardt.State.iterate

def round (m : Method) (solver : LinearSolver α) (options : KernelOptions α) :
    (iteration : Nat) → m.State p → Round (m.State p) α :=
  match m with
  | newtonLineSearch => Newton.round solver options p
  | dogleg => Dogleg.round solver options p
  | levenbergMarquardt => LevenbergMarquardt.round solver options p

def shapeFault? (m : Method) (p : Problem α) : Option SolveError :=
  match m with
  | newtonLineSearch | dogleg =>
    if p.equations = p.unknowns then none else some (.notSquare p.equations p.unknowns)
  | levenbergMarquardt =>
    if p.equations < p.unknowns then some (.underDetermined p.equations p.unknowns) else none

def hasStep (m : Method) (solver : LinearSolver α) (jacobian : Grid α p.equations p.unknowns)
    (gradient : p.Point) : Bool :=
  match m with
  | newtonLineSearch | dogleg => true
  | levenbergMarquardt =>
    let normal := LevenbergMarquardt.normal jacobian
    let diagonal := LevenbergMarquardt.dampedDiagonal normal
    LevenbergMarquardt.hasStep solver normal diagonal gradient LevenbergMarquardt.dampingLimit
      (LevenbergMarquardt.firstDamping diagonal)

theorem run_kernel_eq (m : Method) (solver : LinearSolver α) (options : KernelOptions α) :
    (m.kernel solver options).run = (Kernel.ofRounds m.name options m.shapeFault?
      (fun _ => m.hasStep solver) m.State (fun _ => m.first options)
      (fun _ => m.round solver options)
      fun _ n s => (m.iterateOf s).report n options).run := by
  cases m <;> rfl

end Method

/-! ### Inner loops -/

def Newton.LoopEnds (solver : LinearSolver α) (options : KernelOptions α) (most : Nat)
    (i : Iterate p) : Prop :=
  ∀ iteration jacobian gradient full,
    i.inspect options iteration = .next (jacobian, gradient) →
      fullStep? solver i jacobian gradient = some full →
        let step := Problem.clamp full options.maxJump
        let slope := dot gradient step
        ∃ tries ≤ most, (halving i step slope).Ends one tries (search? i step slope fractionLimit one)

def LevenbergMarquardt.LoopEnds (solver : LinearSolver α) (options : KernelOptions α) (most : Nat)
    (s : State p) : Prop :=
  ∀ iteration jacobian gradient,
    s.iterate.inspect options iteration = .next (jacobian, gradient) →
      let normal := normal jacobian
      let diagonal := dampedDiagonal normal
      let damping := s.damping.getD (firstDamping diagonal)
      lt zero damping = true ∧
        ∃ tries ≤ most, (doubling (descent? solver options s.iterate normal diagonal gradient)).Ends
          damping tries
          (search? solver options s.iterate normal diagonal gradient dampingLimit damping)

def LevenbergMarquardt.StartLoopEnds {k : Nat} (solver : LinearSolver α)
    (options : KernelOptions α) (most : Nat) (i : Sample p k) : Prop :=
  ∀ jacobian gradient, i.inspect options 0 = .next (jacobian, gradient) →
    let normal := normal jacobian
    let diagonal := dampedDiagonal normal
    let damping := firstDamping diagonal
    lt zero damping = true ∧
      ∃ tries ≤ most, ∃ found : Option p.Point,
        (doubling (dampedStep? solver normal diagonal gradient)).Ends damping tries found ∧
          hasStep solver normal diagonal gradient dampingLimit damping = found.isSome

namespace Method

def LoopEnds (m : Method) (solver : LinearSolver α) (options : KernelOptions α)
    (halvings doublings : Nat) : m.State p → Prop :=
  match m with
  | newtonLineSearch => Newton.LoopEnds solver options halvings
  | dogleg => fun _ => True
  | levenbergMarquardt => LevenbergMarquardt.LoopEnds solver options doublings

def StartLoopEnds {k : Nat} (m : Method) (solver : LinearSolver α) (options : KernelOptions α)
    (doublings : Nat) (i : Sample p k) : Prop :=
  match m with
  | newtonLineSearch | dogleg => True
  | levenbergMarquardt => LevenbergMarquardt.StartLoopEnds solver options doublings i

end Method

/-! ### Runs -/

/-- Rounds from a state end after a number of them: with a report at the limit, or with the last
round. Each of them goes through an inner loop that ends. -/
inductive Kernel.Takes {σ : Type} (loopEnds : σ → Prop) (round : Nat → σ → Round σ α)
    (finish : Nat → σ → KernelReport α) (limit : Nat) :
    (iteration : Nat) → σ → (rounds : Nat) → Attempt α → Prop where
  | limit {state : σ} : Takes loopEnds round finish limit limit state 0 (.report (finish limit state))
  | next {iteration rounds : Nat} {state later : σ} {a : Attempt α} (within : iteration < limit)
      (ends : loopEnds state) (going_on : round iteration state = .next later)
      (rest : Takes loopEnds round finish limit (iteration + 1) later rounds a) :
      Takes loopEnds round finish limit iteration state (rounds + 1) a
  | stop {iteration : Nat} {state : σ} {r : KernelReport α} (within : iteration < limit)
      (ends : loopEnds state) (stopped : round iteration state = .stop r) :
      Takes loopEnds round finish limit iteration state 1 (.report r)
  | fail {iteration : Nat} {state : σ} {e : SolveError} (within : iteration < limit)
      (ends : loopEnds state) (failed : round iteration state = .fail e) :
      Takes loopEnds round finish limit iteration state 1 (.failed e)

/-- A run of a method ends after a number of rounds. Without a first iterate there are none; only
where the start has another number of values than there are variables, the first round begins. -/
inductive Method.RunEnds (m : Method) (solver : LinearSolver α) (options : KernelOptions α)
    (p : Problem α) (start : List α) (cancelled : Bool) (halvings doublings : Nat) :
    (rounds : Nat) → Attempt α → Prop where
  | refused {e : SolveError} (fault : m.shapeFault? p = some e) :
      RunEnds m solver options p start cancelled halvings doublings 0 (.failed e)
  | undefined (shaped : m.shapeFault? p = none)
      (missing : Sample.at? p ⟨start.toArray, start.size_toArray⟩ = none) :
      RunEnds m solver options p start cancelled halvings doublings 0 (.failed (.nonFinite 0))
  | misfit (shaped : m.shapeFault? p = none) (misfit : start.length ≠ p.unknowns)
      {i : Sample p start.length}
      (sampled : Sample.at? p ⟨start.toArray, start.size_toArray⟩ = some i)
      (ends : m.StartLoopEnds solver options doublings i) :
      RunEnds m solver options p start cancelled halvings doublings (min 1 options.maxIterations)
        (Kernel.ofMisfit options cancelled (m.hasStep solver) i)
  | iterated (shaped : m.shapeFault? p = none) {i : Iterate p}
      (sampled : Sample.ofValues? p start = some i) {rounds : Nat} {a : Attempt α}
      (takes : Kernel.Takes (m.LoopEnds solver options halvings doublings)
        (fun iteration state =>
          if cancelled then .fail .cancelled else m.round solver options iteration state)
        (fun n s => (m.iterateOf s).report n options) options.maxIterations 0
        (m.first options i) rounds a) :
      RunEnds m solver options p start cancelled halvings doublings rounds a

/-! ### One round -/

/-- A round goes on from a state with a property, or reports a number of iterations that counts no
further round. -/
structure Round.Counts {σ : Type} (I : σ → Prop) (iteration : Nat) (round : Round σ α) : Prop where
  keeps : ∀ state, round = .next state → I state
  counts : ∀ r, round = .stop r → r.iterations ≤ iteration + 1

section Counting

variable {σ τ : Type} {I : σ → Prop} {options : KernelOptions α} {iteration : Nat}

omit [Scalar α] in
theorem Round.counts_fail (e : SolveError) : (fail e : Round σ α).Counts I iteration :=
  ⟨nofun, nofun⟩

omit [Scalar α] in
theorem Round.counts_next {state : σ} (holds : I state) :
    (next state : Round σ α).Counts I iteration where
  keeps later same := by
    cases same
    exact holds
  counts := nofun

theorem Round.counts_report {k : Nat} (i : Sample p k) {iterations : Nat}
    (within : iterations ≤ iteration + 1) :
    (stop (i.report iterations options) : Round σ α).Counts I iteration where
  keeps := nofun
  counts r same := by
    cases same
    exact within

theorem Newton.Outcome.counts {solver : LinearSolver α} {i : Iterate p} {r : Round (Iterate p) α}
    (outcome : Outcome solver options iteration i r) : r.Counts (fun _ => True) iteration := by
  cases outcome with
  | still | stuck => exact Round.counts_report i (Nat.le_succ iteration)
  | undefined | singular => exact Round.counts_fail _
  | small => exact Round.counts_report _ le_rfl
  | moved => exact Round.counts_next trivial

theorem Dogleg.Outcome.counts {solver : LinearSolver α} {s : State p} {r : Round (State p) α}
    (outcome : Outcome solver options iteration s r) : r.Counts (fun _ => True) iteration := by
  cases outcome with
  | still => exact Round.counts_report s.iterate (Nat.le_succ iteration)
  | undefined | singular => exact Round.counts_fail _
  | tried _ _ attempts =>
    obtain ⟨j, -, rfl | ⟨ratio, length, rfl⟩⟩ := attempts.ends
    · exact Round.counts_report j le_rfl
    · exact Round.counts_next trivial

/-- Whatever damping a round ends with, what it carries on is a third of that, or the least one. -/
theorem LevenbergMarquardt.Outcome.counts {solver : LinearSolver α} {s : State p}
    {r : Round (State p) α} (outcome : Outcome solver options iteration s r) :
    r.Counts (fun later => ∃ damping,
      later.damping = some (Scalar.max (damping / ofInt 3) leastDamping)) iteration := by
  cases outcome with
  | still | stuck => exact Round.counts_report s.iterate (Nat.le_succ iteration)
  | undefined => exact Round.counts_fail _
  | small => exact Round.counts_report _ le_rfl
  | @moved step trial damping => exact Round.counts_next ⟨damping, rfl⟩

/-! ### All rounds -/

variable {loopEnds : σ → Prop} {round : Nat → σ → Round σ α} {limit : Nat}

omit [Scalar α] in
/-- Where rounds keep a property of states in which inner loops end, they take no more than are
left. -/
theorem Kernel.exists_takes (finish : Nat → σ → KernelReport α) (ends : ∀ state, I state → loopEnds state)
    (counts : ∀ iteration state, I state → (round iteration state).Counts I iteration)
    {remaining : Nat} {state : σ} (left : iteration + remaining = limit) (holds : I state) :
    ∃ rounds ≤ remaining, Takes loopEnds round finish limit iteration state rounds
      (iterate round finish remaining iteration state) := by
  induction remaining generalizing iteration state with
  | zero =>
    obtain rfl : iteration = limit := left
    exact ⟨0, le_rfl, .limit⟩
  | succ remaining ih =>
    have within : iteration < limit := by omega
    have own := counts iteration state holds
    unfold iterate
    cases going : round iteration state with
    | next later =>
      have rest : iteration + 1 + remaining = limit := by omega
      obtain ⟨rounds, few, takes⟩ := ih rest (own.keeps later going)
      exact ⟨rounds + 1, by omega, .next within (ends state holds) going takes⟩
    | stop r => exact ⟨1, by omega, .stop within (ends state holds) going⟩
    | fail e => exact ⟨1, by omega, .fail within (ends state holds) going⟩

omit [Scalar α] in
theorem Kernel.Takes.iterations_le {finish : Nat → σ → KernelReport α} {state : σ} {rounds : Nat} {a : Attempt α}
    (takes : Takes loopEnds round finish limit iteration state rounds a)
    (finishes : ∀ n s, (finish n s).iterations = n) (holds : I state)
    (counts : ∀ iteration state, I state → (round iteration state).Counts I iteration)
    {r : KernelReport α} (reported : a = .report r) : r.iterations ≤ iteration + rounds := by
  induction takes with
  | limit =>
    cases reported
    exact (finishes _ _).le
  | next within ends going_on rest ih =>
    have later := ih ((counts _ _ holds).keeps _ going_on) reported
    omega
  | stop within ends stopped =>
    cases reported
    exact (counts _ _ holds).counts _ stopped
  | fail => cases reported

end Counting

end Rounds

open Exact

variable {K : Type} [Field K] [LinearOrder K] [IsStrictOrderedRing K] {F : Interpretation K}
  {p : Problem (Exact F.arithmetic)}

/-! ### What rounds keep -/

namespace LevenbergMarquardt

def State.IsFloored (s : State p) : Prop :=
  ∀ damping, s.damping = some damping → le leastDamping damping = true

theorem loopEnds_of_isFloored (solver : LinearSolver (Exact F.arithmetic))
    (options : KernelOptions (Exact F.arithmetic)) (some_unknown : 0 < p.unknowns) {s : State p}
    (floored : s.IsFloored) : LoopEnds solver options 103 s := by
  intro iteration jacobian gradient inspected
  have floor : le leastDamping
      (s.damping.getD (firstDamping (dampedDiagonal (normal jacobian)))) = true := by
    cases carried : s.damping with
    | none => exact leastDamping_le_first some_unknown (normal jacobian)
    | some damping => exact floored damping carried
  simp only [search?_eq_run]
  exact ⟨lt_zero_of_floor floor, exists_doubling_ends _ floor⟩

theorem startLoopEnds {k : Nat} (solver : LinearSolver (Exact F.arithmetic))
    (options : KernelOptions (Exact F.arithmetic)) (some_unknown : 0 < p.unknowns)
    (i : Sample p k) : StartLoopEnds solver options 103 i := by
  intro jacobian gradient inspected
  have floor := leastDamping_le_first some_unknown (normal jacobian)
  obtain ⟨tries, few, ends⟩ := exists_doubling_ends
    (dampedStep? solver (normal jacobian) (dampedDiagonal (normal jacobian)) gradient) floor
  simp only [hasStep_eq_isSome_run]
  exact ⟨lt_zero_of_floor floor, tries, few, _, ends, rfl⟩

end LevenbergMarquardt

namespace Method

def IsKept (m : Method) : m.State p → Prop :=
  match m with
  | newtonLineSearch | dogleg => fun _ => True
  | levenbergMarquardt => LevenbergMarquardt.State.IsFloored

omit [IsStrictOrderedRing K] in
theorem isKept_first (m : Method) (options : KernelOptions (Exact F.arithmetic)) (i : Iterate p) :
    m.IsKept (m.first options i) := by
  cases m with
  | newtonLineSearch => trivial
  | dogleg => trivial
  | levenbergMarquardt => exact nofun

theorem round_counts (m : Method) (solver : LinearSolver (Exact F.arithmetic))
    (options : KernelOptions (Exact F.arithmetic)) (iteration : Nat) (s : m.State p) :
    (m.round solver options iteration s).Counts m.IsKept iteration := by
  cases m with
  | newtonLineSearch => exact (Newton.outcome_of_round rfl).counts
  | dogleg => exact (Dogleg.outcome_of_round rfl).counts
  | levenbergMarquardt =>
    have round_eq : LevenbergMarquardt.round solver options p iteration s = _ := rfl
    have own := (LevenbergMarquardt.outcome_of_round round_eq).counts
    refine ⟨fun later going_on carried same => ?_, own.counts⟩
    obtain ⟨damping, value⟩ := own.keeps later going_on
    obtain rfl := Option.some.inj (value.symm.trans same)
    exact LevenbergMarquardt.leastDamping_le_carried damping

theorem loopEnds_of_isKept (m : Method) (solver : LinearSolver (Exact F.arithmetic))
    (options : KernelOptions (Exact F.arithmetic)) (some_unknown : 0 < p.unknowns)
    {s : m.State p} (kept : m.IsKept s) : m.LoopEnds solver options 34 103 s := by
  cases m with
  | newtonLineSearch => exact fun _ _ _ _ _ _ => Newton.exists_search?_ends s _ _
  | dogleg => trivial
  | levenbergMarquardt =>
    exact LevenbergMarquardt.loopEnds_of_isFloored solver options some_unknown kept

/-- Rounds from the first iterate end, also if they are cancelled before they begin. -/
theorem exists_takes (m : Method) (solver : LinearSolver (Exact F.arithmetic))
    (options : KernelOptions (Exact F.arithmetic)) (some_unknown : 0 < p.unknowns)
    (cancelled : Bool) (i : Iterate p) :
    let round iteration state :=
      if cancelled then .fail .cancelled else m.round solver options iteration state
    let finish n s := (m.iterateOf s).report n options
    let ended := Kernel.iterate round finish options.maxIterations 0 (m.first options i)
    ∃ rounds ≤ options.maxIterations,
      Kernel.Takes (m.LoopEnds solver options 34 103) round finish options.maxIterations 0
        (m.first options i) rounds ended ∧
      ∀ r, ended = .report r → r.iterations ≤ rounds := by
  intro round finish ended
  have counts (iteration : Nat) (state : m.State p) (_ : m.IsKept state) :
      (round iteration state).Counts m.IsKept iteration := by
    cases cancelled with
    | true => exact Round.counts_fail _
    | false => exact m.round_counts solver options iteration state
  have kept := m.isKept_first options i
  obtain ⟨rounds, few, takes⟩ := Kernel.exists_takes finish
    (fun state => m.loopEnds_of_isKept solver options some_unknown) counts (Nat.zero_add _) kept
  refine ⟨rounds, few, takes, fun r reported => ?_⟩
  have counted := takes.iterations_le (fun _ _ => rfl) kept counts reported
  rwa [Nat.zero_add] at counted

theorem startLoopEnds (m : Method) (solver : LinearSolver (Exact F.arithmetic))
    (options : KernelOptions (Exact F.arithmetic)) (some_unknown : 0 < p.unknowns) {k : Nat}
    (i : Sample p k) : m.StartLoopEnds solver options 103 i := by
  cases m with
  | newtonLineSearch => trivial
  | dogleg => trivial
  | levenbergMarquardt => exact LevenbergMarquardt.startLoopEnds solver options some_unknown i

/-- In exact arithmetic, whatever linear solves give, a run on a problem with some unknown ends after
no more rounds than it may take, and a report counts no more iterations than there were rounds. The
line search of a round ends after 34 tries at the latest. The damping with which a round of damped
least squares begins is positive, and doubling it ends after 103 tries at the latest. -/
theorem run_ends (m : Method) (solver : LinearSolver (Exact F.arithmetic))
    (options : KernelOptions (Exact F.arithmetic)) (p : Problem (Exact F.arithmetic))
    (start : List (Exact F.arithmetic)) (cancelled : Bool) (some_unknown : 0 < p.unknowns) :
    ∃ rounds ≤ options.maxIterations,
      m.RunEnds solver options p start cancelled 34 103 rounds
        ((m.kernel solver options).run p start cancelled) ∧
      ∀ r, (m.kernel solver options).run p start cancelled = .report r → r.iterations ≤ rounds := by
  generalize ran : (m.kernel solver options).run p start cancelled = a
  rw [run_kernel_eq] at ran
  cases Kernel.begins_of_run ran with
  | refused fault ended =>
    subst ended
    refine ⟨0, Nat.zero_le _, .refused fault, fun r reported => ?_⟩
    cases reported
  | undefined shaped missing ended =>
    subst ended
    refine ⟨0, Nat.zero_le _, .undefined shaped missing, fun r reported => ?_⟩
    cases reported
  | @misfit shaped misfit i sampled ended =>
    subst ended
    have ends := m.startLoopEnds solver options some_unknown i
    refine ⟨min 1 options.maxIterations, Nat.min_le_right _ _,
      .misfit shaped misfit sampled ends, fun r reported => ?_⟩
    rw [Kernel.eq_report_of_ofMisfit reported]
    exact Nat.zero_le _
  | @iterated shaped x given i sampled ended =>
    subst ended
    have first : Sample.ofValues? p start = some i := by
      rw [Sample.ofValues?, given, Option.bind_some, sampled]
    obtain ⟨rounds, few, takes, counted⟩ :=
      m.exists_takes solver options some_unknown cancelled i
    exact ⟨rounds, few, .iterated shaped first takes, counted⟩

theorem twice_run_ends :
    0 < twice.unknowns ∧
      ∃ rounds ≤ 200, levenbergMarquardt.RunEnds .direct Settings.standard.kernelOptions twice
        [.of 0] false 34 103 rounds
        ((levenbergMarquardt.kernel .direct Settings.standard.kernelOptions).run twice [.of 0]
          false) := by
  obtain ⟨rounds, few, ends, -⟩ := run_ends levenbergMarquardt .direct
    Settings.standard.kernelOptions twice [.of 0] false Nat.one_pos
  exact ⟨Nat.one_pos, rounds, few, ends⟩

end Method

end Simultaneous
