import Simultaneous.Proofs.Report

/-!
The iterates of a run. A run is told by the iterates that it goes through, from the start to what is
reported. What holds between the iterates before and after every round holds between neighbours on
this trail.
-/

namespace Simultaneous

open Scalar

section Trails

variable {α : Type} [Scalar α] {p : Problem α} {options : KernelOptions α}

def Sample.ofValues? (p : Problem α) (values : List α) : Option (Iterate p) :=
  (Linear.vector? p.unknowns values).bind (at? p)

def Kernel.trail {σ : Type} (round : (iteration : Nat) → σ → Round σ α) (iterateOf : σ → Iterate p) :
    (remaining iteration : Nat) → σ → List (Iterate p)
  | 0, _, state => [iterateOf state]
  | remaining + 1, iteration, state =>
    iterateOf state :: match round iteration state with
      | .next later => trail round iterateOf remaining (iteration + 1) later
      | .stop r => (Sample.ofValues? p r.values).toList
      | .fail _ => []

def Kernel.trailFrom {σ : Type} (options : KernelOptions α) (start : List α) (cancelled : Bool)
    (first : Iterate p → σ) (round : (iteration : Nat) → σ → Round σ α)
    (iterateOf : σ → Iterate p) : List (Iterate p) :=
  match Sample.ofValues? p start with
  | none => []
  | some i =>
    let round iteration state := if cancelled then .fail .cancelled else round iteration state
    trail round iterateOf options.maxIterations 0 (first i)

def Method.trail (m : Method) (solver : LinearSolver α) (options : KernelOptions α)
    (p : Problem α) (start : List α) (cancelled : Bool) : List (Iterate p) :=
  match m with
  | newtonLineSearch =>
    if p.equations = p.unknowns then
      Kernel.trailFrom options start cancelled id (Newton.round solver options p) id
    else []
  | dogleg =>
    if p.equations = p.unknowns then
      Kernel.trailFrom options start cancelled
        (fun i => ⟨i, Scalar.min options.trustRadius options.maxJump⟩)
        (Dogleg.round solver options p) Dogleg.State.iterate
    else []
  | levenbergMarquardt =>
    if p.equations < p.unknowns then []
    else
      Kernel.trailFrom options start cancelled (fun i => ⟨i, none⟩)
        (LevenbergMarquardt.round solver options p) LevenbergMarquardt.State.iterate

/-- Where a round goes on or reports, the iterate there relates to the one before. -/
structure Round.Leads {σ : Type} (R : Iterate p → Iterate p → Prop) (iterateOf : σ → Iterate p)
    (options : KernelOptions α) (i : Iterate p) (round : Round σ α) : Prop where
  of_next : ∀ state, round = .next state → R i (iterateOf state)
  of_stop : ∀ r, round = .stop r → ∃ j iterations, r = j.report iterations options ∧ R i j

section Rounds

variable {σ τ : Type} {R : Iterate p → Iterate p → Prop} {iterateOf : σ → Iterate p}
  {i : Iterate p}

theorem Round.leads_fail (e : SolveError) : (fail e).Leads R iterateOf options i :=
  ⟨nofun, nofun⟩

theorem Round.leads_next {state : σ} (related : R i (iterateOf state)) :
    (next state : Round σ α).Leads R iterateOf options i where
  of_next later same := by
    cases same
    exact related
  of_stop := nofun

theorem Round.leads_report {j : Iterate p} (related : R i j) (iterations : Nat) :
    (stop (j.report iterations options)).Leads R iterateOf options i where
  of_next := nofun
  of_stop r same := by
    cases same
    exact ⟨j, iterations, rfl, related⟩

structure Round.Moves (I : σ → Prop) (R : Iterate p → Iterate p → Prop) (iterateOf : σ → Iterate p)
    (options : KernelOptions α) (i : Iterate p) (round : Round σ α) : Prop
    extends round.Leads R iterateOf options i where
  keeps : ∀ state, round = .next state → I state

theorem Round.moves_fail {I : σ → Prop} (e : SolveError) :
    (fail e).Moves I R iterateOf options i :=
  ⟨leads_fail e, nofun⟩

theorem Round.moves_next {I : σ → Prop} {state : σ} (holds : I state)
    (related : R i (iterateOf state)) : (next state : Round σ α).Moves I R iterateOf options i where
  toLeads := leads_next related
  keeps later same := by
    cases same
    exact holds

theorem Round.moves_report {I : σ → Prop} {j : Iterate p} (related : R i j) (iterations : Nat) :
    (stop (j.report iterations options)).Moves I R iterateOf options i :=
  ⟨leads_report related iterations, nofun⟩

theorem Sample.point_of_at? {k : Nat} {x : Vector α k} {i : Sample p k}
    (sampled : at? p x = some i) : i.point = x := by
  unfold at? at sampled
  split at sampled
  next => exact (congrArg point (Option.some.inj sampled)).symm
  next => cases sampled

/-- The point of a sample determines its residuals. -/
theorem Sample.eq_of_point {i j : Iterate p} (same : i.point = j.point) : i = j := by
  obtain ⟨x, r, own⟩ := i
  obtain ⟨y, s, other⟩ := j
  obtain rfl : x = y := same
  obtain rfl : r = s := Option.some.inj (own.symm.trans other)
  rfl

theorem Sample.ofValues?_toList (i : Iterate p) : ofValues? p i.point.toList = some i := by
  have point : Linear.vector? p.unknowns i.point.toList = some i.point := by
    rw [Linear.vector?, dif_pos i.point.length_toList]
    exact congrArg some (Vector.toArray_inj.1 Array.toArray_toList)
  rw [ofValues?, point, Option.bind_some]
  unfold at?
  split
  next r found => exact congrArg some (eq_of_point rfl)
  next missing => cases missing.symm.trans i.residual_eq

theorem Sample.point_of_ofValues? {values : List α} {i : Iterate p}
    (sampled : ofValues? p values = some i) : i.point.toList = values := by
  obtain ⟨x, given, found⟩ := Option.bind_eq_some_iff.1 sampled
  rw [point_of_at? found]
  unfold Linear.vector? at given
  split at given
  next fits =>
    cases given
    exact List.toList_toArray
  next => cases given

theorem Kernel.head?_trail (round : Nat → σ → Round σ α) (remaining iteration : Nat) (state : σ) :
    (trail round iterateOf remaining iteration state).head? = some (iterateOf state) := by
  cases remaining <;> rfl

theorem Kernel.trail_of_stop {round : Nat → σ → Round σ α} {iteration : Nat} {state : σ}
    {j : Iterate p} {iterations : Nat}
    (stopped : round iteration state = .stop (j.report iterations options)) (remaining : Nat) :
    trail round iterateOf (remaining + 1) iteration state = [iterateOf state, j] := by
  have read : Sample.ofValues? p (j.report iterations options).values = some j :=
    j.ofValues?_toList
  unfold trail
  rw [stopped]
  simp only
  rw [read]
  rfl

theorem Kernel.getLast?_trail_of_iterate {round : Nat → σ → Round σ α}
    (stops : ∀ iteration state, (round iteration state).IsFaithful p options)
    {finish : Nat → σ → KernelReport α}
    (finishes : ∀ iterations state, finish iterations state =
      (iterateOf state).report iterations options)
    {remaining iteration : Nat} {state : σ} {r : KernelReport α}
    (reported : iterate round finish remaining iteration state = .report r) :
    ∃ last, (trail round iterateOf remaining iteration state).getLast? = some last ∧
      last.point.toList = r.values := by
  induction remaining generalizing iteration state with
  | zero =>
    cases reported
    exact ⟨iterateOf state, rfl, by rw [finishes]; rfl⟩
  | succ remaining ih =>
    unfold iterate at reported
    cases own : round iteration state with
    | next later =>
      rw [own] at reported
      obtain ⟨last, ends, same⟩ := ih reported
      refine ⟨last, ?_, same⟩
      unfold trail
      rw [own, List.getLast?_cons, ends]
      rfl
    | stop s =>
      rw [own] at reported
      cases reported
      obtain ⟨j, iterations, rfl⟩ := stops iteration state r own
      exact ⟨j, by rw [trail_of_stop own]; rfl, rfl⟩
    | fail e =>
      rw [own] at reported
      cases reported

/-- Each iterate of a trail relates to the one before, where rounds keep a property of states that
makes them lead on. -/
theorem Kernel.isChain_trail_of_moves {I : σ → Prop} {round : Nat → σ → Round σ α}
    (moves : ∀ iteration state, I state →
      (round iteration state).Moves I R iterateOf options (iterateOf state))
    (remaining iteration : Nat) {state : σ} (holds : I state) :
    (trail round iterateOf remaining iteration state).IsChain R := by
  induction remaining generalizing iteration state with
  | zero => exact .singleton _
  | succ remaining ih =>
    have own_moves := moves iteration state holds
    cases own : round iteration state with
    | next later =>
      unfold trail
      rw [own]
      refine List.isChain_cons.2 ⟨fun j first => ?_, ih (iteration + 1) (own_moves.keeps later own)⟩
      rw [head?_trail] at first
      cases first
      exact own_moves.of_next later own
    | stop r =>
      obtain ⟨j, iterations, rfl, related⟩ := own_moves.of_stop r own
      rw [trail_of_stop own]
      exact List.isChain_pair.2 related
    | fail e =>
      unfold trail
      rw [own]
      exact .singleton _

theorem Kernel.isChain_trailFrom_of_moves {I : σ → Prop} {first : Iterate p → σ}
    {round : Nat → σ → Round σ α}
    (moves : ∀ iteration state, I state →
      (round iteration state).Moves I R iterateOf options (iterateOf state))
    {start : List α} (starts : ∀ i, Sample.ofValues? p start = some i → I (first i))
    (cancelled : Bool) : (trailFrom options start cancelled first round iterateOf).IsChain R := by
  unfold trailFrom
  split
  next => exact .nil
  next i sampled =>
    have guarded (iteration : Nat) (state : σ) (holds : I state) :
        (if cancelled then .fail .cancelled else round iteration state : Round σ α).Moves I R
          iterateOf options (iterateOf state) := by
      cases cancelled with
      | true => exact Round.moves_fail _
      | false => exact moves iteration state holds
    exact isChain_trail_of_moves guarded _ _ (starts i sampled)

theorem Kernel.isChain_trailFrom {first : Iterate p → σ} {round : Nat → σ → Round σ α}
    (leads : ∀ iteration state,
      (round iteration state).Leads R iterateOf options (iterateOf state))
    (start : List α) (cancelled : Bool) :
    (trailFrom options start cancelled first round iterateOf).IsChain R :=
  isChain_trailFrom_of_moves (I := fun _ => True)
    (fun iteration state _ => ⟨leads iteration state, fun _ _ => trivial⟩) (fun _ _ => trivial)
    cancelled

/-- The trail leads from the start to what is reported. Only where the start has another number of
values than there are variables, it is reported on without a trail. -/
def KernelReport.Follows (r : KernelReport α) (trail : List (Iterate p)) (start : List α) : Prop :=
  (start.length ≠ p.unknowns ∧ r.values = start) ∨
    ∃ first last, trail.head? = some first ∧ trail.getLast? = some last ∧
      first.point.toList = start ∧ last.point.toList = r.values

section Runs

variable {name : String} {shapeFault? : Problem α → Option SolveError}
  {hasStep : (p : Problem α) → Grid α p.equations p.unknowns → p.Point → Bool}
  {σ : Problem α → Type} {start : (p : Problem α) → Iterate p → σ p}
  {round : (p : Problem α) → Nat → σ p → Round (σ p) α}
  {finish : (p : Problem α) → Nat → σ p → KernelReport α} (iterateOf : σ p → Iterate p)

theorem Kernel.follows_of_ofRounds
    (stops : ∀ iteration state, (round p iteration state).IsFaithful p options)
    (starts : ∀ i, iterateOf (start p i) = i)
    (finishes : ∀ iterations state, finish p iterations state =
      (iterateOf state).report iterations options)
    {x0 : List α} {cancelled : Bool} {r : KernelReport α}
    (reported : (ofRounds name options shapeFault? hasStep σ start round finish).run p x0
      cancelled = .report r) :
    shapeFault? p = none ∧
      r.Follows (trailFrom options x0 cancelled (start p) (round p) iterateOf) x0 := by
  cases begins_of_run reported with
  | refused fault ended => cases ended
  | undefined shaped missing ended => cases ended
  | misfit shaped misfit sampled ended =>
    refine ⟨shaped, .inl ⟨misfit, ?_⟩⟩
    rw [eq_report_of_ofMisfit ended]
    exact congrArg Vector.toList (Sample.point_of_at? sampled)
  | @iterated shaped x given i sampled ended =>
    have first : Sample.ofValues? p x0 = some i := by
      rw [Sample.ofValues?, given, Option.bind_some, sampled]
    obtain ⟨last, ends, same⟩ := getLast?_trail_of_iterate (fun iteration state => by
      cases cancelled with
      | true => exact Round.isFaithful_fail _
      | false => exact stops iteration state) finishes ended
    unfold trailFrom
    rw [first]
    refine ⟨shaped, .inr ⟨i, last, ?_, ends, Sample.point_of_ofValues? first, same⟩⟩
    rw [head?_trail, starts]

end Runs

end Rounds

/-- The trail of a run leads from its start to what it reports. -/
theorem Method.follows_trail {m : Method} {solver : LinearSolver α} {start : List α}
    {cancelled : Bool} {r : KernelReport α}
    (reported : (m.kernel solver options).run p start cancelled = .report r) :
    r.Follows (m.trail solver options p start cancelled) start := by
  cases m with
  | newtonLineSearch =>
    obtain ⟨shaped, follows⟩ := Kernel.follows_of_ofRounds id
      (Newton.round_isFaithful solver options p) (fun _ => rfl) (fun _ _ => rfl) reported
    have square : p.equations = p.unknowns := by simpa using shaped
    rw [trail, if_pos square]
    exact follows
  | dogleg =>
    obtain ⟨shaped, follows⟩ := Kernel.follows_of_ofRounds Dogleg.State.iterate
      (Dogleg.round_isFaithful solver options p) (fun _ => rfl)
      (fun _ _ => rfl) reported
    have square : p.equations = p.unknowns := by simpa using shaped
    rw [trail, if_pos square]
    exact follows
  | levenbergMarquardt =>
    obtain ⟨shaped, follows⟩ := Kernel.follows_of_ofRounds
      LevenbergMarquardt.State.iterate
      (LevenbergMarquardt.round_isFaithful solver options p) (fun _ => rfl) (fun _ _ => rfl)
      reported
    have enough : ¬ p.equations < p.unknowns := by simpa using shaped
    rw [trail, if_neg enough]
    exact follows

end Trails

end Simultaneous
