import Simultaneous.Proofs.Trail

/-!
Descent. Every iteration compares the merit at a trial point with that at its iterate before it goes
there: a line search asks for a decrease that a slope promises, a trust region for a part of what its
model predicts, damped least squares for any decrease. What is asked for is never an increase, however
the step was found, so along a run the merit never rises, and no report is above the start.
-/

namespace Simultaneous

open Scalar

section Merit

variable {α : Type} [Scalar α] {p : Problem α} {options : KernelOptions α}

def Problem.meritAt (p : Problem α) (values : List α) : α :=
  merit (Linear.vectorOf p.equations (p.residuals values.toArray))

theorem Sample.meritAt_point {k : Nat} (i : Sample p k) :
    p.meritAt i.point.toList = i.merit := by
  obtain ⟨finite, same⟩ := i.residual_spec
  rw [merit, ← Vector.toList_inj.1 same.symm]
  rfl

def Sample.Descends (i j : Iterate p) : Prop := le j.merit i.merit = true

def Sample.StaysOrFalls (i j : Iterate p) : Prop := j = i ∨ lt j.merit i.merit = true

/-- How an iterate of a method relates to the one before. -/
def Method.Descends (m : Method) (i j : Iterate p) : Prop :=
  match m with
  | newtonLineSearch => i.Descends j
  | dogleg | levenbergMarquardt => i.StaysOrFalls j

/-! ### Steps that ask for less -/

theorem LevenbergMarquardt.Outcome.leads {solver : LinearSolver α} {iteration : Nat} {s : State p}
    {r : Round (State p) α} (outcome : Outcome solver options iteration s r) :
    r.Leads Sample.StaysOrFalls State.iterate options s.iterate := by
  have falls {step : p.Point} {trial : Iterate p} {damping : α}
      (searches : Searches solver options iteration s (some (step, trial, damping))) :
      s.iterate.StaysOrFalls trial := by
    obtain ⟨jacobian, gradient, -, found⟩ := searches
    obtain ⟨-, -, falls, -⟩ := found_of_search? (P := fun _ => True) (fun _ _ => trivial) trivial found
    exact .inr falls
  cases outcome with
  | still | stuck => exact Round.leads_report (.inl rfl) iteration
  | undefined => exact Round.leads_fail _
  | small searches => exact Round.leads_report (falls searches) (iteration + 1)
  | moved searches => exact Round.leads_next (falls searches)

end Merit

open Exact

variable {K : Type} [Field K] [LinearOrder K] {F : Interpretation K}

/-! ### Values that descent rests on -/

/-- The smaller of a number and zero has a value even where the number has none. -/
theorem exists_min_zero (x : Exact F.arithmetic) :
    ∃ t, t ≤ 0 ∧ Scalar.min x zero = of t := by
  obtain rfl | ⟨a, rfl⟩ := x.eq_undefined_or_of
  · exact ⟨0, le_rfl, zero_eq⟩
  · have self : ((of a : Exact F.arithmetic) == of a) = true := beq_eq_true.2 ⟨a, rfl, rfl⟩
    have none : ((of 0 : Exact F.arithmetic) == of 0) = true := beq_eq_true.2 ⟨0, rfl, rfl⟩
    rw [Scalar.min, zero_eq, self, none, lt_of]
    by_cases above : 0 < a
    · exact ⟨0, le_rfl, by simp [above]⟩
    · exact ⟨a, not_lt.1 above, by simp [above]⟩

theorem exists_foldl_add {xs : List (Exact F.arithmetic)} (values : ∀ c ∈ xs, ∃ a, c = of a)
    (first : K) : ∃ a, xs.foldl (· + ·) (of first) = of a := by
  induction xs generalizing first with
  | nil => exact ⟨first, rfl⟩
  | cons c rest ih =>
    obtain ⟨a, rfl⟩ := values c List.mem_cons_self
    exact ih (fun d member => values d (List.mem_cons_of_mem _ member)) (first + a)

theorem Linear.exists_normSquared {n : Nat} {x : Vector (Exact F.arithmetic) n}
    (finite : isFinite x = true) : ∃ a, normSquared x = of a := by
  rw [normSquared, dot, ← Vector.foldl_toList, zero_eq]
  refine exists_foldl_add (fun c member => ?_) 0
  obtain ⟨i, inside, rfl⟩ := Vector.mem_iff_getElem.1 (Vector.mem_toList_iff.1 member)
  rw [Vector.getElem_zipWith]
  obtain ⟨a, value⟩ := isFinite_iff.1
    (Vector.all_eq_true_iff_forall_mem.1 finite x[i] (Vector.getElem_mem inside))
  exact ⟨a * a, by rw [value, of_mul_of]⟩

variable [IsStrictOrderedRing K]

theorem exists_decimal (digits : Nat) (exponent : Int) (positive : 0 < digits) :
    ∃ c, 0 < c ∧ (decimal digits exponent : Exact F.arithmetic) = of c := by
  have digits_pos : (0 : K) < digits := Nat.cast_pos.2 positive
  exact ⟨digits * 10 ^ exponent, by positivity, decimal_eq digits exponent⟩

theorem Sample.exists_merit {p : Problem (Exact F.arithmetic)} {k : Nat} (i : Sample p k) :
    ∃ a, i.merit = of a := by
  obtain ⟨c, -, half⟩ := exists_decimal (F := F) 5 (-1) (by norm_num)
  obtain ⟨a, squares⟩ := Linear.exists_normSquared i.residual_spec.1
  exact ⟨c * a, by rw [merit, Problem.merit, half, squares, of_mul_of]⟩

/-! ### One step -/

variable {p : Problem (Exact F.arithmetic)} {options : KernelOptions (Exact F.arithmetic)}

theorem Sample.descends_self (i : Iterate p) : i.Descends i := by
  obtain ⟨a, value⟩ := i.exists_merit
  exact le_eq_true.2 ⟨a, a, value, value, le_rfl⟩

theorem Sample.StaysOrFalls.descends {i j : Iterate p} (related : i.StaysOrFalls j) :
    i.Descends j := by
  rcases related with rfl | falls
  · exact j.descends_self
  · obtain ⟨a, b, at_j, at_i, below⟩ := lt_eq_true.1 falls
    exact le_eq_true.2 ⟨a, b, at_j, at_i, below.le⟩

namespace Newton

/-- What the line search asks for is no increase, whatever the slope: a positive one counts as
zero. -/
theorem descends_of_armijo {i trial : Iterate p} {fraction slope : Exact F.arithmetic} {f : K}
    (positive : 0 < f) (value : fraction = of f)
    (passed : le trial.merit (i.merit + armijo * fraction * Scalar.min slope zero) = true) :
    i.Descends trial := by
  obtain ⟨c, c_pos, part⟩ := exists_decimal (F := F) 1 (-4) (by norm_num)
  obtain ⟨t, nonpos, smaller⟩ := exists_min_zero slope
  rw [armijo, part, value, smaller, of_mul_of, of_mul_of] at passed
  obtain ⟨a, b, at_trial, bound, below⟩ := le_eq_true.1 passed
  obtain ⟨m, q, at_i, change, rfl⟩ := add_eq_of.1 bound
  obtain rfl : c * f * t = q := of_inj.1 change
  have down : c * f * t ≤ 0 := mul_nonpos_of_nonneg_of_nonpos (by positivity) nonpos
  exact le_eq_true.2 ⟨a, m, at_trial, at_i, by linarith⟩

theorem Outcome.leads {solver : LinearSolver (Exact F.arithmetic)} {iteration : Nat} {i : Iterate p}
    {r : Round (Iterate p) (Exact F.arithmetic)} (outcome : Outcome solver options iteration i r) :
    r.Leads Sample.Descends id options i := by
  obtain ⟨h, h_pos, half⟩ := exists_decimal (F := F) 5 (-1) (by norm_num)
  have halved (f : Exact F.arithmetic) : (∃ a, 0 < a ∧ f = .of a) →
      ∃ a, 0 < a ∧ f * decimal 5 (-1) = .of a := by
    rintro ⟨a, positive, rfl⟩
    exact ⟨a * h, mul_pos positive h_pos, by rw [half, of_mul_of]⟩
  have descends {step : p.Point} {trial : Iterate p} {fraction : Exact F.arithmetic}
      (searches : Searches solver options iteration i step (some (trial, fraction))) :
      i.Descends trial := by
    obtain ⟨jacobian, gradient, full, -, -, -, found⟩ := searches
    obtain ⟨⟨f, positive, value⟩, -, passed⟩ :=
      found_of_search? halved ⟨1, one_pos, one_eq⟩ found
    exact descends_of_armijo positive value passed
  cases outcome with
  | still | stuck => exact Round.leads_report i.descends_self iteration
  | undefined | singular => exact Round.leads_fail _
  | small searches => exact Round.leads_report (descends searches) (iteration + 1)
  | moved searches => exact Round.leads_next (descends searches)

end Newton

namespace Dogleg

theorem falls_of_ratio {i trial : Iterate p} {decrease : Exact F.arithmetic}
    (promised : lt zero decrease = true)
    (passed : lt acceptRatio ((i.merit - trial.merit) / decrease) = true) :
    lt trial.merit i.merit = true := by
  obtain ⟨c, c_pos, least⟩ := exists_decimal (F := F) 1 (-4) (by norm_num)
  obtain ⟨z, d, none, rfl, d_pos⟩ := lt_eq_true.1 promised
  obtain rfl : 0 = z := of_inj.1 (zero_eq.symm.trans none)
  obtain ⟨c', q, same, ratio, above⟩ := lt_eq_true.1 passed
  obtain rfl : c = c' := of_inj.1 (least.symm.trans same)
  obtain ⟨e, d', difference, same, quotient⟩ := div_eq_of.1 ratio
  obtain rfl : d = d' := of_inj.1 same
  obtain ⟨nonzero, rfl⟩ := Interpretation.div_eq_some.1 quotient
  obtain ⟨m, t, at_i, at_trial, rfl⟩ := sub_eq_of.1 difference
  have falls : 0 < m - t := (div_pos_iff_of_pos_right d_pos).1 (c_pos.trans above)
  exact lt_eq_true.2 ⟨t, m, at_trial, at_i, sub_pos.1 falls⟩

theorem Outcome.leads {solver : LinearSolver (Exact F.arithmetic)} {iteration : Nat} {s : State p}
    {r : Round (State p) (Exact F.arithmetic)} (outcome : Outcome solver options iteration s r) :
    r.Leads Sample.StaysOrFalls State.iterate options s.iterate := by
  cases outcome with
  | still => exact Round.leads_report (.inl rfl) iteration
  | undefined | singular => exact Round.leads_fail _
  | tried _ _ attempts =>
    obtain ⟨j, at_j, ended⟩ := attempts.ends
    have related : s.iterate.StaysOrFalls j :=
      at_j.imp_right fun passes => falls_of_ratio passes.promised passes.passed
    obtain rfl | ⟨ratio, length, rfl⟩ := ended
    · exact Round.leads_report related (iteration + 1)
    · exact Round.leads_next related

end Dogleg

/-! ### A whole run -/

theorem Sample.descends_of_isChain {trail : List (Iterate p)} (chain : trail.IsChain Descends)
    {first last : Iterate p} (starts : trail.head? = some first)
    (ends : trail.getLast? = some last) : first.Descends last := by
  have reached : ∀ j ∈ trail, first.Descends j := by
    refine chain.induction (first.Descends ·) trail ?_ ?_
    · exact fun i j next below => LawfulOrder.le_trans next below
    · intro nonempty
      rw [List.head?_eq_some_head nonempty] at starts
      cases starts
      exact descends_self _
  exact reached last (List.mem_of_getLast? ends)

theorem Method.isChain_trail (m : Method) (solver : LinearSolver (Exact F.arithmetic))
    (options : KernelOptions (Exact F.arithmetic)) (p : Problem (Exact F.arithmetic))
    (start : List (Exact F.arithmetic)) (cancelled : Bool) :
    (m.trail solver options p start cancelled).IsChain m.Descends := by
  cases m with
  | newtonLineSearch =>
    rw [trail]
    split
    next => exact Kernel.isChain_trailFrom (fun _ _ => (Newton.outcome_of_round rfl).leads) start cancelled
    next => exact .nil
  | dogleg =>
    rw [trail]
    split
    next => exact Kernel.isChain_trailFrom (fun _ _ => (Dogleg.outcome_of_round rfl).leads) start cancelled
    next => exact .nil
  | levenbergMarquardt =>
    rw [trail]
    split
    next => exact .nil
    next => exact Kernel.isChain_trailFrom (fun _ _ => (LevenbergMarquardt.outcome_of_round rfl).leads) start cancelled

theorem Method.Descends.descends {m : Method} {i j : Iterate p} (related : m.Descends i j) :
    i.Descends j := by
  cases m with
  | newtonLineSearch => exact related
  | dogleg => exact Sample.StaysOrFalls.descends related
  | levenbergMarquardt => exact Sample.StaysOrFalls.descends related

/-- From one iterate to the next the merit never rises, and with a trust region or damping it falls
wherever the iterate moves. So what a run reports, at the end of its trail, is not above the
start. -/
theorem Method.merit_never_rises (m : Method) (solver : LinearSolver (Exact F.arithmetic))
    (options : KernelOptions (Exact F.arithmetic)) (p : Problem (Exact F.arithmetic))
    (start : List (Exact F.arithmetic)) (cancelled : Bool) :
    (m.trail solver options p start cancelled).IsChain m.Descends ∧
      ∀ r, (m.kernel solver options).run p start cancelled = .report r →
        r.Follows (m.trail solver options p start cancelled) start ∧
          le (p.meritAt r.values) (p.meritAt start) = true := by
  have chain := m.isChain_trail solver options p start cancelled
  refine ⟨chain, fun r reported => ?_⟩
  have follows := follows_trail reported
  refine ⟨follows, ?_⟩
  rcases follows with ⟨-, same⟩ | ⟨first, last, starts, ends, rfl, same⟩
  · obtain ⟨i, iterations, rfl⟩ := kernel_isOnSample reported
    obtain ⟨a, value⟩ := i.exists_merit
    have at_start : p.meritAt start = of a := by
      rw [← same]
      exact i.meritAt_point.trans value
    rw [same, at_start]
    exact le_eq_true.2 ⟨a, a, rfl, rfl, le_rfl⟩
  · rw [← same, first.meritAt_point, last.meritAt_point]
    exact Sample.descends_of_isChain (chain.imp fun _ _ => Descends.descends) starts ends

theorem Method.twice_merit_falls :
    le (twice.meritAt twiceReport.values) (twice.meritAt [.of 0]) = true :=
  ((merit_never_rises newtonLineSearch .direct Settings.standard.kernelOptions twice [.of 0]
    false).2 twiceReport (by decide +kernel)).2

end Simultaneous
