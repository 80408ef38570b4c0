import Simultaneous.Proofs.Descent

/-!
The loops inside a round. A line search halves a fraction of its step, damped least squares double
their damping, and neither counts its tries: such a loop ends because what it tries gets out of
reach. From where it starts, and from how fast it moves, follows how many tries that can take.
-/

namespace Simultaneous

open Scalar Linear

/-- A loop that tries one thing after the other. It gives up where the next one is out of reach. -/
structure Retry (σ β : Type) where
  attempt? : σ → Option β
  next : σ → σ
  outOfReach : σ → Bool

namespace Retry

variable {σ β : Type}

inductive Ends (loop : Retry σ β) : σ → (tries : Nat) → Option β → Prop where
  | found {s : σ} {b : β} (given : loop.attempt? s = some b) : Ends loop s 1 (some b)
  | givenUp {s : σ} (failed : loop.attempt? s = none)
      (beyond : loop.outOfReach (loop.next s) = true) : Ends loop s 1 none
  | again {s : σ} {tries : Nat} {result : Option β} (failed : loop.attempt? s = none)
      (within : loop.outOfReach (loop.next s) = false)
      (later : Ends loop (loop.next s) tries result) : Ends loop s (tries + 1) result

def run (loop : Retry σ β) : (limit : Nat) → σ → Option β
  | 0, _ => none
  | limit + 1, s =>
    match loop.attempt? s with
    | some b => some b
    | none => if loop.outOfReach (loop.next s) then none else run loop limit (loop.next s)

section Steps

variable {loop : Retry σ β} {s : σ} (limit : Nat)

theorem run_of_found {b : β} (given : loop.attempt? s = some b) :
    loop.run (limit + 1) s = some b := by
  rw [run, given]

theorem run_of_beyond (failed : loop.attempt? s = none)
    (beyond : loop.outOfReach (loop.next s) = true) : loop.run (limit + 1) s = none := by
  rw [run, failed]
  exact if_pos beyond

theorem run_of_within (failed : loop.attempt? s = none)
    (within : loop.outOfReach (loop.next s) = false) :
    loop.run (limit + 1) s = loop.run limit (loop.next s) := by
  rw [run, failed]
  exact if_neg (ne_true_of_eq_false within)

theorem exists_ends_succ {most : Nat}
    (later : loop.attempt? s = none → loop.outOfReach (loop.next s) = false →
      ∃ tries ≤ most, loop.Ends (loop.next s) tries (loop.run limit (loop.next s))) :
    ∃ tries ≤ most + 1, loop.Ends s tries (loop.run (limit + 1) s) := by
  cases given : loop.attempt? s with
  | some b =>
    rw [run_of_found limit given]
    exact ⟨1, by omega, .found given⟩
  | none =>
    cases within : loop.outOfReach (loop.next s) with
    | true =>
      rw [run_of_beyond limit given within]
      exact ⟨1, by omega, .givenUp given within⟩
    | false =>
      rw [run_of_within limit given within]
      obtain ⟨tries, few, ends⟩ := later given within
      exact ⟨tries + 1, by omega, .again given within ends⟩

end Steps

/-- What is out of reach after some moves ends the loop within as many tries, and a limit that allows
for these is never met. -/
theorem exists_ends (loop : Retry σ β) {moves limit : Nat} {s : σ} (enough : moves < limit)
    (beyond : loop.outOfReach (loop.next^[moves + 1] s) = true) :
    ∃ tries ≤ moves + 1, loop.Ends s tries (loop.run limit s) := by
  obtain ⟨limit, rfl⟩ : ∃ rest, limit = rest + 1 := ⟨limit - 1, by omega⟩
  induction moves generalizing limit s with
  | zero =>
    refine exists_ends_succ limit fun _ within => ?_
    exact absurd (within.symm.trans beyond) Bool.false_ne_true
  | succ moves ih =>
    refine exists_ends_succ limit fun _ _ => ?_
    obtain ⟨rest, rfl⟩ : ∃ rest, limit = rest + 1 := ⟨limit - 1, by omega⟩
    exact ih beyond rest (by omega)

end Retry

section Loops

variable {α : Type} [Scalar α] {p : Problem α}

def Newton.halving (i : Iterate p) (step : p.Point) (slope : α) : Retry α (Iterate p × α) where
  attempt? fraction :=
    (i.step? (scale step fraction)).bind fun trial =>
      if le trial.merit (i.merit + armijo * fraction * Scalar.min slope zero) then
        some (trial, fraction)
      else none
  next fraction := fraction * decimal 5 (-1)
  outOfReach fraction := lt fraction leastFraction

theorem Newton.search?_eq_run (i : Iterate p) (step : p.Point) (slope : α) (limit : Nat)
    (fraction : α) : search? i step slope limit fraction = (halving i step slope).run limit fraction := by
  induction limit generalizing fraction with
  | zero => rfl
  | succ limit ih =>
    rw [search?, Retry.run, ← ih]
    simp only [halving]
    cases i.step? (scale step fraction) with
    | none => rfl
    | some trial =>
      simp only [Option.bind_some]
      split <;> rfl

namespace LevenbergMarquardt

def doubling {β : Type} (attempt? : α → Option β) : Retry α β where
  attempt?
  next damping := damping * ofInt 2
  outOfReach := lt maxDamping

variable (solver : LinearSolver α)

def dampedStep? {n : Nat} (normal : Grid α n n) (diagonal gradient : Vector α n) (damping : α) :
    Option (Vector α n) :=
  solver.positive? (addDiagonal normal (scale diagonal damping)) (neg gradient)

def descent? (options : KernelOptions α) (i : Iterate p) (normal : Grid α p.unknowns p.unknowns)
    (diagonal gradient : p.Point) (damping : α) : Option (p.Point × Iterate p × α) :=
  (dampedStep? solver normal diagonal gradient damping).bind fun full =>
    let step := Problem.clamp full options.maxJump
    (i.step? step).bind fun trial =>
      if lt trial.merit i.merit then some (step, trial, damping) else none

theorem search?_eq_run (options : KernelOptions α) (i : Iterate p)
    (normal : Grid α p.unknowns p.unknowns) (diagonal gradient : p.Point) (limit : Nat)
    (damping : α) :
    search? solver options i normal diagonal gradient limit damping =
      (doubling (descent? solver options i normal diagonal gradient)).run limit damping := by
  induction limit generalizing damping with
  | zero => rfl
  | succ limit ih =>
    rw [search?, Retry.run]
    simp only [doubling, descent?, dampedStep?] at ih ⊢
    rw [← ih]
    cases solver.positive? (addDiagonal normal (scale diagonal damping)) (neg gradient) with
    | none => rfl
    | some full =>
      simp only [Option.bind_some]
      cases i.step? (Problem.clamp full options.maxJump) with
      | none => rfl
      | some trial =>
        simp only [Option.bind_some]
        split <;> rfl

theorem hasStep_eq_isSome_run {n : Nat} (normal : Grid α n n) (diagonal gradient : Vector α n)
    (limit : Nat) (damping : α) :
    hasStep solver normal diagonal gradient limit damping =
      ((doubling (dampedStep? solver normal diagonal gradient)).run limit damping).isSome := by
  induction limit generalizing damping with
  | zero => rfl
  | succ limit ih =>
    rw [hasStep]
    cases solved : dampedStep? solver normal diagonal gradient damping with
    | some full =>
      rw [Retry.run_of_found limit solved]
      rw [dampedStep?] at solved
      rw [solved]
      rfl
    | none =>
      have failed := solved
      rw [dampedStep?] at solved
      rw [solved]
      by_cases beyond : lt maxDamping (damping * ofInt 2) = true
      · rw [Retry.run_of_beyond limit failed beyond]
        exact if_pos beyond
      · rw [Retry.run_of_within limit failed (Bool.eq_false_of_not_eq_true beyond)]
        exact (if_neg beyond).trans (ih _)

end LevenbergMarquardt

end Loops

/-! ### How many tries -/

open Exact

variable {K : Type} [Field K] [LinearOrder K] {F : Interpretation K}

theorem iterate_mul_of (factor start : K) (moves : Nat) :
    (fun x : Exact F.arithmetic => x * of factor)^[moves] (of start) = of (start * factor ^ moves) := by
  induction moves with
  | zero => simp
  | succ moves ih => rw [Function.iterate_succ_apply', ih, of_mul_of, pow_succ, mul_assoc]

/-- Whatever is compared with a number, the larger of both is a number that is not below. -/
theorem exists_max_of (x : Exact F.arithmetic) (c : K) :
    ∃ e, c ≤ e ∧ Scalar.max x (of c) = of e := by
  obtain rfl | ⟨a, rfl⟩ := x.eq_undefined_or_of
  · exact ⟨c, le_rfl, rfl⟩
  · exact ⟨Max.max a c, le_max_right a c, max_of a c⟩

theorem exists_foldl_max {xs : List (Exact F.arithmetic)} {c : K}
    (floored : ∀ x ∈ xs, ∃ e, c ≤ e ∧ x = of e) {first : K} (above : c ≤ first) :
    ∃ e, c ≤ e ∧ xs.foldl Scalar.max (of first) = of e := by
  induction xs generalizing first with
  | nil => exact ⟨first, above, rfl⟩
  | cons x rest ih =>
    obtain ⟨a, own, rfl⟩ := floored x List.mem_cons_self
    have later : ∀ y ∈ rest, ∃ e, c ≤ e ∧ y = of e := fun y member =>
      floored y (List.mem_cons_of_mem _ member)
    rw [List.foldl_cons, max_of]
    exact ih later (le_max_of_le_right own)

variable [IsStrictOrderedRing K]

/-- A line search ends after 34 tries at the latest: one half to the 34th is below the least
fraction. -/
theorem Newton.exists_search?_ends {p : Problem (Exact F.arithmetic)} (i : Iterate p)
    (step : p.Point) (slope : Exact F.arithmetic) :
    ∃ tries ≤ 34, (halving i step slope).Ends one tries (search? i step slope fractionLimit one) := by
  rw [search?_eq_run]
  refine (halving i step slope).exists_ends (by decide : 33 < fractionLimit) ?_
  have half : (decimal 5 (-1) : Exact F.arithmetic) = of (1 / 2) := by
    rw [decimal_eq]
    norm_num
  simp only [halving, half, one_eq, leastFraction, decimal_eq, iterate_mul_of, lt_of,
    decide_eq_true_eq]
  norm_num

namespace LevenbergMarquardt

theorem leastDamping_eq : (leastDamping : Exact F.arithmetic) = of (10 ^ (-15 : Int)) := by
  rw [leastDamping, decimal_eq, Nat.cast_one, one_mul]

theorem exists_of_floor {damping : Exact F.arithmetic} (floor : le leastDamping damping = true) :
    ∃ d : K, 10 ^ (-15 : Int) ≤ d ∧ damping = of d := by
  rw [leastDamping_eq] at floor
  obtain ⟨c, d, same, value, least⟩ := le_eq_true.1 floor
  obtain rfl := of_inj.1 same
  exact ⟨d, least, value⟩

theorem lt_zero_of_floor {damping : Exact F.arithmetic} (floor : le leastDamping damping = true) :
    lt zero damping = true := by
  obtain ⟨d, least, rfl⟩ := exists_of_floor floor
  have least_pos : (0 : K) < 10 ^ (-15 : Int) := by positivity
  rw [zero_eq, lt_of]
  exact decide_eq_true (least_pos.trans_le least)

/-- From the least damping on, doubling passes the greatest one after 103 tries at the latest. -/
theorem exists_doubling_ends {β : Type} (attempt? : Exact F.arithmetic → Option β)
    {damping : Exact F.arithmetic} (floor : le leastDamping damping = true) :
    ∃ tries ≤ 103, (doubling attempt?).Ends damping tries
      ((doubling attempt?).run dampingLimit damping) := by
  obtain ⟨d, least, rfl⟩ := exists_of_floor floor
  refine (doubling attempt?).exists_ends (by decide : 102 < dampingLimit) ?_
  have two : (ofInt 2 : Exact F.arithmetic) = of 2 := by
    rw [ofInt_eq]
    norm_num
  simp only [doubling, two, maxDamping, decimal_eq, iterate_mul_of, lt_of, decide_eq_true_eq]
  calc ((1 : Nat) : K) * 10 ^ (16 : Int) < 10 ^ (-15 : Int) * 2 ^ 103 := by norm_num
    _ ≤ d * 2 ^ 103 := mul_le_mul_of_nonneg_right least (by positivity)

theorem exists_largest {n : Nat} (some_entry : 0 < n) (normal : Grid (Exact F.arithmetic) n n) :
    ∃ e : K, 10 ^ (-12 : Int) ≤ e ∧ largest (dampedDiagonal normal) = of e := by
  have floored : ∀ x ∈ (dampedDiagonal normal).toList, ∃ e : K, 10 ^ (-12 : Int) ≤ e ∧ x = of e := by
    intro x member
    obtain ⟨d, -, rfl⟩ := Vector.mem_map.1 (Vector.mem_toList_iff.1 member)
    rw [leastDiagonal, decimal_eq, Nat.cast_one, one_mul]
    exact exists_max_of d _
  have nonempty : (dampedDiagonal normal).toList.length = n := Vector.length_toList
  unfold largest
  cases entries : (dampedDiagonal normal).toList with
  | nil =>
    rw [entries] at nonempty
    exact absurd nonempty some_entry.ne
  | cons first rest =>
    rw [entries] at floored
    obtain ⟨a, own, rfl⟩ := floored first List.mem_cons_self
    exact exists_foldl_max (fun y member => floored y (List.mem_cons_of_mem _ member)) own

theorem leastDamping_le_first {n : Nat} (some_entry : 0 < n)
    (normal : Grid (Exact F.arithmetic) n n) :
    le leastDamping (firstDamping (dampedDiagonal normal)) = true := by
  obtain ⟨e, floor, value⟩ := exists_largest some_entry normal
  rw [leastDamping_eq, firstDamping, decimal_eq, value, of_mul_of, le_of, decide_eq_true_eq]
  calc (10 : K) ^ (-15 : Int) = ((1 : Nat) : K) * 10 ^ (-3 : Int) * 10 ^ (-12 : Int) := by norm_num
    _ ≤ ((1 : Nat) : K) * 10 ^ (-3 : Int) * e := mul_le_mul_of_nonneg_left floor (by positivity)

theorem leastDamping_le_carried (damping : Exact F.arithmetic) :
    le leastDamping (Scalar.max (damping / ofInt 3) leastDamping) = true := by
  rw [leastDamping_eq]
  obtain ⟨d, floor, value⟩ := exists_max_of (damping / ofInt 3) (10 ^ (-15 : Int))
  rw [value, le_of]
  exact decide_eq_true floor

end LevenbergMarquardt

end Simultaneous
