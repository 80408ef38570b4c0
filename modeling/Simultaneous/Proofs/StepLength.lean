import Simultaneous.Proofs.BentPath
import Simultaneous.Proofs.Descent
import Simultaneous.Proofs.Linear.Answers

/-!
The longest step. Line search and damped least squares cut a step to length, and then take all of it
or a part; a trust region never has a larger radius than the longest step, and a step ends inside
the region. So with real numbers, however linear systems are solved, no two consecutive iterates
are farther apart than the longest step.
-/

namespace Simultaneous

open Scalar Exact Linear

variable {p : Problem ExactReal} {options : KernelOptions ExactReal}

/-! ### Real iterates -/

namespace Sample

def IsReal (i : Iterate p) : Prop := ∃ x, i.point = ofReals x

def Within (options : KernelOptions ExactReal) (i j : Iterate p) : Prop :=
  le (norm (sub j.point i.point)) options.maxJump = true

theorem exists_residual (i : Iterate p) : ∃ r, i.residual = ofReals r :=
  exists_ofReals i.residual_spec.1

theorem IsReal.within_self {i : Iterate p} (real : i.IsReal) {jump : ℝ} (positive : 0 < jump)
    (longest : options.maxJump = .of jump) : Within options i i := by
  obtain ⟨x, point⟩ := real
  rw [Within, point, sub_ofReals, sub_self, norm_ofReals, length_zero, longest, le_of,
    decide_eq_true_eq]
  exact positive.le

theorem IsReal.of_step? {i j : Iterate p} (real : i.IsReal) {jump : ℝ}
    (longest : options.maxJump = .of jump) {s : Fin p.unknowns → ℝ} (short : length s ≤ jump)
    (taken : i.step? (ofReals s) = some j) : j.IsReal ∧ Within options i j := by
  obtain ⟨x, point⟩ := real
  have moved : j.point = ofReals (x + s) := by
    rw [point_of_at? taken, point, add_ofReals]
  refine ⟨⟨x + s, moved⟩, ?_⟩
  rw [Within, moved, point, sub_ofReals, add_sub_cancel_left, norm_ofReals, longest, le_of,
    decide_eq_true_eq]
  exact short

theorem maxAbs_zero (n : Nat) : maxAbs (ofReals (0 : Fin n → ℝ)) = zero := by
  obtain ⟨none | ⟨c, member, largest⟩, -, -⟩ :=
    isLargestMagnitude_maxAbs (isFinite_ofReals (0 : Fin n → ℝ))
  · exact none
  · obtain ⟨i, inside, rfl⟩ := Vector.mem_iff_getElem.1 (Vector.mem_toList_iff.1 member)
    rw [largest, getElem_ofReals, abs_of, Pi.zero_apply, abs_zero, zero_eq]

theorem isFiniteGrid_of_finiteJacobian? {k : Nat} {x : Vector ExactReal k}
    {jacobian : Grid ExactReal p.equations p.unknowns}
    (found : p.finiteJacobian? x = some jacobian) : isFiniteGrid jacobian = true := by
  unfold Problem.finiteJacobian? at found
  simp only at found
  split at found
  next finite =>
    cases found
    exact finite
  next => cases found

theorem isFiniteGrid_of_finiteHessian? {x : p.Point} {r : Vector ExactReal p.equations}
    {hessian : Grid ExactReal p.unknowns p.unknowns}
    (found : p.finiteHessian? x r = some hessian) : isFiniteGrid hessian = true := by
  obtain ⟨derivatives, -, finite⟩ := Option.bind_eq_some_iff.1 found
  simp only at finite
  split at finite
  next own =>
    cases finite
    exact own
  next => cases finite

theorem exists_of_inspect {i : Iterate p} (flat : le zero options.gradientPrecision = true)
    {iteration : Nat} {jacobian : Grid ExactReal p.equations p.unknowns} {gradient : p.Point}
    (inspected : i.inspect options iteration = .next (jacobian, gradient)) :
    ∃ a g, jacobian = ofMatrix a ∧ gradient = ofReals g ∧ g ≠ 0 := by
  cases inspection_of_inspect inspected with
  | steep _ finite steep =>
    obtain ⟨a, rfl⟩ := exists_ofMatrix (isFiniteGrid_of_finiteJacobian? finite)
    obtain ⟨r, residual⟩ := i.exists_residual
    have gradient_eq : i.gradient (ofMatrix a) = ofReals (a.transpose.mulVec r) := by
      rw [gradient, residual, transpose_ofMatrix, mulVector_ofReals]
    refine ⟨a, _, rfl, gradient_eq, fun none => Bool.eq_false_iff.1 steep ?_⟩
    rw [gradient_eq, none, maxAbs_zero]
    exact flat

end Sample

/-! ### Line search -/

theorem isFinite_neg {n : Nat} {x : Vector ExactReal n} (finite : isFinite x = true) :
    isFinite (neg x) = true := by
  obtain ⟨a, rfl⟩ := exists_ofReals finite
  rw [neg_ofReals]
  exact isFinite_ofReals _

theorem exists_normal {m n : Nat} (a : Matrix (Fin m) (Fin n) ℝ) :
    ∃ b, mulTransposed (transpose (ofMatrix a)) (transpose (ofMatrix a)) = ofMatrix b :=
  ⟨_, by rw [transpose_ofMatrix, mulTransposed_ofMatrix]⟩

namespace Newton

theorem isFinite_of_fullStep? {solver : LinearSolver ExactReal} (real : solver.IsReal)
    {i : Iterate p} {a : Matrix (Fin p.equations) (Fin p.unknowns) ℝ} {g : Fin p.unknowns → ℝ}
    {full : p.Point} (found : fullStep? solver i (ofMatrix a) (ofReals g) = some full) :
    isFinite full = true := by
  have right : isFinite (neg i.residual) = true := isFinite_neg i.residual_spec.1
  rcases (Option.orElse_eq_some ..).1 found with solved | ⟨-, later⟩
  · exact real.general (isFiniteGrid_ofMatrix a) right solved
  · rcases (Option.orElse_eq_some ..).1 later with curved | ⟨-, nearest⟩
    · obtain ⟨h, second, descends⟩ := Option.bind_eq_some_iff.1 curved
      obtain ⟨b, normal⟩ := exists_normal a
      obtain ⟨c, rfl⟩ := exists_ofMatrix (Sample.isFiniteGrid_of_finiteHessian? second)
      simp only [normal, addGrid_ofMatrix] at descends
      obtain ⟨solved, -⟩ := Option.filter_eq_some_iff.1 descends
      exact real.general (isFiniteGrid_ofMatrix _) (isFinite_neg (isFinite_ofReals g)) solved
    · exact real.least (isFiniteGrid_ofMatrix a) right nearest

theorem exists_fraction_of_search? {i trial : Iterate p} {step : p.Point} {slope last : ExactReal}
    {tries : Nat} (found : search? i step slope tries one = some (trial, last)) :
    ∃ t : ℝ, 0 < t ∧ t ≤ 1 ∧ i.step? (scale step (.of t)) = some trial := by
  have halved (f : ExactReal) : (∃ t : ℝ, 0 < t ∧ t ≤ 1 ∧ f = .of t) →
      ∃ t : ℝ, 0 < t ∧ t ≤ 1 ∧ f * decimal 5 (-1) = .of t := by
    rintro ⟨t, positive, part, rfl⟩
    have half : (.of t * decimal 5 (-1) : ExactReal) = .of (t * (5 / 10 ^ 1)) :=
      congrArg (.of t * ·) (decimal_of_neg 5 1)
    exact ⟨t * (5 / 10 ^ 1), by linarith, by linarith, half⟩
  obtain ⟨⟨t, positive, part, rfl⟩, tried, -⟩ :=
    found_of_search? halved ⟨1, one_pos, le_rfl, one_eq⟩ found
  exact ⟨t, positive, part, tried⟩

theorem Searches.reaches {solver : LinearSolver ExactReal} (real : solver.IsReal) {jump : ℝ}
    (positive : 0 < jump) (longest : options.maxJump = .of jump)
    (flat : le zero options.gradientPrecision = true) {iteration : Nat} {i trial : Iterate p}
    {step : p.Point} {fraction : ExactReal} (own : i.IsReal)
    (searches : Searches solver options iteration i step (some (trial, fraction))) :
    trial.IsReal ∧ Sample.Within options i trial := by
  obtain ⟨jacobian, gradient, full, inspected, found, rfl, searched⟩ := searches
  obtain ⟨a, g, rfl, rfl, -⟩ := Sample.exists_of_inspect flat inspected
  obtain ⟨x, rfl⟩ := exists_ofReals (isFinite_of_fullStep? real found)
  rw [longest, Problem.clamp_ofReals x positive] at searched
  obtain ⟨t, t_pos, t_le, taken⟩ := exists_fraction_of_search? searched
  rw [scale_ofReals] at taken
  have short := length_cut_le x positive
  have part : length (t • cut x jump) ≤ jump := by
    rw [length_smul t_pos.le]
    exact (mul_le_of_le_one_left (length_nonneg _) t_le).trans short
  exact own.of_step? longest part taken

theorem Outcome.moves {solver : LinearSolver ExactReal} (real : solver.IsReal) {jump : ℝ}
    (positive : 0 < jump) (longest : options.maxJump = .of jump)
    (flat : le zero options.gradientPrecision = true) {iteration : Nat} {i : Iterate p}
    {r : Round (Iterate p) ExactReal} (outcome : Outcome solver options iteration i r)
    (own : i.IsReal) : r.Moves Sample.IsReal (Sample.Within options) id options i := by
  cases outcome with
  | still | stuck => exact Round.moves_report (own.within_self positive longest) iteration
  | undefined | singular => exact Round.moves_fail _
  | small searches =>
    obtain ⟨-, near⟩ := searches.reaches real positive longest flat own
    exact Round.moves_report near (iteration + 1)
  | moved searches =>
    obtain ⟨real_trial, near⟩ := searches.reaches real positive longest flat own
    exact Round.moves_next real_trial near

end Newton

/-! ### Damped least squares -/

namespace LevenbergMarquardt

structure State.IsReal (s : State p) : Prop where
  iterate : s.iterate.IsReal
  damping : ∀ d, s.damping = some d → Linear.IsReal d

theorem isReal_decimal (digits : Nat) (exponent : Int) (positive : 0 < digits) :
    Linear.IsReal (decimal digits exponent) := by
  obtain ⟨c, -, value⟩ := exists_decimal (F := Interpretation.real) digits exponent positive
  exact ⟨c, value⟩

theorem isReal_max {c d : ExactReal} (first : Linear.IsReal c) (second : Linear.IsReal d) :
    Linear.IsReal (Scalar.max c d) := by
  obtain ⟨a, rfl⟩ := first
  obtain ⟨b, rfl⟩ := second
  exact ⟨max a b, max_of a b⟩

theorem isReal_largest {n : Nat} (d : Fin n → ℝ) : Linear.IsReal (largest (ofReals d)) := by
  have all : AllReal (ofReals d).toList := allReal_toList (isFinite_ofReals d)
  unfold largest
  split
  next => exact .zero
  next first rest entries =>
    rw [entries] at all
    obtain ⟨own, others⟩ := AllReal.cons_iff.1 all
    clear entries all
    induction rest generalizing first with
    | nil => exact own
    | cons c rest ih =>
      obtain ⟨next, later⟩ := AllReal.cons_iff.1 others
      exact ih (Scalar.max first c) (isReal_max own next) later

theorem exists_dampedDiagonal {n : Nat} (b : Matrix (Fin n) (Fin n) ℝ) :
    ∃ d, dampedDiagonal (ofMatrix b) = ofReals d := by
  obtain ⟨least, value⟩ := isReal_decimal 1 (-12) Nat.one_pos
  refine ⟨fun i => max (b i i) least, ?_⟩
  ext i inside
  have entry : ((ofMatrix b)[i])[i] = .of (b ⟨i, inside⟩ ⟨i, inside⟩) := by
    rw [getElem_ofMatrix, getElem_ofReals]
  rw [dampedDiagonal, leastDiagonal, value, Vector.getElem_map, getElem_ofReals, ← max_of]
  congr 1
  rw [diagonal, Vector.getElem_ofFn]
  exact entry

theorem exists_damped {n : Nat} (b : Matrix (Fin n) (Fin n) ℝ) (d : Fin n → ℝ) :
    ∃ c, addDiagonal (ofMatrix b) (ofReals d) = ofMatrix c := by
  refine ⟨Matrix.of fun i j => if i = j then b i j + d i else b i j, ?_⟩
  ext i inside j within
  rw [addDiagonal, Vector.getElem_ofFn, Vector.getElem_ofFn, getElem_ofMatrix, getElem_ofReals,
    Matrix.of_apply, Fin.getElem_fin, Fin.getElem_fin, Fin.getElem_fin, getElem_ofMatrix,
    getElem_ofReals, getElem_ofReals]
  split
  next => rfl
  next => rfl

theorem Searches.reaches {solver : LinearSolver ExactReal} (real : solver.IsReal) {jump : ℝ}
    (positive : 0 < jump) (longest : options.maxJump = .of jump)
    (flat : le zero options.gradientPrecision = true) {iteration : Nat} {s : State p}
    {step : p.Point} {trial : Iterate p} {last : ExactReal} (own : s.IsReal)
    (searches : Searches solver options iteration s (some (step, trial, last))) :
    Linear.IsReal last ∧ trial.IsReal ∧ Sample.Within options s.iterate trial := by
  obtain ⟨jacobian, gradient, inspected, searched⟩ := searches
  obtain ⟨a, g, rfl, rfl, -⟩ := Sample.exists_of_inspect flat inspected
  obtain ⟨b, normal_eq⟩ := exists_normal a
  obtain ⟨d, diagonal_eq⟩ := exists_dampedDiagonal b
  simp only [normal, normal_eq, diagonal_eq] at searched
  have first : Linear.IsReal (firstDamping (ofReals d)) :=
    (isReal_decimal 1 (-3) Nat.one_pos).mul (isReal_largest d)
  have damped : Linear.IsReal (s.damping.getD (firstDamping (ofReals d))) := by
    cases given : s.damping with
    | none => exact first
    | some m => exact own.damping m given
  obtain ⟨⟨m, rfl⟩, taken, -, full, solved, rfl⟩ :=
    found_of_search? (fun _ damped => damped.mul ⟨_, ofInt_eq 2⟩) damped searched
  obtain ⟨c, system⟩ := exists_damped b (m • d)
  rw [scale_ofReals, system] at solved
  obtain ⟨x, rfl⟩ := exists_ofReals (real.positive (isFiniteGrid_ofMatrix c)
    (isFinite_neg (isFinite_ofReals g)) solved)
  rw [longest, Problem.clamp_ofReals x positive] at taken
  exact ⟨⟨m, rfl⟩, own.iterate.of_step? longest (length_cut_le x positive) taken⟩

theorem Outcome.moves {solver : LinearSolver ExactReal} (real : solver.IsReal) {jump : ℝ}
    (positive : 0 < jump) (longest : options.maxJump = .of jump)
    (flat : le zero options.gradientPrecision = true) {iteration : Nat} {s : State p}
    {r : Round (State p) ExactReal} (outcome : Outcome solver options iteration s r)
    (own : s.IsReal) :
    r.Moves State.IsReal (Sample.Within options) State.iterate options s.iterate := by
  cases outcome with
  | still | stuck => exact Round.moves_report (own.iterate.within_self positive longest) iteration
  | undefined => exact Round.moves_fail _
  | small searches =>
    obtain ⟨-, -, near⟩ := searches.reaches real positive longest flat own
    exact Round.moves_report near (iteration + 1)
  | moved searches =>
    obtain ⟨⟨l, rfl⟩, real_trial, near⟩ := searches.reaches real positive longest flat own
    refine Round.moves_next ⟨real_trial, ?_⟩ near
    rintro m ⟨⟩
    exact isReal_max (Linear.IsReal.div ⟨l, rfl⟩ (by norm_num))
      (isReal_decimal 1 (-15) Nat.one_pos)

end LevenbergMarquardt

/-! ### Trust regions -/

namespace Dogleg

structure State.IsReal (jump : ℝ) (s : State p) : Prop where
  iterate : s.iterate.IsReal
  radius : ∃ r : ℝ, s.radius = .of r ∧ 0 < r ∧ r ≤ jump

theorem nextRadius_spec {jump r : ℝ} (longest : options.maxJump = .of jump) (positive : 0 < r)
    (within : r ≤ jump) (ratio length : ExactReal) :
    ∃ r' : ℝ, nextRadius options (.of r) ratio length = .of r' ∧ 0 < r' ∧ r' ≤ jump := by
  have quarter : (.of r * decimal 25 (-2) : ExactReal) = .of (r * (25 / 10 ^ 2)) :=
    congrArg (.of r * ·) (decimal_of_neg 25 2)
  have two : (ofInt 2 : ExactReal) = .of 2 := congrArg Exact.of (by norm_num)
  have double : Scalar.min (ofInt 2 * .of r) options.maxJump = .of (min (2 * r) jump) := by
    rw [longest, two, of_mul_of, min_of]
  unfold nextRadius
  split
  next => exact ⟨_, quarter, by positivity, by linarith⟩
  next =>
    split
    next => exact ⟨_, double, lt_min (by linarith) (positive.trans_le within), min_le_right _ _⟩
    next => exact ⟨r, rfl, positive, within⟩

theorem Attempts.moves {jump : ℝ} (longest : options.maxJump = .of jump) {iteration : Nat}
    {s : State p} (own : s.IsReal jump) {x : Fin p.unknowns → ℝ}
    (short : le (norm (ofReals x)) s.radius = true) {decrease : ExactReal}
    {r : Round (State p) ExactReal} (attempts : Attempts options iteration s (ofReals x) decrease r) :
    r.Moves (State.IsReal jump) (Sample.Within options) State.iterate options s.iterate := by
  obtain ⟨radius, radius_eq, positive, within⟩ := own.radius
  rw [norm_ofReals, radius_eq, le_of, decide_eq_true_eq] at short
  obtain ⟨j, at_j, ended⟩ := attempts.ends
  obtain ⟨real, near⟩ : j.IsReal ∧ Sample.Within options s.iterate j := by
    obtain rfl | passes := at_j
    · exact ⟨own.iterate, own.iterate.within_self (positive.trans_le within) longest⟩
    · exact own.iterate.of_step? longest (short.trans within) passes.tried
  obtain rfl | ⟨ratio, length, rfl⟩ := ended
  · exact Round.moves_report near (iteration + 1)
  · rw [radius_eq]
    exact Round.moves_next ⟨real, nextRadius_spec longest positive within ratio length⟩ near

theorem exists_of_model {solver : LinearSolver ExactReal} (real : solver.IsReal) {i : Iterate p}
    {a : Matrix (Fin p.equations) (Fin p.unknowns) ℝ} {g : Fin p.unknowns → ℝ}
    {matrix : Grid ExactReal p.unknowns p.unknowns} {newton : p.Point}
    (found : model solver i (ofMatrix a) (ofReals g) = (matrix, some newton)) :
    ∃ b x, matrix = ofMatrix b ∧ newton = ofReals x := by
  obtain ⟨b, normal⟩ := exists_normal a
  have down : isFinite (neg (ofReals g)) = true := isFinite_neg (isFinite_ofReals g)
  have right : isFinite (neg i.residual) = true := isFinite_neg i.residual_spec.1
  unfold model at found
  simp only [normal] at found
  split at found
  next pair curved =>
    cases found
    obtain ⟨h, second, solved⟩ := Option.bind_eq_some_iff.1 curved
    obtain ⟨c, rfl⟩ := exists_ofMatrix (Sample.isFiniteGrid_of_finiteHessian? second)
    rw [addGrid_ofMatrix] at solved
    obtain ⟨x, positive, same⟩ := Option.map_eq_some_iff.1 solved
    cases same
    obtain ⟨y, rfl⟩ := exists_ofReals (real.positive (isFiniteGrid_ofMatrix _) down positive)
    exact ⟨_, y, rfl, rfl⟩
  next =>
    obtain ⟨rfl, solved⟩ := Prod.mk.inj found
    have finite : isFinite newton = true := by
      rcases (Option.orElse_eq_some ..).1 solved with positive | ⟨-, later⟩
      · exact real.positive (isFiniteGrid_ofMatrix b) down positive
      · rcases (Option.orElse_eq_some ..).1 later with general | ⟨-, nearest⟩
        · exact real.general (isFiniteGrid_ofMatrix a) right general
        · exact real.least (isFiniteGrid_ofMatrix a) right nearest
    obtain ⟨x, rfl⟩ := exists_ofReals finite
    exact ⟨b, x, rfl, rfl⟩

/-- A step on the path ends inside the region, on its boundary unless it is the Newton step. -/
theorem OnPath.length_spec {n : Nat} {gradient newton step : Fin n → ℝ}
    {model : Matrix (Fin n) (Fin n) ℝ} {radius : ℝ}
    (path : OnPath gradient model newton radius step) (nonzero : gradient ≠ 0)
    (positive : 0 < radius) :
    (length newton ≤ radius → step = newton) ∧ (radius < length newton → length step = radius) := by
  cases path with
  | newton fits => exact ⟨fun _ => rfl, fun far => absurd fits (not_le.2 far)⟩
  | falling far _ =>
    refine ⟨fun fits => absurd far (not_lt.2 fits), fun _ => ?_⟩
    rw [← length_neg gradient]
    exact length_shortened positive.le (by rw [length_neg]; exact length_pos nonzero)
  | descending far _ beyond =>
    exact ⟨fun fits => absurd far (not_lt.2 fits),
      fun _ => length_shortened positive.le (positive.trans_le beyond)⟩
  | turning far _ _ _ _ crosses => exact ⟨fun fits => absurd far (not_lt.2 fits), fun _ => crosses⟩

theorem OnPath.length_le {n : Nat} {gradient newton step : Fin n → ℝ}
    {model : Matrix (Fin n) (Fin n) ℝ} {radius : ℝ}
    (path : OnPath gradient model newton radius step) (nonzero : gradient ≠ 0)
    (positive : 0 < radius) : length step ≤ radius := by
  obtain ⟨fits, far⟩ := path.length_spec nonzero positive
  rcases le_or_gt (length newton) radius with inside | outside
  · rwa [fits inside]
  · exact (far outside).le

theorem Outcome.moves {solver : LinearSolver ExactReal} (real : solver.IsReal) {jump : ℝ}
    (positive : 0 < jump) (longest : options.maxJump = .of jump)
    (flat : le zero options.gradientPrecision = true) {iteration : Nat} {s : State p}
    {r : Round (State p) ExactReal} (outcome : Outcome solver options iteration s r)
    (own : s.IsReal jump) :
    r.Moves (State.IsReal jump) (Sample.Within options) State.iterate options s.iterate := by
  cases outcome with
  | still => exact Round.moves_report (own.iterate.within_self positive longest) iteration
  | undefined | singular => exact Round.moves_fail _
  | tried inspected found attempts =>
    obtain ⟨a, g, rfl, rfl, nonzero⟩ := Sample.exists_of_inspect flat inspected
    obtain ⟨b, x, rfl, rfl⟩ := exists_of_model real found
    obtain ⟨radius, radius_eq, radius_pos, -⟩ := own.radius
    obtain ⟨y, step_eq, path⟩ := exists_step_onPath nonzero b x radius_pos
    rw [radius_eq, step_eq] at attempts
    refine attempts.moves longest own ?_
    rw [radius_eq, norm_ofReals, le_of, decide_eq_true_eq]
    exact path.length_le nonzero radius_pos

/-- A step is the Newton step where that fits into the region, and otherwise ends on the
boundary. -/
theorem step_spec {n : Nat} {gradient : Fin n → ℝ} (nonzero : gradient ≠ 0)
    (model : Matrix (Fin n) (Fin n) ℝ) (newton : Fin n → ℝ) {radius : ℝ} (positive : 0 < radius) :
    let s := step (ofReals gradient) (ofMatrix model) (ofReals newton) (.of radius)
    le (norm s) (.of radius) = true ∧
      (le (norm (ofReals newton)) (.of radius) = true → s = ofReals newton) ∧
      (le (norm (ofReals newton)) (.of radius) = false → norm s = .of radius) := by
  obtain ⟨x, step_eq, path⟩ := exists_step_onPath nonzero model newton positive
  obtain ⟨fits, far⟩ := path.length_spec nonzero positive
  simp only [step_eq, norm_ofReals, le_of, decide_eq_true_eq, decide_eq_false_iff_not, not_le]
  exact ⟨path.length_le nonzero positive, fun inside => congrArg ofReals (fits inside),
    fun outside => congrArg Exact.of (far outside)⟩

end Dogleg

/-! ### A whole run -/

theorem Sample.isReal_of_ofValues? {start : List ℝ} {i : Iterate p}
    (sampled : ofValues? p (start.map .of) = some i) : i.IsReal := by
  have reals : ∀ c ∈ i.point.toList, Linear.IsReal c := by
    rw [point_of_ofValues? sampled]
    intro c member
    obtain ⟨a, -, rfl⟩ := List.mem_map.1 member
    exact ⟨a, rfl⟩
  refine exists_ofReals (Vector.all_eq_true_iff_forall_mem.2 fun c member => ?_)
  exact isFinite_iff.2 (reals c (Vector.mem_toList_iff.2 member))

theorem Method.isChain_trail_within (m : Method) {solver : LinearSolver ExactReal}
    (real : solver.IsReal) (jump_pos : lt zero options.maxJump = true)
    (radius_pos : lt zero options.trustRadius = true)
    (flat : le zero options.gradientPrecision = true) (start : List ℝ) (cancelled : Bool) :
    (m.trail solver options p (start.map .of) cancelled).IsChain (Sample.Within options) := by
  obtain ⟨z, jump, none, longest, positive⟩ := lt_eq_true.1 jump_pos
  obtain rfl := of_inj.1 (zero_eq.symm.trans none)
  cases m with
  | newtonLineSearch =>
    rw [trail]
    split
    next =>
      exact Kernel.isChain_trailFrom_of_moves
        (fun _ _ => (Newton.outcome_of_round rfl).moves real positive longest flat)
        (fun i sampled => Sample.isReal_of_ofValues? sampled) cancelled
    next => exact .nil
  | dogleg =>
    obtain ⟨z, radius, none, first, r_pos⟩ := lt_eq_true.1 radius_pos
    obtain rfl := of_inj.1 (zero_eq.symm.trans none)
    rw [trail]
    split
    next =>
      refine Kernel.isChain_trailFrom_of_moves (I := Dogleg.State.IsReal jump)
        (fun _ _ => (Dogleg.outcome_of_round rfl).moves real positive longest flat)
        (fun i sampled => ⟨Sample.isReal_of_ofValues? sampled, min radius jump, ?_,
          lt_min r_pos positive, min_le_right _ _⟩) cancelled
      rw [longest, first, min_of]
    next => exact .nil
  | levenbergMarquardt =>
    rw [trail]
    split
    next => exact .nil
    next =>
      exact Kernel.isChain_trailFrom_of_moves (I := LevenbergMarquardt.State.IsReal)
        (fun _ _ => (LevenbergMarquardt.outcome_of_round rfl).moves real positive longest flat)
        (fun i sampled => ⟨Sample.isReal_of_ofValues? sampled, by simp⟩) cancelled

/-- With real numbers, consecutive iterates of a run are not farther apart than the longest step,
whatever real systems are answered; the iterates lead from the start to what is reported. The step
inside a region is not longer than its radius: it is the Newton step where that fits, and as long as
the radius otherwise. -/
theorem Method.iterates_within_longest_step (m : Method) {solver : LinearSolver ExactReal}
    (real : solver.IsReal) {options : KernelOptions ExactReal}
    (jump_pos : lt zero options.maxJump = true) (radius_pos : lt zero options.trustRadius = true)
    (flat : le zero options.gradientPrecision = true) (p : Problem ExactReal) (start : List ℝ)
    (cancelled : Bool) :
    let trail := m.trail solver options p (start.map .of) cancelled
    trail.IsChain (fun i j => le (norm (sub j.point i.point)) options.maxJump = true) ∧
    (∀ r, (m.kernel solver options).run p (start.map .of) cancelled = .report r →
      r.Follows trail (start.map .of)) ∧
    ∀ {n : Nat} (gradient newton : Fin n → ℝ) (model : Matrix (Fin n) (Fin n) ℝ) (radius : ℝ),
      gradient ≠ 0 → 0 < radius →
        let step := Dogleg.step (ofReals gradient) (ofMatrix model) (ofReals newton) (.of radius)
        le (norm step) (.of radius) = true ∧
          (le (norm (ofReals newton)) (.of radius) = true → step = ofReals newton) ∧
          (le (norm (ofReals newton)) (.of radius) = false → norm step = .of radius) :=
  ⟨m.isChain_trail_within real jump_pos radius_pos flat start cancelled,
    fun _ reported => follows_trail reported,
    fun _ newton model _ nonzero positive => Dogleg.step_spec nonzero model newton positive⟩

noncomputable def crossing : Problem ExactReal where
  equations := 2
  unknowns := 2
  residuals point := match point.toList with
    | [x, y] => #[x * x + y * y - ofInt 4, x * y - one]
    | _ => #[]
  jacobian point := match point.toList with
    | [x, y] => #[ofInt 2 * x, ofInt 2 * y, y, x]
    | _ => #[]
  hessian? := some fun _ weights => match weights.toList with
    | [v, w] => #[ofInt 2 * v, w, w, ofInt 2 * v]
    | _ => #[]

theorem crossing_within_longest_step :
    let options : KernelOptions ExactReal := Settings.standard.kernelOptions
    let step := Dogleg.step (ofReals ![1, 0]) (ofMatrix 1) (ofReals ![-1, 0]) (.of (1 / 2))
    (LinearSolver.direct : LinearSolver ExactReal).IsReal ∧ lt zero options.maxJump = true ∧
      lt zero options.trustRadius = true ∧ le zero options.gradientPrecision = true ∧
      (Method.dogleg.trail .direct options crossing ([3, 1].map .of) false).IsChain
        (fun i j => le (norm (sub j.point i.point)) options.maxJump = true) ∧
      le (norm step) (.of (1 / 2)) = true := by
  have positive (digits : Nat) (exponent : Int) (some : 0 < digits) :
      lt (zero : ExactReal) (decimal digits exponent) = true := by
    obtain ⟨c, c_pos, value⟩ := exists_decimal (F := Interpretation.real) digits exponent some
    exact lt_eq_true.2 ⟨0, c, zero_eq, value, c_pos⟩
  have jump_pos := positive 1 3 Nat.one_pos
  have radius_pos : lt (zero : ExactReal) one = true :=
    lt_eq_true.2 ⟨0, 1, zero_eq, one_eq, one_pos⟩
  obtain ⟨a, b, none, value, below⟩ := lt_eq_true.1 (positive 1 (-10) Nat.one_pos)
  have flat : le zero (Settings.standard.kernelOptions : KernelOptions ExactReal).gradientPrecision
      = true := le_eq_true.2 ⟨a, b, none, value, below.le⟩
  have steep : (![1, 0] : Fin 2 → ℝ) ≠ 0 := fun none => one_ne_zero (congrFun none 0)
  obtain ⟨within, -, inside⟩ :=
    Method.iterates_within_longest_step .dogleg LinearSolver.direct_isReal
      jump_pos radius_pos flat crossing [3, 1] false
  exact ⟨LinearSolver.direct_isReal, jump_pos, radius_pos, flat, within,
    (inside _ _ _ _ steep one_half_pos).1⟩

end Simultaneous
