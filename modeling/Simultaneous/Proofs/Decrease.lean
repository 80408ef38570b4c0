import Mathlib
import Simultaneous.Proofs.StepLength

/-!
What the model in a trust region promises of a step. With real numbers and a positive definite
model, the model falls along the whole of the bent path: its second part ends in the minimum of the
model, and no step down the gradient that fits into the region is better than the path's.
-/

namespace Simultaneous.Dogleg

open Scalar Exact Linear
open scoped Matrix

section Model

variable {n : Nat} {gradient newton : Fin n → ℝ} {model : Matrix (Fin n) (Fin n) ℝ} {radius : ℝ}

/-- How much a model of real numbers says that a step decreases the merit. -/
noncomputable def reduction (gradient : Fin n → ℝ) (model : Matrix (Fin n) (Fin n) ℝ)
    (step : Fin n → ℝ) : ℝ :=
  -(gradient ⬝ᵥ step + 0.5 * (step ⬝ᵥ model *ᵥ step))

theorem predicted_ofReals (gradient : Fin n → ℝ) (model : Matrix (Fin n) (Fin n) ℝ)
    (step : Fin n → ℝ) :
    predicted (ofReals gradient) (ofMatrix model) (ofReals step) =
      .of (reduction gradient model step) := by
  have half : (decimal 5 (-1) : ExactReal) = .of 0.5 :=
    (decimal_of_neg 5 1).trans (congrArg Exact.of (by norm_num))
  rw [predicted, dot_ofReals, quadratic_ofReals, half, of_mul_of, of_add_of, neg_of, reduction]

/-! ### The Newton point -/

/-- The Newton step promises most, and another step less by the form of their difference. -/
theorem reduction_eq_newton_sub (symmetric : model.IsHermitian)
    (solves : model *ᵥ newton = -gradient) (step : Fin n → ℝ) :
    reduction gradient model step = reduction gradient model newton -
      1 / 2 * ((newton - step) ⬝ᵥ model *ᵥ (newton - step)) := by
  have gradient_eq : gradient = -(model *ᵥ newton) := (neg_eq_iff_eq_neg.2 solves).symm
  have swap : step ⬝ᵥ model *ᵥ newton = newton ⬝ᵥ model *ᵥ step := by
    rw [dotProduct_comm, Matrix.dotProduct_mulVec, ← Matrix.mulVec_transpose]
    exact congrArg (· *ᵥ newton ⬝ᵥ step) symmetric.symm
  simp only [reduction, gradient_eq, neg_dotProduct, sub_dotProduct, Matrix.mulVec_sub,
    dotProduct_sub, dotProduct_comm (model *ᵥ newton), swap]
  ring

theorem reduction_le_newton (definite : model.PosDef) (solves : model *ᵥ newton = -gradient)
    (step : Fin n → ℝ) : reduction gradient model step ≤ reduction gradient model newton := by
  rw [reduction_eq_newton_sub definite.isHermitian solves step]
  have form : 0 ≤ (newton - step) ⬝ᵥ model *ᵥ (newton - step) :=
    definite.posSemidef.dotProduct_mulVec_nonneg _
  linarith

theorem reduction_le_toward_newton (definite : model.PosDef)
    (solves : model *ᵥ newton = -gradient) (start : Fin n → ℝ) {t : ℝ} (positive : 0 < t)
    (before : t < 1) :
    reduction gradient model start ≤
      reduction gradient model (start + t • (newton - start)) := by
  have left : newton - (start + t • (newton - start)) = (1 - t) • (newton - start) := by
    rw [sub_smul, one_smul, sub_add_eq_sub_sub]
  have symmetric := definite.isHermitian
  rw [reduction_eq_newton_sub symmetric solves start,
    reduction_eq_newton_sub symmetric solves (start + t • (newton - start)), left,
    smul_dotProduct, Matrix.mulVec_smul, dotProduct_smul, smul_eq_mul, smul_eq_mul]
  have shrinks : (1 - t) * (1 - t) ≤ 1 := by nlinarith
  have form : 0 ≤ (newton - start) ⬝ᵥ model *ᵥ (newton - start) :=
    definite.posSemidef.dotProduct_mulVec_nonneg _
  nlinarith

/-! ### Down the gradient -/

theorem reduction_down (gradient : Fin n → ℝ) (model : Matrix (Fin n) (Fin n) ℝ) (t : ℝ) :
    reduction gradient model (t • -gradient) =
      t * (gradient ⬝ᵥ gradient) - t * t / 2 * (gradient ⬝ᵥ model *ᵥ gradient) := by
  simp only [reduction, dotProduct_smul, dotProduct_neg, smul_dotProduct, neg_dotProduct,
    Matrix.mulVec_smul, Matrix.mulVec_neg, smul_eq_mul]
  ring

theorem clamp_cauchy (model : Matrix (Fin n) (Fin n) ℝ)
    (curved : gradient ⬝ᵥ model *ᵥ gradient ≠ 0) (positive : 0 < radius) :
    Problem.clamp (scale (neg (ofReals gradient)) (norm (ofReals gradient) *
      norm (ofReals gradient) / quadratic (ofMatrix model) (ofReals gradient))) (.of radius) =
        ofReals (cut (cauchy gradient model) radius) := by
  rw [norm_ofReals, quadratic_ofReals, neg_ofReals, of_mul_of, div_of _ curved, scale_ofReals]
  exact Problem.clamp_ofReals (cauchy gradient model) positive

/-- Cut to the radius, the minimum down the gradient is a step down it that goes no farther. -/
theorem exists_cut_eq (nonzero : gradient ≠ 0)
    (curved : 0 < gradient ⬝ᵥ model *ᵥ gradient) (positive : 0 < radius) :
    ∃ t, cut (cauchy gradient model) radius = t • -gradient ∧ 0 < t ∧
      t * (gradient ⬝ᵥ model *ᵥ gradient) ≤ gradient ⬝ᵥ gradient := by
  have g_pos := dotProduct_self_pos nonzero
  set s := gradient ⬝ᵥ gradient / (gradient ⬝ᵥ model *ᵥ gradient)
  have s_pos : 0 < s := div_pos g_pos curved
  have least : s * (gradient ⬝ᵥ model *ᵥ gradient) = gradient ⬝ᵥ gradient :=
    div_mul_cancel₀ _ curved.ne'
  have cauchy_eq : cauchy gradient model = s • -gradient := by
    rw [cauchy, length_mul_self]
  rw [cut]
  split
  next beyond =>
    have away := positive.trans beyond
    refine ⟨radius / length (cauchy gradient model) * s, ?_, ?_, ?_⟩
    · rw [mul_smul, ← cauchy_eq]
    · exact mul_pos (div_pos positive away) s_pos
    · rw [mul_assoc, least]
      exact mul_le_of_le_one_left g_pos.le ((div_le_one away).2 beyond.le)
  next within => exact ⟨s, cauchy_eq, s_pos, least.le⟩

theorem reduction_cut_pos (nonzero : gradient ≠ 0)
    (curved : 0 < gradient ⬝ᵥ model *ᵥ gradient) (positive : 0 < radius) :
    0 < reduction gradient model (cut (cauchy gradient model) radius) := by
  obtain ⟨t, cut_eq, t_pos, before⟩ := exists_cut_eq nonzero curved positive
  rw [cut_eq, reduction_down]
  have half : t * t / 2 * (gradient ⬝ᵥ model *ᵥ gradient) ≤ t / 2 * (gradient ⬝ᵥ gradient) := by
    rw [mul_div_right_comm, mul_assoc]
    exact mul_le_mul_of_nonneg_left before (half_pos t_pos).le
  have gain := mul_pos (half_pos t_pos) (dotProduct_self_pos nonzero)
  linarith

/-! ### The whole path -/

theorem OnPath.reduction_cut_le {step : Fin n → ℝ}
    (path : OnPath gradient model newton radius step) (nonzero : gradient ≠ 0)
    (positive : 0 < radius) (definite : model.PosDef) (solves : model *ᵥ newton = -gradient) :
    reduction gradient model (cut (cauchy gradient model) radius) ≤ reduction gradient model step := by
  cases path with
  | newton => exact reduction_le_newton definite solves _
  | falling _ falls => exact absurd (definite.dotProduct_mulVec_pos nonzero) (not_lt.2 falls)
  | descending _ _ beyond =>
    rcases beyond.lt_or_eq with far | ends
    · rw [cut, if_pos far]
    · rw [cut, if_neg ends.not_lt, ← ends, div_self positive.ne', one_smul]
  | turning _ _ within after before _ =>
    rw [cut, if_neg within.not_gt]
    exact reduction_le_toward_newton definite solves _ after before

end Model

/-! ### Taking a step -/

variable {p : Problem ExactReal}

theorem Attempts.leads {options : KernelOptions ExactReal} {iteration : Nat} {s : State p}
    {step : p.Point} {decrease : ExactReal} {trial : Iterate p} {r : Round (State p) ExactReal}
    (attempts : Attempts options iteration s step decrease r)
    (passes : Passes s step decrease trial) :
    r.Leads (fun _ taken => taken = trial) State.iterate options s.iterate := by
  cases attempts with
  | refused none => exact absurd passes (none trial)
  | @small other own =>
    have same : other = trial := Option.some.inj (own.tried.symm.trans passes.tried)
    exact Round.leads_report (R := fun _ taken => taken = trial) same (iteration + 1)
  | @taken other _ _ own settles =>
    have same : other = trial := Option.some.inj (own.tried.symm.trans passes.tried)
    cases settles with
    | collapsed => exact Round.leads_report (R := fun _ taken => taken = trial) same (iteration + 1)
    | adapted => exact Round.leads_next (R := fun _ taken => taken = trial) same

/-- With real numbers, a positive definite model and its Newton step, the model promises a decrease
of every step, which is not less than that of the minimum down the gradient, cut to the radius. What
decides on the step is then the ratio of the actual decrease to the promised one alone. -/
theorem step_promises_decrease {gradient newton : Fin p.unknowns → ℝ}
    {matrix : Matrix (Fin p.unknowns) (Fin p.unknowns) ℝ} {radius : ℝ} (nonzero : gradient ≠ 0)
    (definite : matrix.PosDef) (solves : matrix *ᵥ newton = -gradient) (positive : 0 < radius) :
    let g := ofReals gradient
    let b := ofMatrix matrix
    let cauchy := scale (neg g) (norm g * norm g / quadratic b g)
    let step := step g b (ofReals newton) (.of radius)
    lt zero (predicted g b step) = true ∧
      le (predicted g b (Problem.clamp cauchy (.of radius))) (predicted g b step) = true ∧
      ∀ (solver : LinearSolver ExactReal) (options : KernelOptions ExactReal) (iteration : Nat)
        (s : State p) (jacobian : Grid ExactReal p.equations p.unknowns) (trial : Iterate p),
        s.radius = .of radius → s.iterate.inspect options iteration = .next (jacobian, g) →
        model solver s.iterate jacobian g = (b, some (ofReals newton)) →
        s.iterate.step? step = some trial →
        lt acceptRatio ((s.iterate.merit - trial.merit) / predicted g b step) = true →
        (round solver options p iteration s).Leads (fun _ taken => taken = trial)
          State.iterate options s.iterate := by
  have curved : 0 < gradient ⬝ᵥ matrix *ᵥ gradient := definite.dotProduct_mulVec_pos nonzero
  obtain ⟨x, step_eq, path⟩ := exists_step_onPath nonzero matrix newton positive
  have better := path.reduction_cut_le nonzero positive definite solves
  have promised := (reduction_cut_pos nonzero curved positive).trans_le better
  simp only [step_eq, clamp_cauchy matrix curved.ne' positive, predicted_ofReals, zero_eq, lt_of,
    le_of, decide_eq_true_eq]
  refine ⟨promised, better, ?_⟩
  intro solver options iteration s jacobian trial radius_eq inspected found tried passed
  rw [round, inspected]
  simp only [Round.bind, found, radius_eq, step_eq, predicted_ofReals]
  refine (attempts ..).leads ⟨tried, ?_, passed⟩
  rw [zero_eq, lt_of, decide_eq_true_eq]
  exact promised

theorem identity_promises_decrease :
    let gradient : Fin crossing.unknowns → ℝ := ![1, 0]
    let newton : Fin crossing.unknowns → ℝ := ![-1, 0]
    let matrix : Matrix (Fin crossing.unknowns) (Fin crossing.unknowns) ℝ := 1
    let step := step (ofReals gradient) (ofMatrix matrix) (ofReals newton) (.of (1 / 2))
    gradient ≠ 0 ∧ matrix.PosDef ∧ matrix *ᵥ newton = -gradient ∧ (0 : ℝ) < 1 / 2 ∧
      lt zero (predicted (ofReals gradient) (ofMatrix matrix) step) = true := by
  have steep : (![1, 0] : Fin crossing.unknowns → ℝ) ≠ 0 :=
    fun none => one_ne_zero (congrFun none (0 : Fin 2))
  have solves : (1 : Matrix (Fin 2) (Fin 2) ℝ) *ᵥ ![-1, 0] = -![1, 0] := by
    rw [Matrix.one_mulVec]
    simp
  exact ⟨steep, .one, solves, one_half_pos,
    (step_promises_decrease steep .one solves one_half_pos).1⟩

end Simultaneous.Dogleg
