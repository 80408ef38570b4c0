import Simultaneous.Kernel.Dogleg
import Simultaneous.Proofs.Linear.Real

/-!
The bent path of a trust region, with real numbers: from the centre down the gradient to the minimum
of the model in that direction, and on to the Newton point. A step is the Newton step if that is
inside the region, and otherwise ends where the path leaves the region: on its first part, which
may go on for ever if the model has no minimum there, or on its second one.
-/

namespace Simultaneous

open Exact Linear
open scoped Matrix

variable {n : Nat}

noncomputable def Linear.cut (x : Fin n → ℝ) (limit : ℝ) : Fin n → ℝ :=
  if limit < length x then (limit / length x) • x else x

theorem Problem.clamp_ofReals (x : Fin n → ℝ) {limit : ℝ} (positive : 0 < limit) :
    clamp (ofReals x) (.of limit) = ofReals (cut x limit) := by
  rw [clamp, norm_ofReals, zero_eq, lt_of, lt_of, cut]
  by_cases long : limit < length x
  · have some : 0 < length x := positive.trans long
    rw [if_pos long, decide_eq_true long, decide_eq_true some, Bool.and_true, if_pos rfl,
      div_of limit some.ne', scale_ofReals]
  · rw [if_neg long, decide_eq_false long, Bool.false_and, if_neg Bool.false_ne_true]

theorem Linear.length_shortened {x : Fin n → ℝ} {limit : ℝ} (nonneg : 0 ≤ limit) (some : 0 < length x) :
    length ((limit / length x) • x) = limit := by
  rw [length_smul (div_nonneg nonneg some.le), div_mul_cancel₀ limit some.ne']

theorem Linear.length_cut_le (x : Fin n → ℝ) {limit : ℝ} (positive : 0 < limit) :
    length (cut x limit) ≤ limit := by
  rw [cut]
  split
  next long => exact (length_shortened positive.le (positive.trans long)).le
  next short => exact not_lt.1 short

namespace Dogleg

/-- The minimum of a model in the direction down the gradient. -/
noncomputable def cauchy (gradient : Fin n → ℝ) (model : Matrix (Fin n) (Fin n) ℝ) : Fin n → ℝ :=
  (length gradient * length gradient / (gradient ⬝ᵥ model *ᵥ gradient)) • -gradient

/-- The steps that the bent path leads to in a region of a radius. -/
inductive OnPath (gradient : Fin n → ℝ) (model : Matrix (Fin n) (Fin n) ℝ) (newton : Fin n → ℝ)
    (radius : ℝ) : (Fin n → ℝ) → Prop where
  /-- the Newton step, inside the region -/
  | newton : length newton ≤ radius → OnPath gradient model newton radius newton
  /-- down the gradient, where the model falls for ever -/
  | falling : radius < length newton → gradient ⬝ᵥ model *ᵥ gradient ≤ 0 →
      OnPath gradient model newton radius ((radius / length gradient) • -gradient)
  /-- on the way to the minimum down the gradient -/
  | descending : radius < length newton → 0 < gradient ⬝ᵥ model *ᵥ gradient →
      radius ≤ length (cauchy gradient model) →
      OnPath gradient model newton radius
        ((radius / length (cauchy gradient model)) • cauchy gradient model)
  /-- on the way from that minimum to the Newton point -/
  | turning {t : ℝ} : radius < length newton → 0 < gradient ⬝ᵥ model *ᵥ gradient →
      length (cauchy gradient model) < radius → 0 < t → t < 1 →
      length (cauchy gradient model + t • (newton - cauchy gradient model)) = radius →
      OnPath gradient model newton radius
        (cauchy gradient model + t • (newton - cauchy gradient model))

/-! ### Where the path crosses the boundary -/

/-- A parabola that is below zero at zero and above zero at one has its greater root between. -/
theorem exists_root_between {a b c : ℝ} (opens : 0 < a) (below : c < 0) (above : 0 < a + b + c) :
    ∃ t : ℝ, (-b + √(max (b * b - 4 * a * c) 0)) / (2 * a) = t ∧ 0 < t ∧ t < 1 ∧
      a * (t * t) + b * t + c = 0 := by
  have down : a * c < 0 := mul_neg_of_pos_of_neg opens below
  have discriminant_nonneg : 0 ≤ b * b - 4 * a * c := by nlinarith [mul_self_nonneg b]
  rw [max_eq_left discriminant_nonneg]
  set s := √(b * b - 4 * a * c) with s_def
  have square : s * s = b * b - 4 * a * c := Real.mul_self_sqrt discriminant_nonneg
  have s_nonneg : 0 ≤ s := Real.sqrt_nonneg _
  -- the root is larger than the linear coefficient, and smaller than what it takes to reach one
  have past_zero : b < s := by
    apply lt_of_pow_lt_pow_left₀ 2 s_nonneg
    nlinarith
  have before_one : s < 2 * a + b := by
    apply lt_of_pow_lt_pow_left₀ 2 (by linarith)
    nlinarith [mul_pos opens above]
  have twice : 0 < 2 * a := by linarith
  refine ⟨(-b + s) / (2 * a), rfl, div_pos (by linarith) twice, ?_, ?_⟩
  · rw [div_lt_one twice]
    linarith
  · have root : 2 * a * ((-b + s) / (2 * a)) = -b + s := mul_div_cancel₀ _ twice.ne'
    generalize (-b + s) / (2 * a) = t at root
    have fourfold : 4 * a * (a * (t * t) + b * t + c) = 0 := by
      have s_eq : s = 2 * a * t + b := by linarith
      rw [s_eq] at square
      linarith [square]
    exact (mul_eq_zero.1 fourfold).resolve_left (by linarith)

/-- Between a point inside the region and one outside, the path crosses the boundary. -/
theorem boundaryPoint_ofReals {start goal : Fin n → ℝ} {radius : ℝ} (positive : 0 < radius)
    (inside : length start < radius) (outside : radius < length goal) :
    ∃ t : ℝ, 0 < t ∧ t < 1 ∧ length (start + t • (goal - start)) = radius ∧
      boundaryPoint (ofReals start) (ofReals goal) (.of (length start)) (.of radius) =
        ofReals (start + t • (goal - start)) := by
  set d := goal - start with d_def
  have goal_eq : goal = start + d := by rw [d_def, add_sub_cancel]
  have moved : d ≠ 0 := by
    intro none
    rw [goal_eq, none, add_zero] at outside
    exact lt_asymm inside outside
  have square (t : ℝ) : (start + t • d) ⬝ᵥ (start + t • d) =
      d ⬝ᵥ d * (t * t) + 2 * (start ⬝ᵥ d) * t + start ⬝ᵥ start := by
    simp only [add_dotProduct, dotProduct_add, smul_dotProduct, dotProduct_smul, smul_eq_mul,
      dotProduct_comm d start]
    ring
  have below : length start * length start - radius * radius < 0 :=
    sub_neg.2 (mul_self_lt_mul_self (length_nonneg start) inside)
  have above : 0 < d ⬝ᵥ d + 2 * (start ⬝ᵥ d) + (length start * length start - radius * radius) := by
    have at_one := square 1
    rw [one_smul, ← goal_eq, ← length_mul_self, ← length_mul_self start] at at_one
    have far := mul_self_lt_mul_self positive.le outside
    linarith
  obtain ⟨t, t_eq, t_pos, t_lt, root⟩ :=
    exists_root_between (dotProduct_self_pos moved) below above
  refine ⟨t, t_pos, t_lt, ?_, ?_⟩
  · apply length_eq_of_dotProduct positive.le
    rw [square, ← length_mul_self start]
    linarith
  · have two : (Scalar.ofInt 2 : ExactReal) = .of 2 := congrArg Exact.of (by norm_num)
    have four : (Scalar.ofInt 4 : ExactReal) = .of 4 := congrArg Exact.of (by norm_num)
    have twice : 2 * (d ⬝ᵥ d) ≠ 0 := mul_ne_zero two_ne_zero (dotProduct_self_pos moved).ne'
    unfold boundaryPoint
    simp only [sub_ofReals, normSquared, dot_ofReals, ← d_def, two, four, zero_eq, of_mul_of,
      of_sub_of, neg_of, max_of, sqrt_of (le_max_right _ (0 : ℝ)), of_add_of]
    rw [div_of _ twice, t_eq, scale_ofReals, add_ofReals]

theorem exists_step_onPath {gradient : Fin n → ℝ} (nonzero : gradient ≠ 0)
    (model : Matrix (Fin n) (Fin n) ℝ) (newton : Fin n → ℝ) {radius : ℝ} (positive : 0 < radius) :
    ∃ p, step (ofReals gradient) (ofMatrix model) (ofReals newton) (.of radius) = ofReals p ∧
      OnPath gradient model newton radius p := by
  have g_pos : 0 < length gradient := length_pos nonzero
  unfold step
  simp only [norm_ofReals, le_of, quadratic_ofReals, zero_eq, neg_ofReals, decide_eq_true_eq]
  split
  next fits => exact ⟨newton, rfl, .newton fits⟩
  next far =>
    have far : radius < length newton := not_le.1 far
    split
    next falls =>
      rw [div_of radius g_pos.ne', scale_ofReals]
      exact ⟨_, rfl, .falling far falls⟩
    next curved =>
      have curved : 0 < gradient ⬝ᵥ model *ᵥ gradient := not_le.1 curved
      have point : scale (ofReals (-gradient)) (.of (length gradient) * .of (length gradient) /
          .of (gradient ⬝ᵥ model *ᵥ gradient)) = ofReals (cauchy gradient model) := by
        rw [of_mul_of, div_of _ curved.ne', scale_ofReals]
        rfl
      simp only [point, norm_ofReals, le_of, decide_eq_true_eq]
      split
      next beyond =>
        rw [div_of radius (positive.trans_le beyond).ne', scale_ofReals]
        exact ⟨_, rfl, .descending far curved beyond⟩
      next within =>
        have within : length (cauchy gradient model) < radius := not_le.1 within
        obtain ⟨t, t_pos, t_lt, crosses, same⟩ := boundaryPoint_ofReals positive within far
        exact ⟨_, same, .turning far curved within t_pos t_lt crosses⟩

end Dogleg

end Simultaneous
