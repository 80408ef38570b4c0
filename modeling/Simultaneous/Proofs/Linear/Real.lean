import Simultaneous.Proofs.Linear.Magnitude
import Simultaneous.Proofs.Scalar.Real

/-!
Vectors and matrices of real numbers as values of exact arithmetic. On these, sums, multiples,
products and lengths are those of linear algebra.
-/

namespace Simultaneous

open Matrix

abbrev ExactReal : Type := Exact Interpretation.real.arithmetic

namespace Linear

variable {m n k : Nat}

noncomputable def ofReals (x : Fin n → ℝ) : Vector ExactReal n := Vector.ofFn fun i => .of (x i)

noncomputable def ofMatrix (a : Matrix (Fin m) (Fin n) ℝ) : Grid ExactReal m n :=
  Vector.ofFn fun i => ofReals (a i)

noncomputable def length (x : Fin n → ℝ) : ℝ := √(x ⬝ᵥ x)

theorem getElem_ofReals (x : Fin n → ℝ) (i : Nat) (inside : i < n) :
    (ofReals x)[i] = .of (x ⟨i, inside⟩) :=
  Vector.getElem_ofFn inside

theorem getElem_ofMatrix (a : Matrix (Fin m) (Fin n) ℝ) (i : Nat) (inside : i < m) :
    (ofMatrix a)[i] = ofReals (a ⟨i, inside⟩) :=
  Vector.getElem_ofFn inside

theorem exists_ofReals {x : Vector ExactReal n} (finite : isFinite x = true) :
    ∃ a, x = ofReals a := by
  have values : ∀ i : Fin n, ∃ a : ℝ, x[i] = .of a := fun i =>
    Exact.isFinite_iff.1 (Vector.all_eq_true_iff_forall_mem.1 finite x[i] (Vector.getElem_mem i.2))
  choose a entries using values
  refine ⟨a, Vector.ext fun i inside => ?_⟩
  rw [getElem_ofReals]
  exact entries ⟨i, inside⟩

theorem isFinite_ofReals (x : Fin n → ℝ) : isFinite (ofReals x) = true := by
  apply Vector.all_eq_true_iff_forall_mem.2
  intro c member
  obtain ⟨i, inside, rfl⟩ := Vector.mem_iff_getElem.1 member
  rw [getElem_ofReals]
  rfl

theorem exists_ofMatrix {a : Grid ExactReal m n} (finite : isFiniteGrid a = true) :
    ∃ b, a = ofMatrix b := by
  have values : ∀ i : Fin m, ∃ x : Fin n → ℝ, a[i] = ofReals x := fun i =>
    exists_ofReals (Vector.all_eq_true_iff_forall_mem.1 finite a[i] (Vector.getElem_mem i.2))
  choose b rows using values
  refine ⟨Matrix.of b, Vector.ext fun i inside => ?_⟩
  rw [getElem_ofMatrix]
  exact rows ⟨i, inside⟩

theorem isFiniteGrid_ofMatrix (a : Matrix (Fin m) (Fin n) ℝ) :
    isFiniteGrid (ofMatrix a) = true := by
  apply Vector.all_eq_true_iff_forall_mem.2
  intro row member
  obtain ⟨i, inside, rfl⟩ := Vector.mem_iff_getElem.1 member
  rw [getElem_ofMatrix]
  exact isFinite_ofReals _

/-! ### Vectors -/

theorem add_ofReals (x y : Fin n → ℝ) : add (ofReals x) (ofReals y) = ofReals (x + y) := by
  ext i inside
  simp only [add, Vector.getElem_zipWith, getElem_ofReals]
  rfl

theorem sub_ofReals (x y : Fin n → ℝ) : sub (ofReals x) (ofReals y) = ofReals (x - y) := by
  ext i inside
  simp only [sub, Vector.getElem_zipWith, getElem_ofReals]
  rfl

theorem neg_ofReals (x : Fin n → ℝ) : neg (ofReals x) = ofReals (-x) := by
  ext i inside
  simp only [neg, Vector.getElem_map, getElem_ofReals]
  rfl

theorem scale_ofReals (x : Fin n → ℝ) (c : ℝ) : scale (ofReals x) (.of c) = ofReals (c • x) := by
  ext i inside
  simp only [scale, Vector.getElem_map, getElem_ofReals, Exact.of_mul_of, Pi.smul_apply,
    smul_eq_mul, mul_comm]

theorem foldl_add_of (xs : List ℝ) (first : ℝ) :
    (xs.map (Exact.of : ℝ → ExactReal)).foldl (· + ·) (.of first) = .of (first + xs.sum) := by
  induction xs generalizing first with
  | nil => rw [List.sum_nil, add_zero]; rfl
  | cons x rest ih =>
    rw [List.map_cons, List.foldl_cons, List.sum_cons, ← add_assoc]
    exact ih (first + x)

theorem dot_ofReals (x y : Fin n → ℝ) : dot (ofReals x) (ofReals y) = .of (x ⬝ᵥ y) := by
  have terms : Vector.zipWith (· * ·) (ofReals x) (ofReals y) =
      Vector.ofFn fun i => (.of (x i * y i) : ExactReal) := by
    ext i inside
    simp only [Vector.getElem_zipWith, getElem_ofReals, Vector.getElem_ofFn, Exact.of_mul_of]
  have reals : List.ofFn (fun i => (.of (x i * y i) : ExactReal)) =
      (List.ofFn fun i => x i * y i).map .of := by
    rw [List.map_ofFn]
    rfl
  rw [dot, terms, ← Vector.foldl_toList, Vector.toList_ofFn, Exact.zero_eq, reals, foldl_add_of,
    List.sum_ofFn, zero_add]
  rfl

theorem sqrt_of {a : ℝ} (nonneg : 0 ≤ a) : Scalar.sqrt (.of a : ExactReal) = .of (√a) :=
  Exact.apply_eq_of.2 ⟨a, rfl, Interpretation.real_apply_eq_some.2 ⟨nonneg, rfl⟩⟩

theorem div_of (a : ℝ) {b : ℝ} (nonzero : b ≠ 0) : (.of a / .of b : ExactReal) = .of (a / b) :=
  Exact.div_eq_of.2 ⟨a, b, rfl, rfl, Interpretation.div_eq_some.2 ⟨nonzero, rfl⟩⟩

theorem decimal_of_neg (digits k : Nat) :
    (Scalar.decimal digits (-k) : ExactReal) = .of (digits / 10 ^ k) := by
  have quotient : (digits : ℝ) * 10 ^ (-(k : ℤ)) = digits / 10 ^ k := by simp [div_eq_mul_inv]
  exact (decimal_eq digits (-k)).trans (congrArg Exact.of quotient)

theorem dotProduct_self_nonneg (x : Fin n → ℝ) : 0 ≤ x ⬝ᵥ x :=
  Finset.sum_nonneg fun i _ => mul_self_nonneg (x i)

theorem dotProduct_self_pos {x : Fin n → ℝ} (nonzero : x ≠ 0) : 0 < x ⬝ᵥ x :=
  (dotProduct_self_nonneg x).lt_of_ne fun none => nonzero (dotProduct_self_eq_zero.1 none.symm)

theorem norm_ofReals (x : Fin n → ℝ) : norm (ofReals x) = .of (length x) := by
  rw [norm, normSquared, dot_ofReals, sqrt_of (dotProduct_self_nonneg x)]
  rfl

/-! ### Lengths -/

theorem length_nonneg (x : Fin n → ℝ) : 0 ≤ length x := Real.sqrt_nonneg _

theorem length_pos {x : Fin n → ℝ} (nonzero : x ≠ 0) : 0 < length x :=
  Real.sqrt_pos.2 (dotProduct_self_pos nonzero)

theorem length_mul_self (x : Fin n → ℝ) : length x * length x = x ⬝ᵥ x :=
  Real.mul_self_sqrt (dotProduct_self_nonneg x)

theorem length_zero : length (0 : Fin n → ℝ) = 0 := by
  rw [length, dotProduct_zero, Real.sqrt_zero]

theorem length_smul {c : ℝ} (nonneg : 0 ≤ c) (x : Fin n → ℝ) : length (c • x) = c * length x := by
  rw [length, smul_dotProduct, dotProduct_smul, smul_eq_mul, smul_eq_mul, ← mul_assoc,
    Real.sqrt_mul (mul_self_nonneg c), Real.sqrt_mul_self nonneg]
  rfl

theorem length_neg (x : Fin n → ℝ) : length (-x) = length x := by
  rw [length, neg_dotProduct_neg]
  rfl

theorem length_eq_of_dotProduct {x : Fin n → ℝ} {d : ℝ} (nonneg : 0 ≤ d)
    (square : x ⬝ᵥ x = d * d) : length x = d := by
  rw [length, square, Real.sqrt_mul_self nonneg]

/-! ### Matrices -/

theorem transpose_ofMatrix (a : Matrix (Fin m) (Fin n) ℝ) :
    transpose (ofMatrix a) = ofMatrix aᵀ := by
  ext i inside j within
  simp only [transpose, Vector.getElem_ofFn, Vector.getElem_map, getElem_ofMatrix]
  rw [Fin.getElem_fin, getElem_ofReals, getElem_ofReals]
  rfl

theorem mulVector_ofReals (a : Matrix (Fin m) (Fin n) ℝ) (x : Fin n → ℝ) :
    mulVector (ofMatrix a) (ofReals x) = ofReals (a *ᵥ x) := by
  ext i inside
  simp only [mulVector, Vector.getElem_map, getElem_ofMatrix, getElem_ofReals, dot_ofReals]
  rfl

theorem mulTransposed_ofMatrix (a : Matrix (Fin m) (Fin n) ℝ) (b : Matrix (Fin k) (Fin n) ℝ) :
    mulTransposed (ofMatrix a) (ofMatrix b) = ofMatrix (a * bᵀ) := by
  ext i inside j within
  simp only [mulTransposed, Vector.getElem_map, getElem_ofMatrix, getElem_ofReals, dot_ofReals]
  rfl

theorem addGrid_ofMatrix (a b : Matrix (Fin m) (Fin n) ℝ) :
    addGrid (ofMatrix a) (ofMatrix b) = ofMatrix (a + b) := by
  ext i inside
  simp only [addGrid, Vector.getElem_zipWith, getElem_ofMatrix, add_ofReals]
  rfl

theorem quadratic_ofReals (a : Matrix (Fin n) (Fin n) ℝ) (x : Fin n → ℝ) :
    quadratic (ofMatrix a) (ofReals x) = .of (x ⬝ᵥ a *ᵥ x) := by
  rw [quadratic, transpose_ofMatrix, mulVector_ofReals, dot_ofReals, mulVec_transpose,
    dotProduct_mulVec]

end Linear

end Simultaneous
