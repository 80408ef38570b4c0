import Simultaneous.Linear.Solver
import Simultaneous.Proofs.Linear.Real

/-!
Linear solves with real numbers. Elimination divides by pivots that are not zero, triangular square
roots are taken of positive pivots, and rotations only turn columns that are not orthogonal yet. So
whatever these ways to solve a real system answer is real.
-/

namespace Simultaneous

/-- Answers to systems of real numbers are real. -/
structure LinearSolver.IsReal (solver : LinearSolver ExactReal) : Prop where
  general {m n : Nat} {a : Grid ExactReal m n} {b : Vector ExactReal m} {x : Vector ExactReal n} :
    Linear.isFiniteGrid a = true → Linear.isFinite b = true → solver.general? a b = some x →
      Linear.isFinite x = true
  positive {n : Nat} {a : Grid ExactReal n n} {b x : Vector ExactReal n} :
    Linear.isFiniteGrid a = true → Linear.isFinite b = true → solver.positive? a b = some x →
      Linear.isFinite x = true
  least {m n : Nat} {a : Grid ExactReal m n} {b : Vector ExactReal m} {x : Vector ExactReal n} :
    Linear.isFiniteGrid a = true → Linear.isFinite b = true → solver.least? a b = some x →
      Linear.isFinite x = true

namespace Linear

open Exact

def IsReal (c : ExactReal) : Prop := ∃ a : ℝ, c = .of a

def AllReal (xs : List ExactReal) : Prop := ∀ c ∈ xs, IsReal c

namespace IsReal

variable {c d : ExactReal}

theorem add (first : IsReal c) (second : IsReal d) : IsReal (c + d) := by
  obtain ⟨a, rfl⟩ := first
  obtain ⟨b, rfl⟩ := second
  exact ⟨a + b, rfl⟩

theorem sub (first : IsReal c) (second : IsReal d) : IsReal (c - d) := by
  obtain ⟨a, rfl⟩ := first
  obtain ⟨b, rfl⟩ := second
  exact ⟨a - b, rfl⟩

theorem mul (first : IsReal c) (second : IsReal d) : IsReal (c * d) := by
  obtain ⟨a, rfl⟩ := first
  obtain ⟨b, rfl⟩ := second
  exact ⟨a * b, rfl⟩

theorem neg (real : IsReal c) : IsReal (-c) := by
  obtain ⟨a, rfl⟩ := real
  exact ⟨-a, rfl⟩

theorem div (real : IsReal c) {b : ℝ} (nonzero : b ≠ 0) : IsReal (c / .of b) := by
  obtain ⟨a, rfl⟩ := real
  exact ⟨a / b, div_of a nonzero⟩

theorem zero : IsReal Scalar.zero := ⟨0, zero_eq⟩

theorem one : IsReal Scalar.one := ⟨1, one_eq⟩

end IsReal

namespace AllReal

variable {xs ys : List ExactReal}

theorem cons_iff {c : ExactReal} : AllReal (c :: xs) ↔ IsReal c ∧ AllReal xs := List.forall_mem_cons

theorem zipWith {f : ExactReal → ExactReal → ExactReal}
    (closed : ∀ {c d}, IsReal c → IsReal d → IsReal (f c d)) (first : AllReal xs)
    (second : AllReal ys) : AllReal (List.zipWith f xs ys) := by
  intro c member
  rw [← List.map_uncurry_zip_eq_zipWith] at member
  obtain ⟨⟨x, y⟩, paired, rfl⟩ := List.mem_map.1 member
  obtain ⟨left, right⟩ := List.of_mem_zip paired
  exact closed (first x left) (second y right)

theorem exists_map (real : AllReal xs) : ∃ as : List ℝ, xs = as.map .of := by
  induction xs with
  | nil => exact ⟨[], rfl⟩
  | cons c rest ih =>
    obtain ⟨⟨a, rfl⟩, others⟩ := cons_iff.1 real
    obtain ⟨as, rfl⟩ := ih others
    exact ⟨a :: as, rfl⟩

theorem sum (real : AllReal xs) : IsReal (xs.foldl (· + ·) Scalar.zero) := by
  obtain ⟨as, rfl⟩ := real.exists_map
  rw [zero_eq]
  exact ⟨0 + as.sum, foldl_add_of as 0⟩

theorem toVector {n : Nat} {x : Vector ExactReal n} (real : AllReal xs)
    (fits : vector? n xs = some x) : isFinite x = true := by
  unfold vector? at fits
  split at fits
  next =>
    cases fits
    apply Vector.all_eq_true_iff_forall_mem.2
    intro c member
    exact isFinite_iff.2 (real c (by simpa using member))
  next => cases fits

end AllReal

theorem allReal_toList {n : Nat} {x : Vector ExactReal n} (finite : isFinite x = true) :
    AllReal x.toList := fun c member =>
  isFinite_iff.1 (Vector.all_eq_true_iff_forall_mem.1 finite c (Vector.mem_toList_iff.1 member))

/-! ### Elimination -/

structure Row.IsReal (r : Row ExactReal) : Prop where
  coefficients : AllReal r.coefficients
  right : Linear.IsReal r.right

structure Led.IsReal (r : Led ExactReal) : Prop where
  lead : Linear.IsReal r.lead
  others : AllReal r.others
  right : Linear.IsReal r.right

theorem Row.IsReal.led {r : Row ExactReal} (real : r.IsReal) {l : Led ExactReal}
    (led : r.led? = some l) : l.IsReal := by
  obtain ⟨coefficients, right⟩ := r
  unfold Row.led? at led
  cases coefficients with
  | nil => cases led
  | cons lead others =>
    cases led
    obtain ⟨first, rest⟩ := AllReal.cons_iff.1 real.coefficients
    exact ⟨first, rest, real.right⟩

theorem pivot_mem {α : Type} [Scalar α] (first : Led α) (rest : List (Led α)) :
    (pivot first rest).1 ∈ first :: rest ∧ ∀ r ∈ (pivot first rest).2, r ∈ first :: rest := by
  induction rest with
  | nil => exact ⟨List.mem_singleton_self first, fun r member => by cases member⟩
  | cons next rest ih =>
    obtain ⟨best, others⟩ := ih
    have skip : ∀ r ∈ first :: rest, r ∈ first :: next :: rest := by
      intro r member
      rcases List.mem_cons.1 member with rfl | later
      · exact List.mem_cons_self
      · exact List.mem_cons_of_mem _ (List.mem_cons_of_mem _ later)
    unfold pivot
    simp only
    split
    next => exact ⟨List.mem_cons_of_mem _ List.mem_cons_self, skip⟩
    next =>
      refine ⟨skip _ best, fun r member => ?_⟩
      rcases List.mem_cons.1 member with rfl | later
      · exact List.mem_cons_of_mem _ List.mem_cons_self
      · exact skip r (others r later)

theorem exists_nonzero_of_beq {c : ExactReal} (real : IsReal c)
    (other : ¬(c == Scalar.zero) = true) : ∃ a : ℝ, a ≠ 0 ∧ c = .of a := by
  obtain ⟨a, rfl⟩ := real
  refine ⟨a, ?_, rfl⟩
  rintro rfl
  exact other (beq_eq_true.2 ⟨0, rfl, zero_eq⟩)

theorem reduce_isReal {p r : Led ExactReal} (pivot : p.IsReal) (row : r.IsReal) {a : ℝ}
    (nonzero : a ≠ 0) (lead : p.lead = .of a) : (reduce p r).IsReal := by
  have factor : Linear.IsReal (r.lead * (Scalar.one / p.lead)) := by
    rw [lead]
    exact row.lead.mul (.div .one nonzero)
  have subtract : ∀ {y x : ExactReal}, Linear.IsReal y → Linear.IsReal x →
      Linear.IsReal (-x * (r.lead * (Scalar.one / p.lead)) + y) :=
    fun y x => (x.neg.mul factor).add y
  exact ⟨row.others.zipWith subtract pivot.others, (pivot.right.neg.mul factor).add row.right⟩

theorem substitute_isReal {p : Led ExactReal} (pivot : p.IsReal) {xs : List ExactReal}
    (known : AllReal xs) {a : ℝ} (nonzero : a ≠ 0) (lead : p.lead = .of a) :
    IsReal (substitute p xs) := by
  have right : ∀ entries : List (ExactReal × ExactReal),
      (∀ e ∈ entries, IsReal e.1 ∧ IsReal e.2) →
        IsReal (entries.foldr (fun (a, x) right => -x * a + right) p.right) := by
    intro entries reals
    induction entries with
    | nil => exact pivot.right
    | cons e rest ih =>
      obtain ⟨own, others⟩ := List.forall_mem_cons.1 reals
      exact (own.2.neg.mul own.1).add (ih others)
  rw [substitute, lead]
  refine (right _ fun e member => ?_).div nonzero
  obtain ⟨coefficient, value⟩ := List.of_mem_zip member
  exact ⟨pivot.others _ coefficient, known _ value⟩

theorem allReal_of_eliminate? {unknowns : Nat} {rows : List (Row ExactReal)}
    (reals : ∀ r ∈ rows, r.IsReal) {xs : List ExactReal}
    (solved : eliminate? unknowns rows = some xs) : AllReal xs := by
  induction unknowns generalizing rows xs with
  | zero =>
    cases solved
    exact fun c member => by cases member
  | succ unknowns ih =>
    unfold eliminate? at solved
    split at solved
    next => cases solved
    next first rest led =>
      have led_reals : ∀ l ∈ first :: rest, l.IsReal := by
        intro l member
        rw [← led] at member
        obtain ⟨r, among, leads⟩ := List.mem_filterMap.1 member
        exact (reals r among).led leads
      obtain ⟨best, others⟩ := pivot_mem first rest
      simp only at solved
      split at solved
      next => cases solved
      next other =>
        obtain ⟨a, nonzero, lead⟩ := exists_nonzero_of_beq (led_reals _ best).lead other
        obtain ⟨ys, later, rfl⟩ := Option.map_eq_some_iff.1 solved
        have later_reals : AllReal ys := by
          refine ih (fun r member => ?_) later
          obtain ⟨l, among, rfl⟩ := List.mem_map.1 member
          exact reduce_isReal (led_reals _ best) (led_reals l (others l among)) nonzero lead
        exact AllReal.cons_iff.2
          ⟨substitute_isReal (led_reals _ best) later_reals nonzero lead, later_reals⟩

theorem isFinite_of_solve? {m n : Nat} {a : Grid ExactReal m n} {b : Vector ExactReal m}
    {x : Vector ExactReal n} (matrix : isFiniteGrid a = true) (right : isFinite b = true)
    (solved : solve? a b = some x) : isFinite x = true := by
  unfold solve? at solved
  simp only at solved
  split at solved
  next =>
    obtain ⟨xs, eliminated, fits⟩ := Option.bind_eq_some_iff.1 solved
    refine AllReal.toVector (allReal_of_eliminate? (fun r member => ?_) eliminated) fits
    obtain ⟨i, inside, rfl⟩ := Vector.mem_iff_getElem.1 (Vector.mem_toList_iff.1 member)
    rw [Vector.getElem_zipWith]
    exact ⟨allReal_toList
        (Vector.all_eq_true_iff_forall_mem.1 matrix a[i] (Vector.getElem_mem inside)),
      isFinite_iff.1 (Vector.all_eq_true_iff_forall_mem.1 right b[i] (Vector.getElem_mem inside))⟩
  next => cases solved

/-! ### Triangular square roots -/

def IsRoot (t : Triangle ExactReal) : Prop :=
  ∀ column ∈ t, ∃ (d : ℝ) (below : List ExactReal),
    d ≠ 0 ∧ column = .of d :: below ∧ AllReal below

theorem allReal_downdate {left : List ExactReal} (reals : AllReal left) {t : Triangle ExactReal}
    (columns : ∀ column ∈ t, AllReal column) : ∀ column ∈ downdate left t, AllReal column := by
  induction t generalizing left with
  | nil => cases left <;> exact fun column member => by cases member
  | cons column rest ih =>
    cases left with
    | nil => exact fun column member => by cases member
    | cons l ls =>
      obtain ⟨own, others⟩ := List.forall_mem_cons.1 columns
      obtain ⟨first, later⟩ := AllReal.cons_iff.1 reals
      rw [downdate]
      refine List.forall_mem_cons.2 ⟨?_, ih later others⟩
      exact own.zipWith (fun y x => (first.neg.mul x).add y) reals

theorem exists_root_of_pivot {c : ExactReal} (real : IsReal c)
    (passes : ¬(c == Scalar.zero || !Scalar.le Scalar.zero c) = true) :
    ∃ d : ℝ, d ≠ 0 ∧ Scalar.sqrt c = .of d := by
  obtain ⟨other, nonneg⟩ : (c == Scalar.zero) = false ∧ Scalar.le Scalar.zero c = true := by
    simpa using passes
  obtain ⟨a, nonzero, rfl⟩ := exists_nonzero_of_beq real (by rw [other]; exact Bool.false_ne_true)
  rw [zero_eq, le_of, decide_eq_true_eq] at nonneg
  exact ⟨√a, (Real.sqrt_pos.2 (nonneg.lt_of_ne nonzero.symm)).ne', sqrt_of nonneg⟩

theorem isRoot_of_squareRoot? {t root : Triangle ExactReal}
    (columns : ∀ column ∈ t, AllReal column) (taken : squareRoot? t = some root) : IsRoot root := by
  fun_induction squareRoot? t generalizing root with
  | case1 =>
    cases taken
    exact fun column member => by cases member
  | case2 => cases taken
  | case3 => cases taken
  | case4 c below rest passes own left =>
    rename_i ih
    obtain ⟨others, later, rfl⟩ := Option.map_eq_some_iff.1 taken
    obtain ⟨first, rest_columns⟩ := List.forall_mem_cons.1 columns
    obtain ⟨real, below_reals⟩ := AllReal.cons_iff.1 first
    obtain ⟨d, nonzero, sqrt⟩ := exists_root_of_pivot real passes
    have left_reals : AllReal left := by
      intro e member
      obtain ⟨x, among, rfl⟩ := List.mem_map.1 member
      have divided : IsReal (x / .of d) := (below_reals x among).div nonzero
      rwa [← sqrt] at divided
    exact List.forall_mem_cons.2 ⟨⟨d, left, nonzero, congrArg (· :: left) sqrt, left_reals⟩,
      ih (allReal_downdate left_reals rest_columns) later⟩

theorem allReal_forward {t : Triangle ExactReal} (root : IsRoot t) {b : List ExactReal}
    (right : AllReal b) : AllReal (forward t b) := by
  induction t generalizing b with
  | nil => exact fun c member => by cases member
  | cons column rest ih =>
    obtain ⟨⟨d, below, nonzero, rfl, below_reals⟩, others⟩ := List.forall_mem_cons.1 root
    cases b with
    | nil => exact fun c member => by cases member
    | cons c bs =>
      obtain ⟨own, later⟩ := AllReal.cons_iff.1 right
      have y : IsReal (c / .of d) := own.div nonzero
      rw [forward]
      refine AllReal.cons_iff.2 ⟨y, ih others ?_⟩
      exact later.zipWith (fun c l => (y.neg.mul l).add c) below_reals

theorem allReal_backward {t : Triangle ExactReal} (root : IsRoot t) {y : List ExactReal}
    (right : AllReal y) : AllReal (backward t y) := by
  induction t generalizing y with
  | nil => exact fun c member => by cases member
  | cons column rest ih =>
    obtain ⟨⟨d, below, nonzero, rfl, below_reals⟩, others⟩ := List.forall_mem_cons.1 root
    cases y with
    | nil => exact fun c member => by cases member
    | cons c ys =>
      obtain ⟨own, later⟩ := AllReal.cons_iff.1 right
      have xs := ih others later
      rw [backward]
      refine AllReal.cons_iff.2 ⟨(own.sub ?_).div nonzero, xs⟩
      exact (below_reals.zipWith IsReal.mul xs).sum

theorem isFinite_row {m n : Nat} {a : Grid ExactReal m n} (matrix : isFiniteGrid a = true)
    {row : Vector ExactReal n} (member : row ∈ a) : isFinite row = true :=
  Vector.all_eq_true_iff_forall_mem.1 matrix row member

theorem isFiniteGrid_transpose {m n : Nat} {a : Grid ExactReal m n}
    (matrix : isFiniteGrid a = true) : isFiniteGrid (transpose a) = true := by
  obtain ⟨b, rfl⟩ := exists_ofMatrix matrix
  rw [transpose_ofMatrix]
  exact isFiniteGrid_ofMatrix _

theorem isFinite_of_solvePositive? {n : Nat} {a : Grid ExactReal n n} {b x : Vector ExactReal n}
    (matrix : isFiniteGrid a = true) (right : isFinite b = true)
    (solved : solvePositive? a b = some x) : isFinite x = true := by
  obtain ⟨t, taken, fits⟩ := Option.bind_eq_some_iff.1 solved
  have columns : ∀ column ∈ lowerTriangle a, AllReal column := by
    intro column member
    obtain ⟨⟨v, j⟩, among, rfl⟩ := List.mem_map.1 member
    have row : v ∈ transpose a :=
      Vector.mem_toList_iff.1 (List.fst_mem_of_mem_zipIdx among)
    intro c inside
    exact allReal_toList (isFinite_row (isFiniteGrid_transpose matrix) row) c
      (List.mem_of_mem_drop inside)
  have root := isRoot_of_squareRoot? columns taken
  exact (allReal_backward root (allReal_forward root (allReal_toList right))).toVector fits

/-! ### Least squares -/

structure Column.IsReal (c : Column ExactReal) : Prop where
  image : AllReal c.image
  direction : AllReal c.direction

theorem dotList_isReal {x y : List ExactReal} (first : AllReal x) (second : AllReal y) :
    IsReal (dotList x y) :=
  (first.zipWith IsReal.mul second).sum

theorem exists_length {x : List ExactReal} (real : AllReal x) :
    ∃ a : ℝ, 0 ≤ a ∧ dotList x x = .of a := by
  obtain ⟨as, rfl⟩ := real.exists_map
  have products : List.zipWith (· * ·) (as.map (.of : ℝ → ExactReal)) (as.map .of) =
      (as.map fun a => a * a).map .of := by
    rw [List.zipWith_map, List.zipWith_self, List.map_map]
    rfl
  refine ⟨(as.map fun a => a * a).sum, List.sum_nonneg fun c member => ?_, ?_⟩
  · obtain ⟨a, -, rfl⟩ := List.mem_map.1 member
    exact mul_self_nonneg a
  · rw [dotList, products, zero_eq, foldl_add_of, zero_add]

theorem exists_negligible : ∃ e : ℝ, 0 < e ∧ (negligible : ExactReal) = .of e := by
  refine ⟨1 / (Int.pow 2 52 : Int), by norm_num, ?_⟩
  rw [negligible, one_eq, ofInt_eq]
  exact div_of 1 (by norm_num)

theorem turn_isReal {c s : ExactReal} (cosine : IsReal c) (sine : IsReal s)
    {p q : Column ExactReal} (first : p.IsReal) (second : q.IsReal) :
    Column.IsReal ⟨(turn c s p.image q.image).1, (turn c s p.direction q.direction).1⟩ ∧
      Column.IsReal ⟨(turn c s p.image q.image).2, (turn c s p.direction q.direction).2⟩ := by
  have along : ∀ {a b : ExactReal}, IsReal a → IsReal b → IsReal (c * a - s * b) :=
    fun a b => (cosine.mul a).sub (sine.mul b)
  have across : ∀ {a b : ExactReal}, IsReal a → IsReal b → IsReal (s * a + c * b) :=
    fun a b => (sine.mul a).add (cosine.mul b)
  exact ⟨⟨first.image.zipWith along second.image, first.direction.zipWith along second.direction⟩,
    ⟨first.image.zipWith across second.image, first.direction.zipWith across second.direction⟩⟩

theorem exists_sqrt_one_add_square {t : ExactReal} (real : IsReal t) :
    ∃ r : ℝ, 0 < r ∧ Scalar.sqrt (Scalar.one + t * t) = .of r := by
  obtain ⟨a, rfl⟩ := real
  have positive : 0 < 1 + a * a := add_pos_of_pos_of_nonneg one_pos (mul_self_nonneg a)
  have sum : (Scalar.one + .of a * .of a : ExactReal) = .of (1 + a * a) := by
    rw [one_eq]
    rfl
  exact ⟨√(1 + a * a), Real.sqrt_pos.2 positive, by rw [sum, sqrt_of positive.le]⟩

theorem cosine_isReal {t : ExactReal} (tangent : IsReal t) :
    IsReal (Scalar.one / Scalar.sqrt (Scalar.one + t * t)) := by
  obtain ⟨r, positive, root⟩ := exists_sqrt_one_add_square tangent
  rw [root]
  exact IsReal.one.div positive.ne'

theorem tangent_isReal {z : ExactReal} (real : IsReal z) :
    IsReal (if Scalar.lt z Scalar.zero then
        -(Scalar.one / (Scalar.abs z + Scalar.sqrt (Scalar.one + z * z)))
      else Scalar.one / (Scalar.abs z + Scalar.sqrt (Scalar.one + z * z))) := by
  obtain ⟨r, positive, root⟩ := exists_sqrt_one_add_square real
  obtain ⟨a, rfl⟩ := real
  have sum : (Scalar.abs (.of a) + .of r : ExactReal) = .of (|a| + r) := rfl
  have size : IsReal (Scalar.one / .of (|a| + r)) :=
    IsReal.one.div (add_pos_of_nonneg_of_pos (abs_nonneg a) positive).ne'
  rw [root, sum]
  split
  next => exact size.neg
  next => exact size

theorem orthogonalize_isReal {p q : Column ExactReal} (first : p.IsReal) (second : q.IsReal) :
    (orthogonalize p q).1.IsReal ∧ (orthogonalize p q).2.1.IsReal := by
  obtain ⟨a, a_nonneg, a_eq⟩ := exists_length first.image
  obtain ⟨b, b_nonneg, b_eq⟩ := exists_length second.image
  obtain ⟨g, g_eq⟩ := dotList_isReal first.image second.image
  obtain ⟨e, e_pos, e_eq⟩ := exists_negligible
  unfold orthogonalize
  simp only
  split
  next => exact ⟨first, second⟩
  next crossed =>
    rw [a_eq, b_eq, g_eq, e_eq, of_mul_of, sqrt_of (mul_nonneg a_nonneg b_nonneg), abs_of,
      of_mul_of, le_of, decide_eq_true_eq, not_le] at crossed
    have nonzero : g ≠ 0 :=
      abs_pos.1 (lt_of_le_of_lt (mul_nonneg e_pos.le (Real.sqrt_nonneg _)) crossed)
    have ratio : IsReal ((dotList q.image q.image - dotList p.image p.image) /
        (Scalar.ofInt 2 * dotList p.image q.image)) := by
      rw [a_eq, b_eq, g_eq, ofInt_eq, of_mul_of]
      exact IsReal.div ⟨b - a, rfl⟩ (mul_ne_zero (by norm_num) nonzero)
    have tangent := tangent_isReal ratio
    exact turn_isReal (cosine_isReal tangent) ((cosine_isReal tangent).mul tangent) first second

theorem orthogonalizeAll_isReal {p : Column ExactReal} (first : p.IsReal)
    {rest : List (Column ExactReal)} (others : ∀ q ∈ rest, q.IsReal) :
    (orthogonalizeAll p rest).1.IsReal ∧ ∀ q ∈ (orthogonalizeAll p rest).2.1, q.IsReal := by
  induction rest generalizing p with
  | nil => exact ⟨first, others⟩
  | cons q rest ih =>
    obtain ⟨own, later⟩ := List.forall_mem_cons.1 others
    obtain ⟨turned, other⟩ := orthogonalize_isReal first own
    obtain ⟨last, all⟩ := ih turned later
    exact ⟨last, List.forall_mem_cons.2 ⟨other, all⟩⟩

theorem sweep_isReal {columns : List (Column ExactReal)} (reals : ∀ c ∈ columns, c.IsReal) :
    ∀ c ∈ (sweep columns).1, c.IsReal := by
  induction columns with
  | nil => exact reals
  | cons p rest ih =>
    obtain ⟨own, others⟩ := List.forall_mem_cons.1 reals
    obtain ⟨first, all⟩ := orthogonalizeAll_isReal own (ih others)
    exact List.forall_mem_cons.2 ⟨first, all⟩

theorem sweeps_isReal (limit : Nat) {columns : List (Column ExactReal)}
    (reals : ∀ c ∈ columns, c.IsReal) : ∀ c ∈ sweeps limit columns, c.IsReal := by
  induction limit generalizing columns with
  | zero => exact reals
  | succ limit ih =>
    unfold sweeps
    simp only
    split
    next => exact ih (sweep_isReal reals)
    next => exact sweep_isReal reals

theorem combine_isReal {b zero : List ExactReal} (right : AllReal b) (start : AllReal zero)
    {columns : List (Column ExactReal)} (reals : ∀ c ∈ columns, c.IsReal) :
    AllReal (combine b zero columns) := by
  obtain ⟨e, e_pos, e_eq⟩ := exists_negligible
  unfold combine
  induction columns generalizing zero with
  | nil => exact start
  | cons column rest ih =>
    obtain ⟨own, others⟩ := List.forall_mem_cons.1 reals
    refine ih ?_ others
    obtain ⟨a, nonneg, a_eq⟩ := exists_length own.image
    simp only [a_eq, sqrt_of nonneg, e_eq, lt_of]
    split
    next long =>
      have long : e < √a := by simpa using long
      have nonzero : √a ≠ 0 := (e_pos.trans long).ne'
      have share : IsReal (dotList column.image b / .of (√a) / .of (√a)) :=
        ((dotList_isReal own.image right).div nonzero).div nonzero
      exact start.zipWith (fun x d => x.add (share.mul d)) own.direction
    next => exact start

theorem isFinite_of_leastSquares? {m n : Nat} {a : Grid ExactReal m n} {b : Vector ExactReal m}
    {x : Vector ExactReal n} (matrix : isFiniteGrid a = true) (right : isFinite b = true)
    (solved : leastSquares? a b = some x) : isFinite x = true := by
  unfold leastSquares? at solved
  simp only at solved
  refine AllReal.toVector (combine_isReal (allReal_toList right) ?_ (sweeps_isReal 60 ?_)) solved
  · intro c member
    rw [List.eq_of_mem_replicate member]
    exact .zero
  · intro column member
    obtain ⟨⟨v, j⟩, among, rfl⟩ := List.mem_map.1 member
    have row : v ∈ transpose a :=
      Vector.mem_toList_iff.1 (List.fst_mem_of_mem_zipIdx among)
    refine ⟨allReal_toList (isFinite_row (isFiniteGrid_transpose matrix) row), fun c inside => ?_⟩
    obtain ⟨i, -, rfl⟩ := List.mem_map.1 inside
    split
    next => exact .one
    next => exact .zero

end Linear

/-- The ways to solve systems that a solver uses answer real systems by real numbers. -/
theorem LinearSolver.direct_isReal : (direct : LinearSolver ExactReal).IsReal where
  general := Linear.isFinite_of_solve?
  positive := Linear.isFinite_of_solvePositive?
  least := Linear.isFinite_of_leastSquares?

end Simultaneous
