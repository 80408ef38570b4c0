import Simultaneous.Proofs.Expr.Partial
import Simultaneous.Proofs.Line.Value
import Simultaneous.Proofs.Root

/-!
The derivatives of coupled residuals: which partial derivative each entry of the Jacobian and of the
weighted Hessian is. Matrices are written row by row, and the Hessian is symmetric because mixed
partial derivatives are.
-/

namespace Simultaneous

open Filter Topology

/-! ### Rows written one after the other -/

theorem getElem?_flatten_of_length {β : Type} {rows : List (List β)} {n : Nat}
    (uniform : ∀ row ∈ rows, row.length = n) (i : Nat) {j : Nat} (inside : j < n) :
    rows.flatten[i * n + j]? = rows[i]?.bind (·[j]?) := by
  induction rows generalizing i with
  | nil => rfl
  | cons row rest ih =>
    have own := uniform row List.mem_cons_self
    have later := ih fun r member => uniform r (List.mem_cons_of_mem row member)
    rw [List.flatten_cons]
    cases i with
    | zero => rw [Nat.zero_mul, Nat.zero_add, List.getElem?_append_left (by omega)]; rfl
    | succ i =>
      have place : (i + 1) * n + j = row.length + (i * n + j) := by
        rw [own, Nat.succ_mul]
        omega
      rw [place, List.getElem?_append_right (Nat.le_add_right _ _), Nat.add_sub_cancel_left, later]
      rfl

theorem length_of_mem_map_map {β γ δ : Type} {xs : List β} {ys : List γ} {f : β → γ → δ}
    {row : List δ} (member : row ∈ xs.map fun x => ys.map (f x)) : row.length = ys.length := by
  obtain ⟨x, -, rfl⟩ := List.mem_map.1 member
  exact List.length_map _

theorem length_flatten_of_length {β : Type} {rows : List (List β)} {n : Nat}
    (uniform : ∀ row ∈ rows, row.length = n) : rows.flatten.length = rows.length * n := by
  rw [List.length_flatten, List.map_eq_replicate_iff.2 uniform, List.sum_replicate, smul_eq_mul]

section Values

variable {F : Interpretation ℝ} {n : Nat}

theorem CompiledList.values_ofRows {rows : List (List (Expr (Exact F.arithmetic)))} {k : Nat}
    {c : CompiledList (Exact F.arithmetic)} (built : ofRows n rows = .ok c)
    (near : ∀ row ∈ rows, ∀ e ∈ row, e.IsNear) (uniform : ∀ row ∈ rows, row.length = k)
    (x : Fin n → ℝ) :
    (c.values (coordinates x)).size = rows.length * k ∧
      ∀ i j row e v, rows[i]? = some row → row[j]? = some e → e.ValueAt x v →
        (c.values (coordinates x))[i * k + j]? = some (.of v) := by
  have each : ∀ e ∈ rows.flatten, e.IsNear := by
    intro e member
    obtain ⟨row, listed, inside⟩ := List.mem_flatten.1 member
    exact near row listed e inside
  rw [CompiledList.values_ofExprs built each (Nat.le_of_eq (size_coordinates x).symm)]
  refine ⟨?_, ?_⟩
  · rw [List.size_toArray, List.length_map, length_flatten_of_length uniform]
  · intro i j row e v row_i entry value
    have inside : j < k := by
      rw [← uniform row (List.mem_of_getElem? row_i)]
      exact (List.getElem?_eq_some_iff.1 entry).1
    have place := getElem?_flatten_of_length uniform i inside
    rw [row_i, Option.bind_some, entry] at place
    have value : e.evaluate (pointOf (coordinates x)) = .of v := value
    rw [List.getElem?_toArray, List.getElem?_map, place, Option.map_some, value]

/-! A sum of weighted arrays, entry by entry. -/

variable {C κ : Type} (entries : C → Array (Exact F.arithmetic)) (part : κ → C) {w : κ → ℝ}
variable {start : Array (Exact F.arithmetic)}

theorem getElem?_foldl_weighted {h : κ → ℝ} {i : Nat} (ks : List κ)
    (each : ∀ k, (entries (part k))[i]? = some (.of (h k))) {a : ℝ}
    (begins : start[i]? = some (.of a)) :
    ((ks.map fun k => (part k, (.of (w k) : Exact F.arithmetic))).foldl (fun sum item =>
      Array.zipWith (fun acc h => acc + item.2 * h) sum (entries item.1)) start)[i]? =
      some (.of (a + (ks.map fun k => w k * h k).sum)) := by
  induction ks generalizing start a with
  | nil => rw [List.map_nil, List.map_nil, List.sum_nil, add_zero]; exact begins
  | cons k rest ih =>
    rw [List.map_cons, List.foldl_cons, List.map_cons, List.sum_cons, ← add_assoc]
    apply ih
    rw [Array.getElem?_zipWith, begins, each]
    rfl

theorem size_foldl_weighted {m : Nat} (ks : List κ) (each : ∀ k, (entries (part k)).size = m)
    (begins : start.size = m) :
    ((ks.map fun k => (part k, (.of (w k) : Exact F.arithmetic))).foldl (fun sum item =>
      Array.zipWith (fun acc h => acc + item.2 * h) sum (entries item.1)) start).size = m := by
  induction ks generalizing start with
  | nil => exact begins
  | cons k rest ih =>
    refine ih ?_
    rw [Array.size_zipWith, begins, each, min_self]

end Values

/-! ### Residuals that are read -/

variable {F : Interpretation ℝ} {names : Names (Exact F.arithmetic)} {residuals : List String}
variable {s : Coupled (Exact F.arithmetic)}

theorem Expr.plain_of_ofResidual {text : String} {e : Expr (Exact F.arithmetic)}
    (rational : ∀ raw, Expr.ofText names text = .ok raw → raw.IsRational)
    (made : Expr.ofResidual names text = .ok e) : e.Plain names.At (· ≠ 0) := by
  unfold ofResidual at made
  cases written : Expr.ofText names text with
  | error f =>
    rw [written] at made
    cases made
  | ok raw =>
    rw [written] at made
    cases made
    exact plain_simplify raw (plain_of_allVariables (rational raw written)
      (allVariables_ofText written))

/-- At a point, the matrices of a problem hold the first and second partial derivatives of
functions. -/
structure Problem.Derives (p : Problem (Exact F.arithmetic)) {m n : Nat}
    (f : Fin m → (Fin n → ℝ) → ℝ) (x : Fin n → ℝ) : Prop where
  equations_eq : p.equations = m
  unknowns_eq : p.unknowns = n
  jacobian_size : (p.jacobian (coordinates x)).size = m * n
  jacobian (k : Fin m) (j : Fin n) :
    (p.jacobian (coordinates x))[k * n + j]? = some (.of (partialDerivative j (f k) x))
  hessian : ∃ hessian, p.hessian? = some hessian ∧ ∀ w : Fin m → ℝ,
    let sum := hessian (coordinates x) (coordinates w)
    sum.size = n * n ∧ ∀ i j : Fin n,
      sum[i * n + j]? =
        some (.of (∑ k, w k * partialDerivative j (partialDerivative i (f k)) x)) ∧
      sum[i * n + j]? = sum[j * n + i]?

namespace Coupled

variable {es : List (Expr (Exact F.arithmetic))} {x : Fin names.unknowns.length → ℝ}

theorem IsMadeOf.isNear (made : s.IsMadeOf residuals names.unknowns es) (some : es ≠ [])
    {e : Expr (Exact F.arithmetic)} {exponent : Int → Prop} (plain : e.Plain names.At exponent) :
    e.IsNear :=
  plain.allVariables.isNear (made.length_unknowns_le some)

theorem jacobian_entries (made : s.IsMadeOf residuals names.unknowns es)
    (distinct : names.unknowns.Nodup) (plain : ∀ e ∈ es, e.Plain names.At (· ≠ 0))
    (fit : ∀ e ∈ es, e.SlopesFit names.unknowns) (defined : ∀ e ∈ es, ∃ v, e.ValueAt x v) :
    (s.jacobian.values (coordinates x)).size = es.length * names.unknowns.length ∧
      ∀ (k : Fin es.length) (j : Fin names.unknowns.length),
        (s.jacobian.values (coordinates x))[k * names.unknowns.length + j]? =
          some (.of (partialDerivative j es[k].function x)) := by
  have near : ∀ row ∈ es.map fun e => names.unknowns.map e.slope, ∀ e ∈ row, e.IsNear := by
    intro row member d inside
    obtain ⟨e, listed, rfl⟩ := List.mem_map.1 member
    obtain ⟨name, -, rfl⟩ := List.mem_map.1 inside
    exact made.isNear (List.ne_nil_of_mem listed) (Expr.plain_slope name (plain e listed).any)
  obtain ⟨size_eq, entries⟩ :=
    CompiledList.values_ofRows made.jacobian_eq near (fun _ => length_of_mem_map_map) x
  rw [List.length_map] at size_eq
  refine ⟨size_eq, fun k j => ?_⟩
  have listed : es[k] ∈ es := List.getElem_mem k.2
  obtain ⟨v, value⟩ := defined _ listed
  have name : names.At names.unknowns[j] j := List.getElem?_eq_getElem j.2
  refine entries k j (names.unknowns.map es[k].slope) (es[k].slope names.unknowns[j]) _ ?_ ?_
    (Expr.valueAt_slope distinct name (plain _ listed) (fit _ listed).predecessors
      ((fit _ listed).derivative _ (List.getElem_mem j.2)) value)
  · rw [List.getElem?_map, List.getElem?_eq_getElem k.2]
    rfl
  · rw [List.getElem?_map, List.getElem?_eq_getElem j.2]
    rfl

theorem hessian_entries {e : Expr (Exact F.arithmetic)} {c : CompiledList (Exact F.arithmetic)}
    (built : hessianOf names.unknowns e = .ok c) (few : names.unknowns.length ≤ slotLimit)
    (distinct : names.unknowns.Nodup) (plain : e.Plain names.At (· ≠ 0))
    (fit : e.SlopesFit names.unknowns) {v : ℝ} (value : e.ValueAt x v) :
    let n := names.unknowns.length
    (c.values (coordinates x)).size = n * n ∧
      ∀ i j : Fin n, (c.values (coordinates x))[i * n + j]? =
        some (.of (partialDerivative j (partialDerivative i e.function) x)) := by
  intro n
  have near : ∀ row ∈ names.unknowns.map fun s => names.unknowns.map (e.slope s).slope,
      ∀ d ∈ row, d.IsNear := by
    intro row member d inside
    obtain ⟨s, -, rfl⟩ := List.mem_map.1 member
    obtain ⟨t, -, rfl⟩ := List.mem_map.1 inside
    exact (Expr.plain_slope t (Expr.plain_slope s plain.any).any).allVariables.isNear few
  obtain ⟨size_eq, entries⟩ :=
    CompiledList.values_ofRows built near (fun _ => length_of_mem_map_map) x
  rw [List.length_map] at size_eq
  have name (j : Fin n) : names.At names.unknowns[j] j := List.getElem?_eq_getElem j.2
  refine ⟨size_eq, fun i j => entries i j (names.unknowns.map (e.slope names.unknowns[i]).slope)
    ((e.slope names.unknowns[i]).slope names.unknowns[j]) _ ?_ ?_
    (Expr.valueAt_second distinct (name i) (name j) plain fit value)⟩
  · rw [List.getElem?_map, List.getElem?_eq_getElem i.2]
    rfl
  · rw [List.getElem?_map, List.getElem?_eq_getElem j.2]
    rfl

theorem weightedHessian_entries (made : s.IsMadeOf residuals names.unknowns es)
    {hessians : List (CompiledList (Exact F.arithmetic))}
    (built : es.mapM (hessianOf names.unknowns) = .ok hessians) (distinct : names.unknowns.Nodup)
    (plain : ∀ e ∈ es, e.Plain names.At (· ≠ 0)) (fit : ∀ e ∈ es, e.SlopesFit names.unknowns)
    (defined : ∀ e ∈ es, ∃ v, e.ValueAt x v) {m : Nat} (count : m = es.length) (w : Fin m → ℝ) :
    let n := names.unknowns.length
    let f (k : Fin m) : (Fin n → ℝ) → ℝ := es[k.cast count].function
    let sum := s.weightedHessian hessians (coordinates x) (coordinates w)
    sum.size = n * n ∧ ∀ i j : Fin n, sum[i * n + j]? =
      some (.of (∑ k, w k * partialDerivative j (partialDerivative i (f k)) x)) := by
  subst count
  intro n f sum
  have pairs := forall₂_of_mapM built
  have lengths : hessians.length = es.length := pairs.length_eq.symm
  let part (k : Fin es.length) : CompiledList (Exact F.arithmetic) := hessians[k.cast lengths.symm]
  have parts (k : Fin es.length) := hessian_entries (x := x) (c := part k)
    (pairs.get k.2 (k.cast lengths.symm).2)
    (made.length_unknowns_le (List.ne_nil_of_mem (List.getElem_mem k.2))) distinct
    (plain _ (List.getElem_mem k.2)) (fit _ (List.getElem_mem k.2))
    (defined _ (List.getElem_mem k.2)).choose_spec
  have paired : hessians.zip (coordinates w : Array (Exact F.arithmetic)).toList =
      (List.finRange es.length).map fun k => (part k, .of (w k)) := by
    have listed : hessians = (List.finRange es.length).map part := by
      refine List.ext_getElem (by simp [lengths]) fun i _ _ => ?_
      simp [part]
    rw [coordinates, Array.toList_ofFn, List.ofFn_eq_map, listed, List.zip_map']
  let entries (c : CompiledList (Exact F.arithmetic)) := c.values (coordinates x)
  have sum_eq : sum = ((List.finRange es.length).map fun k =>
      (part k, (.of (w k) : Exact F.arithmetic))).foldl (fun sum item =>
        Array.zipWith (fun acc h => acc + item.2 * h) sum (entries item.1))
      (.replicate (n * n) Scalar.zero) := by
    rw [← paired]
    change weightedHessian s _ _ _ = _
    rw [weightedHessian, made.unknowns_eq]
  refine ⟨?_, fun i j => ?_⟩
  · rw [sum_eq]
    exact size_foldl_weighted entries part _ (fun k => (parts k).1) Array.size_replicate
  · have inside : i * n + j < n * n := by
      have below := Nat.mul_le_mul_right n (Nat.succ_le_of_lt i.2)
      rw [Nat.succ_mul] at below
      omega
    have start : (Array.replicate (n * n) (Scalar.zero : Exact F.arithmetic))[i * n + j]? =
        some (.of 0) := by
      rw [Array.getElem?_replicate, if_pos inside, Exact.zero_eq]
    rw [sum_eq, getElem?_foldl_weighted entries part _ (fun k => (parts k).2 i j) start, zero_add,
      Fin.sum_univ_def]
    rfl

theorem exists_withHessians (few : s.unknowns.length * s.unknowns.length ≤ slotLimit) :
    ∃ t, s.withHessians = .ok t := by
  have size (e : Expr (Exact F.arithmetic)) :
      (s.unknowns.map fun v => s.unknowns.map (e.slope v).slope).flatten.length =
        s.unknowns.length * s.unknowns.length := by
    rw [length_flatten_of_length fun _ => length_of_mem_map_map, List.length_map]
  have built := mapM_eq_ok_of_forall (f := hessianOf s.unknowns) fun e (_ : e ∈ s.exprs) =>
    CompiledList.ofExprs_eq_ok.2 ⟨(size e).trans_le few, rfl⟩
  exact ⟨_, withHessians_eq_ok.2 ⟨_, built, rfl⟩⟩

/-- For residuals that are read as rational expressions in distinct unknowns, at every point where
their simplified expressions have values, the Jacobian holds the partial derivatives of the
residuals, row by row, and the weighted Hessian the sums of their second partial derivatives with
any weights, a symmetric matrix. Second derivatives are refused only if their matrix has more entries
than distances of 32 bits. -/
theorem derivatives_are_partial (distinct : names.unknowns.Nodup)
    (read : ofTexts names residuals = .ok s)
    (rational : ∀ text ∈ residuals, ∀ e, Expr.ofText names text = .ok e → e.IsRational)
    (fit : ∀ e ∈ s.exprs, e.SlopesFit names.unknowns) (x : Fin names.unknowns.length → ℝ)
    (defined : ∀ e ∈ s.exprs, ∃ v, e.ValueAt x v) :
    (names.unknowns.length * names.unknowns.length ≤ slotLimit → ∃ t, s.withHessians = .ok t) ∧
    ∃ f : Fin residuals.length → (Fin names.unknowns.length → ℝ) → ℝ,
      (∀ k, ∃ e, Expr.ofResidual names residuals[k] = .ok e ∧ ∀ᶠ y in 𝓝 x, e.ValueAt y (f k y)) ∧
      (∀ k, AnalyticAt ℝ (f k) x) ∧ ∀ t, s.withHessians = .ok t → t.problem.Derives f x := by
  obtain ⟨es, texts, made⟩ := isMadeOf_of_ofTexts read
  rw [lastOccurrences_of_nodup _ distinct] at made
  have listed := forall₂_of_mapM texts
  have count : residuals.length = es.length := listed.length_eq
  rw [made.exprs_eq] at fit defined
  have plain : ∀ e ∈ es, e.Plain names.At (· ≠ 0) := by
    intro e member
    obtain ⟨text, residual, own⟩ := exists_text_of_mapM texts member
    exact Expr.plain_of_ofResidual (rational text residual) own
  let f (k : Fin residuals.length) : (Fin names.unknowns.length → ℝ) → ℝ :=
    es[k.cast count].function
  have analytic (k : Fin residuals.length) : es[k.cast count].Analytic x := by
    have member : es[k.cast count] ∈ es := List.getElem_mem _
    obtain ⟨v, value⟩ := defined _ member
    exact .of_value (plain _ member) value
  refine ⟨fun few => exists_withHessians (by rwa [made.unknowns_eq]), f,
    fun k => ⟨_, listed.get k.2 (k.cast count).2, (analytic k).2⟩, fun k => (analytic k).1, ?_⟩
  intro t added
  obtain ⟨hessians, built, rfl⟩ := withHessians_eq_ok.1 added
  rw [made.exprs_eq, made.unknowns_eq] at built
  obtain ⟨jacobian_size, jacobian⟩ := jacobian_entries made distinct plain fit defined
  rw [← count] at jacobian_size
  refine ⟨congrArg List.length made.residuals_eq, congrArg List.length made.unknowns_eq,
    jacobian_size, fun k => jacobian (k.cast count), _, rfl, fun w => ?_⟩
  obtain ⟨hessian_size, hessian⟩ :=
    weightedHessian_entries made built distinct plain fit defined count w
  refine ⟨hessian_size, fun i j => ⟨hessian i j, ?_⟩⟩
  have symmetric (k : Fin residuals.length) := partialDerivative_comm (analytic k).1 i j
  refine (hessian i j).trans (Eq.trans ?_ (hessian j i).symm)
  simp only [symmetric]

/-! The unknowns `x` and `y` in the residuals `x * y` and `x`. -/

section Example

open Formula Scalar Simultaneous.Expr

variable {s : String} {i : Nat}

noncomputable def product : Expr (Exact Interpretation.real.arithmetic) :=
  mul (var "x" 0) (var "y" 1)

theorem beq_of (a b : ℝ) :
    ((.of a : Exact Interpretation.real.arithmetic) == .of b) = decide (a = b) := rfl

theorem mulRule_var_zero :
    mulRule (var s i : Expr (Exact Interpretation.real.arithmetic)) (const zero) =
      .done (const zero) := by
  simp [mulRule, isConst, Exact.zero_eq, beq_of, Exact.ofInt_eq]

theorem mulRule_var_one :
    mulRule (var s i : Expr (Exact Interpretation.real.arithmetic)) (const one) =
      .done (var s i) := by
  simp [mulRule, isConst, Exact.one_eq, beq_of, Exact.ofInt_eq]

theorem addRule_zero_var :
    addRule (const zero : Expr (Exact Interpretation.real.arithmetic)) (var s i) =
      .done (var s i) := by
  simp [addRule, isConst, Exact.zero_eq, beq_of, Exact.ofInt_eq]

theorem addRule_var_zero :
    addRule (var s i : Expr (Exact Interpretation.real.arithmetic)) (const zero) =
      .done (var s i) := by
  simp [addRule, isConst, Exact.zero_eq, beq_of, Exact.ofInt_eq]

theorem exponentsFit_var_mul {c : Exact Interpretation.real.arithmetic}
    (unit : c = zero ∨ c = one) : ExponentsFit (mul (var s i) (const c)) := by
  refine .mul (.var s i) (.const c) ?_ fun e rule => ?_
  · rw [simplify_var, simplify_const]
    trivial
  · rw [simplify_var, simplify_const] at rule
    rcases unit with rfl | rfl
    · rw [mulRule_var_zero] at rule
      cases rule
    · rw [mulRule_var_one] at rule
      cases rule

theorem derivative_product_x : product.derivative "x" =
    add (mul (var "x" 0) (const zero)) (mul (var "y" 1) (const one)) := rfl

theorem derivative_product_y : product.derivative "y" =
    add (mul (var "x" 0) (const one)) (mul (var "y" 1) (const zero)) := rfl

theorem simplify_var_mul_zero : (mul (var s i) (const zero) :
    Expr (Exact Interpretation.real.arithmetic)).simplify = const zero := by
  rw [simplify_mul, simplify_var, simplify_const, mulRule_var_zero, Reduct.result]

theorem simplify_var_mul_one : (mul (var s i) (const one) :
    Expr (Exact Interpretation.real.arithmetic)).simplify = var s i := by
  rw [simplify_mul, simplify_var, simplify_const, mulRule_var_one, Reduct.result]

theorem slope_product_x : product.slope "x" = var "y" 1 := by
  rw [Expr.slope, derivative_product_x, simplify_add, simplify_var_mul_zero, simplify_var_mul_one,
    addRule_zero_var, Reduct.result]

theorem slope_product_y : product.slope "y" = var "x" 0 := by
  rw [Expr.slope, derivative_product_y, simplify_add, simplify_var_mul_zero, simplify_var_mul_one,
    addRule_var_zero, Reduct.result]

theorem slopesFit_var : SlopesFit ["x", "y"]
    (var s i : Expr (Exact Interpretation.real.arithmetic)) where
  predecessors := trivial
  derivative _ _ := .const _
  slope_predecessors _ _ := by
    rw [Expr.slope, derivative, simplify_const]
    trivial
  second _ _ _ _ := by
    rw [Expr.slope, derivative, simplify_const]
    exact .const _

theorem slopesFit_product : SlopesFit ["x", "y"] product where
  predecessors := ⟨trivial, trivial⟩
  derivative s listed := by
    rcases List.mem_pair.1 listed with rfl | rfl
    · refine .add (exponentsFit_var_mul (.inl rfl)) (exponentsFit_var_mul (.inr rfl))
        fun e rule => ?_
      change addRule (simplify (mul _ (const zero))) (simplify (mul _ (const one))) = _ at rule
      rw [simplify_var_mul_zero, simplify_var_mul_one, addRule_zero_var] at rule
      cases rule
    · refine .add (exponentsFit_var_mul (.inr rfl)) (exponentsFit_var_mul (.inl rfl))
        fun e rule => ?_
      change addRule (simplify (mul _ (const one))) (simplify (mul _ (const zero))) = _ at rule
      rw [simplify_var_mul_zero, simplify_var_mul_one, addRule_var_zero] at rule
      cases rule
  slope_predecessors s listed := by
    rcases List.mem_pair.1 listed with rfl | rfl
    · rw [slope_product_x]
      trivial
    · rw [slope_product_y]
      trivial
  second s listed t _ := by
    rcases List.mem_pair.1 listed with rfl | rfl
    · rw [slope_product_x]
      exact .const _
    · rw [slope_product_y]
      exact .const _

theorem spelling_letter {c : Char} (letter : c.isAlpha)
    (no_literal : Text.lower [c] ∉ literalWords) :
    Spelling (.identifier (String.ofList [c])) [c] :=
  .name letter (by simpa using Text.isWordChar_of_isAlpha letter)
    (literalToken?_of_letter letter no_literal)

theorem read_name : Formula.read "x" = .ok (.mk .root [(Reading.name "x").node]) := by
  have x : Spelling (.identifier "x") ['x'] := spelling_letter (by decide) (by decide)
  exact read_of_reads (.single x)
    (.lift .product (.lift .signed (.lift .power (.lift .operand (.name "x")))))

theorem read_product : Formula.read "x*y" =
    .ok (.mk .root [(Reading.binary .mul (.name "x") (.name "y")).node]) := by
  have x : Spelling (.identifier "x") ['x'] := spelling_letter (by decide) (by decide)
  have y : Spelling (.identifier "y") ['y'] := spelling_letter (by decide) (by decide)
  have spelled : Spelled ['x', '*', 'y'] [.identifier "x", .star, .identifier "y"] :=
    .cons x (.cons (.mark rfl (by simp)) (.single y))
  have reads : Reads .product [.identifier "x", .star, .identifier "y"]
      (.binary .mul (.name "x") (.name "y")) :=
    .binary .mul (.lift .signed (.lift .power (.lift .operand (.name "x"))))
      (.lift .power (.lift .operand (.name "y")))
  exact read_of_reads spelled (.lift .product reads)

theorem ofText_name : Expr.ofText unknownXY "x" = .ok (.var "x" 0) :=
  (ofText_eq_ok read_name).2 ((Expr.ofNode_read "x").trans ofName_x)

theorem ofText_product : Expr.ofText unknownXY "x*y" = .ok product :=
  (ofText_eq_ok read_product).2 ((Expr.ofNode_binary_eq_ok .mul).2
    ⟨_, _, (Expr.ofNode_read "x").trans ofName_x, (Expr.ofNode_read "y").trans ofName_y, rfl⟩)

theorem simplify_product : product.simplify = product := by
  rw [product, simplify_mul, simplify_var, simplify_var]
  simp [mulRule, productRule, isConst, same, Reduct.result]

theorem ofTexts_product : ∃ s, ofTexts unknownXY ["x*y", "x"] = .ok s ∧
    s.exprs = [product, .var "x" 0] ∧ s.unknowns = ["x", "y"] := by
  have texts : ["x*y", "x"].mapM (Expr.ofResidual unknownXY) = .ok [product, .var "x" 0] := by
    rw [List.mapM_cons, List.mapM_cons, Expr.ofResidual, Expr.ofResidual, ofText_product,
      ofText_name]
    simp only [Except.map, simplify_product, simplify_var]
    rfl
  have built : ∃ s, ofExprs ["x*y", "x"] ["x", "y"] [product, .var "x" 0] = .ok s := ⟨_, rfl⟩
  obtain ⟨s, built⟩ := built
  have made := isMadeOf_of_ofExprs built
  exact ⟨s, bind_eq_ok.2 ⟨_, texts, mapError_eq_ok.2 built⟩, made.exprs_eq, made.unknowns_eq⟩

theorem product_rational : ∀ text ∈ ["x*y", "x"], ∀ e, Expr.ofText unknownXY text = .ok e →
    e.IsRational := by
  intro text listed e read
  rcases List.mem_pair.1 listed with rfl | rfl
  · cases ofText_product.symm.trans read
    exact ⟨trivial, trivial⟩
  · cases ofText_name.symm.trans read
    trivial

theorem product_fit : ∀ e ∈ [product, .var "x" 0], e.SlopesFit ["x", "y"] := by
  intro e listed
  rcases List.mem_pair.1 listed with rfl | rfl
  · exact slopesFit_product
  · exact slopesFit_var

noncomputable def oneTwo : Fin 2 → ℝ := fun i => i + 1

theorem product_defined : ∀ e ∈ [product, .var "x" 0], ∃ v, e.ValueAt oneTwo v := by
  intro e listed
  rcases List.mem_pair.1 listed with rfl | rfl
  · exact ⟨_, Expr.hasValue_mul.2 ⟨_, _, Expr.valueAt_var 0, Expr.valueAt_var 1, rfl⟩⟩
  · exact ⟨_, Expr.valueAt_var 0⟩

theorem product_derivatives : unknownXY.unknowns.Nodup ∧ ∃ s t,
    ofTexts unknownXY ["x*y", "x"] = .ok s ∧
    (∀ text ∈ ["x*y", "x"], ∀ e, Expr.ofText unknownXY text = .ok e → e.IsRational) ∧
    (∀ e ∈ s.exprs, e.SlopesFit ["x", "y"]) ∧ (∀ e ∈ s.exprs, ∃ v, e.ValueAt oneTwo v) ∧
    s.withHessians = .ok t ∧
    ∃ f : Fin 2 → (Fin 2 → ℝ) → ℝ,
      (∀ k, ∃ e, Expr.ofResidual unknownXY ["x*y", "x"][k] = .ok e ∧
        ∀ᶠ y in 𝓝 oneTwo, e.ValueAt y (f k y)) ∧
      (∀ k, AnalyticAt ℝ (f k) oneTwo) ∧ t.problem.Derives f oneTwo := by
  have distinct : unknownXY.unknowns.Nodup := by decide
  obtain ⟨s, read, exprs, -⟩ := ofTexts_product
  have fit : ∀ e ∈ s.exprs, e.SlopesFit ["x", "y"] := exprs ▸ product_fit
  have defined : ∀ e ∈ s.exprs, ∃ v, e.ValueAt oneTwo v := exprs ▸ product_defined
  obtain ⟨added, f, values, analytic, derives⟩ :=
    derivatives_are_partial distinct read product_rational fit oneTwo defined
  obtain ⟨t, built⟩ := added (by decide)
  exact ⟨distinct, s, t, read, product_rational, fit, defined, built, f, values, analytic,
    derives t built⟩

end Example

end Coupled

end Simultaneous
