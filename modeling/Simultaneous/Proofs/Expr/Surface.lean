import Simultaneous.Proofs.Expr.Fault

/-!
Faults outlast simplification. Of a clear expression every rule keeps the faults, so what has no
value before simplification has none after it.
-/

namespace Simultaneous

open Scalar Simultaneous.Expr

variable {K : Type} [Field K] [LinearOrder K] {F : Interpretation K}
variable {point : Nat → Exact F.arithmetic} {l r e b t : Expr (Exact F.arithmetic)}

/-! ### Simplified operands -/

namespace Expr

theorem faults_ne_of_undefined (undefined : e.evaluate point = .undefined) :
    e.faults point ≠ ∅ := by
  intro fine
  obtain ⟨v, value⟩ := faults_eq_empty_iff.1 fine
  exact Exact.of_ne_undefined v (value.symm.trans undefined)

theorem evaluate_of_faults_ne (wrong : e.faults point ≠ ∅) : e.evaluate point = .undefined :=
  (e.evaluate point).eq_undefined_or_of.resolve_right fun value =>
    wrong (faults_eq_empty_iff.2 value)

theorem Tight.faults_ne (tight : e.Tight point) (other : ∀ c, e ≠ const c) :
    e.faults point ≠ ∅ := by
  cases e with
  | const c => exact absurd rfl (other c)
  | var name i => exact tight
  | add l r | sub l r | mul l r | div l r | powExpr l r => exact tight.2.2
  | abs e | neg e => exact tight.2
  | pow b n =>
    rw [faults, if_neg tight.2.2]
    exact fun fine => tight.2.1 (Set.union_empty_iff.1 fine).1
  | powConst b p =>
    rw [faults, Set.union_assoc]
    exact fun fine => tight.2 (Set.union_empty_iff.1 fine).1
  | call f e => exact tight.2.1

/-- Of a simplified expression only a constant has a value. -/
theorem Tight.exists_const (tight : e.Tight point) (fine : e.faults point = ∅) :
    ∃ a, e = const (.of a) := by
  by_contra other
  refine tight.faults_ne (fun c same => ?_) fine
  obtain ⟨a, rfl⟩ := (faults_const_eq_empty_iff point c).1 (same ▸ fine)
  exact other ⟨a, same⟩

theorem Tight.union_ne (left : l.Tight point) (right : r.Tight point)
    (not_both : NotBothConst l r) : l.faults point ∪ r.faults point ≠ ∅ := by
  intro fine
  obtain ⟨left_fine, right_fine⟩ := Set.union_empty_iff.1 fine
  obtain ⟨a, l_eq⟩ := left.exists_const left_fine
  obtain ⟨c, r_eq⟩ := right.exists_const right_fine
  exact not_both _ _ l_eq r_eq

/-- Simplified operands that may not cancel are not the same, unless they are constants. -/
theorem Apart.not_same (apart : Apart point l r) (left : l.Tight point)
    (not_both : NotBothConst l r) (equal : same l r = true) : False := by
  obtain rfl := eq_of_same equal
  obtain ⟨a, l_eq⟩ := left.exists_const (apart rfl)
  exact not_both _ _ l_eq l_eq

theorem Apart.symm (apart : Apart point l r) : Apart point r l :=
  fun same => same.trans (apart same.symm)

theorem isConst_iff {n : Int} : isConst n e = true ↔ e = const (.of (n : K)) := by
  refine ⟨eq_const_of_isConst, ?_⟩
  rintro rfl
  exact Exact.beq_eq_true.2 ⟨_, rfl, Exact.ofInt_eq n⟩

end Expr

structure Reduct.Keeps (point : Nat → Exact F.arithmetic) (w : Reduct (Exact F.arithmetic))
    (e : Expr (Exact F.arithmetic)) : Prop where
  faults_eq : w.expr.faults point = e.faults point
  clear : w.expr.Clear point
  tight : ∀ t, w = .done t → t.Tight point

namespace Reduct.Keeps

theorem done (faults_eq : t.faults point = e.faults point) (clear : t.Clear point)
    (tight : t.Tight point) : (Reduct.done t).Keeps point e :=
  ⟨faults_eq, clear, fun _ same => Reduct.done.inj same ▸ tight⟩

theorem again (faults_eq : t.faults point = e.faults point) (clear : t.Clear point) :
    (Reduct.again t).Keeps point e :=
  ⟨faults_eq, clear, fun _ same => by cases same⟩

/-- Where nothing else can go wrong than what is computed all the same, the value says it all. -/
theorem fold {c : Exact F.arithmetic} (value : e.evaluate point = c)
    (only : e.faults point ⊆ {.folded}) : (Reduct.done (const c)).Keeps point e := by
  subst value
  refine done ?_ trivial trivial
  by_cases fine : e.faults point = ∅
  · rw [fine, faults_const_eq_empty_iff]
    exact faults_eq_empty_iff.1 fine
  · rw [evaluate_of_faults_ne fine, faults_const_undefined]
    exact ((Set.subset_singleton_iff_eq.1 only).resolve_left fine).symm

end Reduct.Keeps

/-! ### Rules -/

namespace Expr

theorem keeps_addRule (left : l.Tight point) (right : r.Tight point)
    (clear : (add l r).Clear point) : (addRule l r).Keeps point (add l r) := by
  obtain ⟨clear_l, clear_r, apart⟩ := clear
  have step := rewrites_addRule l r
  generalize addRule l r = w at step ⊢
  cases step with
  | @addFold a c =>
    exact .fold rfl (Set.union_subset (faults_const_subset point a) (faults_const_subset point c))
  | addZero zero =>
    obtain rfl := eq_const_of_isConst zero
    exact .done (by rw [faults_add, faults_const_of, Set.union_empty]) clear_l left
  | zeroAdd zero =>
    obtain rfl := eq_const_of_isConst zero
    exact .done (by rw [faults_add, faults_const_of, Set.empty_union]) clear_r right
  | addNeg => exact .again rfl ⟨clear_l, clear_r, apart⟩
  | addKeep not_both =>
    exact .done rfl ⟨clear_l, clear_r, apart⟩ ⟨left, right, left.union_ne right not_both⟩

theorem keeps_subRule (left : l.Tight point) (right : r.Tight point)
    (clear : (sub l r).Clear point) : (subRule l r).Keeps point (sub l r) := by
  obtain ⟨clear_l, clear_r, apart⟩ := clear
  have step := rewrites_subRule l r
  generalize subRule l r = w at step ⊢
  cases step with
  | @subFold a c =>
    exact .fold rfl (Set.union_subset (faults_const_subset point a) (faults_const_subset point c))
  | subZero zero =>
    obtain rfl := eq_const_of_isConst zero
    exact .done (by rw [faults_sub, faults_const_of, Set.union_empty]) clear_l left
  | zeroSub not_both zero =>
    have wrong := left.union_ne right not_both
    obtain rfl := eq_const_of_isConst zero
    rw [faults_const_of, Set.empty_union] at wrong
    exact .done (by rw [faults_neg, faults_sub, faults_const_of, Set.empty_union]) clear_r
      ⟨right, wrong⟩
  | subSame not_both equal => exact (apart.not_same left not_both equal).elim
  | subKeep not_both =>
    exact .done rfl ⟨clear_l, clear_r, apart⟩ ⟨left, right, left.union_ne right not_both⟩

theorem keeps_absRule (tight : e.Tight point) (clear : e.Clear point) :
    (absRule e).Keeps point (abs e) := by
  have step := rewrites_absRule e
  generalize absRule e = w at step ⊢
  cases step with
  | @absFold a => exact .fold rfl (faults_const_subset point a)
  | absAbs | absNeg | absEven => exact .done rfl clear tight
  | absKeep not_const => exact .done rfl clear ⟨tight, tight.faults_ne not_const⟩

theorem faults_const_neg (c : Exact F.arithmetic) :
    faults point (const (-c)) = faults point (const c) := by
  obtain rfl | ⟨a, rfl⟩ := c.eq_undefined_or_of
  · rfl
  · exact (faults_const_of (-a)).trans (faults_const_of a).symm

theorem keeps_negated {c : Exact F.arithmetic} (clear : (mul (const c) e).Clear point) :
    (Reduct.again (mul (const (-c)) e)).Keeps point (neg (mul (const c) e)) := by
  obtain ⟨clear_c, clear_e, apart, zero_left, zero_right⟩ := clear
  refine .again ?_ ⟨trivial, clear_e, ?_, fun zero => zero_left ?_, fun zero => ?_⟩
  · rw [faults_mul, faults_const_neg]
    rfl
  · unfold Apart
    rw [faults_const_neg]
    exact apart
  · obtain ⟨a, rfl, negated⟩ := Exact.neg_eq_of.1 zero
    rw [neg_eq_zero.1 negated]
    rfl
  · rw [faults_const_neg]
    exact zero_right zero

theorem keeps_negRule (tight : e.Tight point) (clear : e.Clear point) :
    (negRule e).Keeps point (neg e) := by
  have step := rewrites_negRule e
  generalize negRule e = w at step ⊢
  cases step with
  | @negFold a => exact .fold rfl (faults_const_subset point a)
  | negNeg => exact .done rfl clear tight.1
  | negMul => exact keeps_negated clear
  | negKeep not_const => exact .done rfl clear ⟨tight, tight.faults_ne not_const⟩

theorem faults_const_mul (a c : Exact F.arithmetic) :
    faults point (const (a * c)) = faults point (const a) ∪ faults point (const c) := by
  have both := Set.union_subset (faults_const_subset point a) (faults_const_subset point c)
  exact (Reduct.Keeps.fold (e := mul (const a) (const c)) rfl both).faults_eq

theorem keeps_constants {a c : Exact F.arithmetic} {x : Expr (Exact F.arithmetic)}
    (tight_x : x.Tight point) (wrong : (mul (const c) x).faults point ≠ ∅)
    (clear : (mul (const a) (mul (const c) x)).Clear point) :
    (Reduct.done (mul (const (a * c)) x)).Keeps point (mul (const a) (mul (const c) x)) := by
  obtain ⟨-, ⟨-, clear_x, inner_apart, inner_left, inner_right⟩, apart, zero_left, -⟩ := clear
  have same : (mul (const (a * c)) x).faults point =
      (mul (const a) (mul (const c) x)).faults point := by
    rw [faults_mul, faults_const_mul, Set.union_assoc]
    rfl
  refine .done same ⟨trivial, clear_x, fun cancels => ?_, fun zero => ?_, fun zero => ?_⟩
    ⟨trivial, tight_x, fun fine => wrong (Set.union_empty_iff.1 (same.symm.trans fine)).2⟩
  · by_cases fine : faults point (const c) = ∅
    · rw [faults_const_mul, fine, Set.union_empty] at cancels ⊢
      exact apart (by rw [faults_mul, fine, Set.empty_union, cancels])
    · -- both constants together go wrong as the one beside `x` does
      have one := (Set.subset_singleton_iff_eq.1 (faults_const_subset point c)).resolve_left fine
      have product : faults point (const (a * c)) = faults point (const c) := by
        rw [faults_const_mul, one]
        exact Set.union_eq_right.2 (faults_const_subset point a)
      exact absurd (inner_apart (product.symm.trans cancels)) fine
  · obtain ⟨a', c', rfl, rfl, product⟩ := Exact.mul_eq_of.1 zero
    rcases mul_eq_zero.1 product with rfl | rfl
    · exact (Set.union_empty_iff.1 (zero_left rfl)).2
    · exact inner_left rfl
  · refine absurd ?_ wrong
    rw [faults_mul, inner_right zero, Set.empty_union]
    exact faults_eq_empty_iff.2 ⟨0, zero⟩

theorem faults_pow {n : Int64} (wrong : b.faults point ≠ ∅) (nonzero : n ≠ 0) :
    (pow b n).faults point = b.faults point := by
  rw [faults, if_neg nonzero, evaluate_of_faults_ne wrong, Exact.faults_undefined, Set.union_empty]

theorem Tight.not_zero_mul (right : r.Tight point) (not_both : NotBothConst l r)
    (zero_left : HasValue point l 0 → r.faults point = ∅) (zero : isConst 0 l = true) : False := by
  obtain rfl := eq_const_of_isConst zero
  obtain ⟨a, r_eq⟩ := right.exists_const (zero_left (by rw [Int.cast_zero]; rfl))
  exact not_both _ _ rfl r_eq

theorem keeps_mulRule (left : l.Tight point) (right : r.Tight point)
    (clear : (mul l r).Clear point) : (mulRule l r).Keeps point (mul l r) := by
  have whole := clear
  obtain ⟨clear_l, clear_r, apart, zero_left, zero_right⟩ := clear
  have of_left {n : K} (constant : r = const (.of n)) :
      l.faults point = (mul l r).faults point := by
    rw [faults_mul, constant, faults_const_of, Set.union_empty]
  have of_right {n : K} (constant : l = const (.of n)) :
      r.faults point = (mul l r).faults point := by
    rw [faults_mul, constant, faults_const_of, Set.empty_union]
  have step := rewrites_mulRule l r
  generalize mulRule l r = w at step ⊢
  cases step with
  | @mulFold a c =>
    exact .fold rfl (Set.union_subset (faults_const_subset point a) (faults_const_subset point c))
  | mulZero not_both zero => exact (left.not_zero_mul not_both.symm zero_right zero).elim
  | zeroMul not_both zero => exact (right.not_zero_mul not_both zero_left zero).elim
  | mulOne one => exact .done (of_left (eq_const_of_isConst one)) clear_l left
  | oneMul one => exact .done (of_right (eq_const_of_isConst one)) clear_r right
  | mulMinusOne minus => exact .again (of_left (eq_const_of_isConst minus)) clear_l
  | minusOneMul minus => exact .again (of_right (eq_const_of_isConst minus)) clear_r
  | mulConstants => exact keeps_constants right.2.1 right.2.2 whole
  | mulPowers equal =>
    -- equal bases would be what is wrong with both factors
    obtain rfl := eq_of_same equal
    have both := (faults_pow left.2.1 left.2.2).trans (faults_pow right.2.1 right.2.2).symm
    exact absurd (apart both) (left.faults_ne (by simp))
  | mulConst not_both =>
    have wrong := right.union_ne left not_both.symm
    exact .done (Set.union_comm _ _) ⟨clear_r, clear_l, apart.symm, zero_right, zero_left⟩
      ⟨right, left, wrong⟩
  | mulSame not_both equal => exact (apart.not_same left not_both equal).elim
  | mulKeep not_both => exact .done rfl whole ⟨left, right, left.union_ne right not_both⟩

theorem faults_div_const {n : K} (nonzero : n ≠ 0) :
    (div l (const (.of n))).faults point = l.faults point := by
  have regular : (l.evaluate point).faultsOfTwo (.of n : Exact F.arithmetic) F.arithmetic.div
      (fun a _ => .quotient a) = ∅ := by
    rw [Set.eq_empty_iff_forall_notMem]
    rintro φ ⟨a, c, -, same, wrong, -⟩
    rw [← Exact.of_inj.1 same, F.div_eq_some.2 ⟨nonzero, rfl⟩] at wrong
    cases wrong
  change l.faults point ∪ faults point (const (.of n)) ∪ _ = _
  rw [faults_const_of, Set.union_empty]
  exact (congrArg _ regular).trans (Set.union_empty _)

theorem Tight.div_ne (left : l.Tight point) (right : r.Tight point)
    (no_quotient : NoQuotient l r) : (div l r).faults point ≠ ∅ := by
  intro fine
  obtain ⟨v, quotient⟩ := faults_eq_empty_iff.1 fine
  obtain ⟨a, c, numerator, denominator, quotient⟩ := hasValue_div.1 quotient
  obtain ⟨d, l_eq⟩ := left.exists_const (faults_eq_empty_iff.2 ⟨a, numerator⟩)
  obtain ⟨c', r_eq⟩ := right.exists_const (faults_eq_empty_iff.2 ⟨c, denominator⟩)
  obtain ⟨z, same, zero⟩ := Exact.beq_eq_true.1 (no_quotient _ _ l_eq r_eq)
  rw [r_eq] at denominator
  obtain rfl := Exact.of_inj.1 (same.symm.trans denominator)
  exact (F.div_eq_some.1 quotient).1 (Exact.of_inj.1 (zero.symm.trans Exact.zero_eq))

theorem faults_div_fold {a c : Exact F.arithmetic} (nonzero : (c == Scalar.zero) = false) :
    faults point (div (const a) (const c)) ⊆ {.folded} := by
  refine Set.union_subset (Set.union_subset (faults_const_subset point a)
    (faults_const_subset point c)) ?_
  rintro φ ⟨x, y, -, same, wrong, -⟩
  have regular : y ≠ 0 := by
    rintro rfl
    have zero := Exact.beq_eq_true.2 ⟨0, same, Exact.zero_eq⟩
    exact Bool.false_ne_true (nonzero.symm.trans zero)
  rw [F.div_eq_some.2 ⟨regular, rfl⟩] at wrong
  cases wrong

theorem keeps_divRule (left : l.Tight point) (right : r.Tight point)
    (clear : (div l r).Clear point) : (divRule l r).Keeps point (div l r) := by
  have whole := clear
  obtain ⟨clear_l, clear_r, apart, zero_left⟩ := clear
  have step := rewrites_divRule l r
  generalize divRule l r = w at step ⊢
  cases step with
  | divFold nonzero => exact .fold rfl (faults_div_fold nonzero)
  | zeroDiv no_quotient zero =>
    have wrong := left.div_ne right no_quotient
    obtain rfl := eq_const_of_isConst zero
    exact absurd (zero_left (by rw [Int.cast_zero]; rfl)) wrong
  | divOne one =>
    obtain rfl := eq_const_of_isConst one
    exact .done (faults_div_const (by simp)).symm clear_l left
  | divMinusOne no_quotient minus =>
    have wrong := left.div_ne right no_quotient
    obtain rfl := eq_const_of_isConst minus
    have regular : ((-1 : Int) : K) ≠ 0 := by simp
    rw [faults_div_const regular] at wrong
    exact .done (faults_neg.trans (faults_div_const regular).symm) clear_l ⟨left, wrong⟩
  | divSame no_quotient not_zero equal =>
    -- equal constants are zero, which has a rule of its own
    obtain rfl := eq_of_same equal
    obtain ⟨a, l_eq⟩ := left.exists_const (apart rfl)
    obtain ⟨z, same, zero⟩ := Exact.beq_eq_true.1 (no_quotient _ _ l_eq l_eq)
    refine absurd (isConst_iff.2 ?_) (Bool.eq_false_iff.1 not_zero)
    rw [l_eq, same, ← zero, Int.cast_zero]
    exact congrArg const Exact.zero_eq
  | divKeep no_quotient => exact .done rfl whole ⟨left, right, left.div_ne right no_quotient⟩

/-- The product of exponents of nested powers is zero only if one of them is. -/
theorem mul_ne_zero_of_fits {m n : Int64} (fits : IsExponent (m.toInt * n.toInt)) (m_ne : m ≠ 0)
    (n_ne : n ≠ 0) : m * n ≠ 0 := by
  intro zero
  have magnitude := toInt_mul fits
  rw [zero, Int64.toInt_zero, eq_comm, mul_eq_zero] at magnitude
  rcases magnitude with zero | zero
  · exact m_ne (Int64.toInt_inj.1 zero)
  · exact n_ne (Int64.toInt_inj.1 zero)

theorem keeps_powRule {n : Int64} (fits : ProductFits b n) (tight : b.Tight point)
    (clear : b.Clear point) : (powRule b n).Keeps point (pow b n) := by
  have step := rewrites_powRule b n
  generalize powRule b n = w at step ⊢
  cases step with
  | powZero =>
    refine .done ?_ trivial trivial
    rw [faults.eq_def _ (pow b 0)]
    simp only [if_true]
    exact (faults_const_eq_empty_iff point _).2 ⟨1, Exact.one_eq⟩
  | @powFold a _ nonzero =>
    refine .fold rfl ?_
    rw [faults, if_neg nonzero]
    exact Set.union_subset (faults_const_subset point a) (Exact.faults_subset _)
  | powOne not_const =>
    exact .done (faults_pow (tight.faults_ne not_const) (by decide)).symm clear tight
  | powPow nonzero other =>
    obtain ⟨tight_inner, wrong, m_nonzero⟩ := tight
    have single := faults_pow wrong m_nonzero
    have outer := faults_pow (n := n) (single ▸ wrong) nonzero
    have product := mul_ne_zero_of_fits (fits nonzero other) m_nonzero nonzero
    exact .again ((faults_pow wrong product).trans (outer.trans single).symm) clear
  | powKeep not_const nonzero =>
    exact .done rfl clear ⟨tight, tight.faults_ne not_const, nonzero⟩

theorem keeps_powConstRule {p : Exact F.arithmetic} (tight : b.Tight point)
    (clear : (powConst b p).Clear point) : (powConstRule b p).Keeps point (powConst b p) := by
  have step := rewrites_powConstRule b p
  generalize powConstRule b p = w at step ⊢
  cases step with
  | @powConstFold a p =>
    exact .fold rfl (Set.union_subset (Set.union_subset (faults_const_subset point a)
      (faults_const_subset point p)) (Exact.faultsOfTwo_subset _))
  | powConstKeep not_const => exact .done rfl clear ⟨tight, tight.faults_ne not_const⟩

theorem keeps_powExprRule (base : b.Tight point) (exponent : e.Tight point)
    (clear : (powExpr b e).Clear point) : (powExprRule b e).Keeps point (powExpr b e) := by
  have step := rewrites_powExprRule b e
  generalize powExprRule b e = w at step ⊢
  cases step with
  | @powExprFold a p =>
    exact .fold rfl (Set.union_subset (Set.union_subset (faults_const_subset point a)
      (faults_const_subset point p)) (Exact.faultsOfTwo_subset _))
  | powExprConst => exact .again rfl ⟨clear.1, clear.2.2⟩
  | powExprKeep not_const =>
    refine .done rfl clear ⟨base, exponent, fun fine => exponent.faults_ne not_const ?_⟩
    exact (Set.union_empty_iff.1 (Set.union_empty_iff.1 fine).1).2

theorem faults_call_const (domains : F.HasDomains) {f : Elementary} {a : K}
    (left_alone : f.folds (.of a : Exact F.arithmetic) = false) :
    (call f (const (.of a))).faults point = {.call f a} := by
  have fault : (if f.folds (.of a : Exact F.arithmetic) then Fault.folded else .call f a) =
      .call f a := by
    rw [left_alone]
    rfl
  refine Set.eq_singleton_iff_unique_mem.2 ⟨.inr ⟨a, rfl, domains f a left_alone, fault.symm⟩, ?_⟩
  rintro φ (constant | ⟨c, same, -, rfl⟩)
  · rw [faults_const_of] at constant
    exact constant.elim
  · rwa [← Exact.of_inj.1 same]

theorem faults_call {f : Elementary} (wrong : e.faults point ≠ ∅) :
    (call f e).faults point = e.faults point := by
  rw [faults, evaluate_of_faults_ne wrong, Exact.faults_undefined, Set.union_empty]

theorem keeps_callRule (domains : F.HasDomains) {f : Elementary} (tight : e.Tight point)
    (clear : (call f e).Clear point) : (callRule f e).Keeps point (call f e) := by
  have step := rewrites_callRule f e
  generalize callRule f e = w at step ⊢
  cases step with
  | @callFold f c folds =>
    refine .fold rfl (Set.union_subset (faults_const_subset point c) ?_)
    rintro φ ⟨a, rfl, -, rfl⟩
    exact if_pos folds
  | @callUndefined f c outside =>
    refine .done rfl clear ⟨trivial, fun fine => ?_, fun d same => ?_⟩
    · obtain ⟨v, value⟩ := faults_eq_empty_iff.1 fine
      obtain ⟨a, rfl, result⟩ := hasValue_call.1 value
      exact Option.some_ne_none v (result.symm.trans (domains f a outside))
    · rwa [← const.inj same]
  | @expLn inner =>
    obtain ⟨tight_inner, wrong, unfolded⟩ := tight
    have missing : inner.faults point ≠ ∅ := by
      -- a logarithm that goes wrong itself is what the rule would hide
      intro fine
      obtain ⟨a, rfl⟩ := tight_inner.exists_const fine
      exact clear.2 rfl a (faults_call_const domains (unfolded _ rfl))
    exact .done ((faults_call wrong).trans (faults_call missing)).symm clear.1.1 tight_inner
  | callKeep not_const =>
    exact .done rfl clear ⟨tight, fun fine => tight.faults_ne not_const
      (Set.union_empty_iff.1 fine).1, fun c same => absurd same (not_const c)⟩

/-! ### A run -/

structure Outlasts (point : Nat → Exact F.arithmetic) (t e : Expr (Exact F.arithmetic)) :
    Prop where
  faults_eq : t.faults point = e.faults point
  clear : t.Clear point
  tight : t.Tight point

theorem outlasts_result {w : Reduct (Exact F.arithmetic)} {node : Expr (Exact F.arithmetic)}
    (keeps : w.Keeps point node) (same : node.faults point = e.faults point)
    (next : ∀ t, w = .again t → t.Clear point → Outlasts point t.simplify t) :
    Outlasts point (Reduct.result w) e := by
  cases w with
  | done t => exact ⟨keeps.faults_eq.trans same, keeps.clear, keeps.tight t rfl⟩
  | again t =>
    have later := next t rfl keeps.clear
    exact ⟨later.faults_eq.trans (keeps.faults_eq.trans same), later.clear, later.tight⟩

theorem faults_powConst {p : Exact F.arithmetic} {n : Int64} (short : shortInteger? p = some n)
    (by_zero : p = .of 0 → b.faults point = ∅) :
    (powConst b p).faults point = (pow b n).faults point := by
  obtain rfl := eq_of_shortInteger? short
  have power (a : K) : F.power a n.toInt = F.arithmetic.intPower? a n.toInt := by
    rw [F.power_intCast, F.intPower?_eq]
  have operation : (b.evaluate point).faultsOfTwo (.of (n.toInt : K) : Exact F.arithmetic) F.power
        (fun _ _ => .folded) =
      (b.evaluate point).faults (F.arithmetic.intPower? · n.toInt) fun _ => .folded := by
    ext φ
    constructor
    · rintro ⟨a, c, base, same, wrong, rfl⟩
      rw [← Exact.of_inj.1 same, power] at wrong
      exact ⟨a, base, wrong, rfl⟩
    · rintro ⟨a, base, wrong, rfl⟩
      exact ⟨a, _, base, rfl, (power a).trans wrong, rfl⟩
  change b.faults point ∪ faults point (const (.of (n.toInt : K))) ∪ _ = _
  rw [operation, faults_const_of, Set.union_empty]
  by_cases zero : n = 0
  · subst zero
    have fine := by_zero (by rw [Int64.toInt_zero, Int.cast_zero])
    rw [faults, if_pos rfl, fine, Set.empty_union, Set.eq_empty_iff_forall_notMem]
    rintro φ ⟨a, -, wrong, -⟩
    have one : integerPower? a 0 = some (a ^ (0 : Int)) :=
      integerPower?_eq_some.2 ⟨fun _ => le_rfl, rfl⟩
    cases one.symm.trans ((F.intPower?_eq a 0).symm.trans wrong)
  · rw [faults, if_neg zero]

variable [IsStrictOrderedRing K]

theorem Outlasts.evaluate_eq (outlasts : Outlasts point e.simplify e) (fits : ExponentsFit e) :
    e.simplify.evaluate point = e.evaluate point := by
  obtain missing | ⟨v, value⟩ := (e.evaluate point).eq_undefined_or_of
  · rw [missing]
    refine evaluate_of_faults_ne ?_
    rw [outlasts.faults_eq]
    exact faults_ne_of_undefined missing
  · rw [value]
    exact hasValue_simplify fits v value

/-- Simplifying a clear expression keeps its faults. -/
theorem outlasts_simplify (domains : F.HasDomains) (blank : ∀ i, point i = .undefined)
    (fits : ExponentsFit e) : e.Clear point → Outlasts point e.simplify e := by
  induction fits with
  | const c =>
    intro _
    rw [simplify_const]
    exact ⟨rfl, trivial, trivial⟩
  | var name i =>
    intro _
    rw [simplify_var]
    refine ⟨rfl, trivial, faults_ne_of_undefined (blank i)⟩
  | add fl fr _ left right next =>
    intro clear
    obtain ⟨clear_l, clear_r, apart⟩ := clear
    have left := left clear_l
    have right := right clear_r
    rw [simplify_add]
    refine outlasts_result
      (keeps_addRule left.tight right.tight ⟨left.clear, right.clear, ?_⟩) ?_ next
    · rwa [Apart, left.faults_eq, right.faults_eq]
    · rw [faults_add, faults_add, left.faults_eq, right.faults_eq]
  | sub fl fr _ left right next =>
    intro clear
    obtain ⟨clear_l, clear_r, apart⟩ := clear
    have left := left clear_l
    have right := right clear_r
    rw [simplify_sub]
    refine outlasts_result
      (keeps_subRule left.tight right.tight ⟨left.clear, right.clear, ?_⟩) ?_ next
    · rwa [Apart, left.faults_eq, right.faults_eq]
    · rw [faults_sub, faults_sub, left.faults_eq, right.faults_eq]
  | mul fl fr _ _ left right next =>
    intro clear
    obtain ⟨clear_l, clear_r, apart, zero_left, zero_right⟩ := clear
    have left := left clear_l
    have right := right clear_r
    have value_l := left.evaluate_eq fl
    have value_r := right.evaluate_eq fr
    rw [simplify_mul]
    refine outlasts_result
      (keeps_mulRule left.tight right.tight ⟨left.clear, right.clear, ?_, ?_, ?_⟩) ?_ next
    · rwa [Apart, left.faults_eq, right.faults_eq]
    · rwa [HasValue, value_l, right.faults_eq]
    · rwa [HasValue, value_r, left.faults_eq]
    · rw [faults_mul, faults_mul, left.faults_eq, right.faults_eq]
  | @div l r fl fr _ left right next =>
    intro clear
    obtain ⟨clear_l, clear_r, apart, zero_left⟩ := clear
    have left := left clear_l
    have right := right clear_r
    have value_l := left.evaluate_eq fl
    have value_r := right.evaluate_eq fr
    have same : (div l.simplify r.simplify).faults point = (div l r).faults point := by
      simp only [faults, left.faults_eq, right.faults_eq, value_l, value_r]
    rw [simplify_div]
    refine outlasts_result
      (keeps_divRule left.tight right.tight ⟨left.clear, right.clear, ?_, ?_⟩) same next
    · rwa [Apart, left.faults_eq, right.faults_eq]
    · rwa [HasValue, value_l, same]
  | abs _ _ inner next =>
    intro clear
    have inner := inner clear
    rw [simplify_abs]
    exact outlasts_result (keeps_absRule inner.tight inner.clear) inner.faults_eq next
  | pow fb fit _ base next =>
    intro clear
    have base := base clear
    rw [simplify_pow]
    refine outlasts_result (keeps_powRule fit base.tight base.clear) ?_ next
    simp only [faults, base.faults_eq, base.evaluate_eq fb]
  | powInteger short fb again fit _ base further next =>
    intro clear
    have base := base clear.1
    have further := further base.clear
    rw [simplify_powConst, short]
    refine outlasts_result (keeps_powRule fit further.tight further.clear) ?_ next
    rw [faults_powConst short clear.2]
    simp only [faults, further.faults_eq, base.faults_eq, further.evaluate_eq again,
      base.evaluate_eq fb]
  | @powConst b p long fb _ base next =>
    intro clear
    obtain ⟨clear_b, by_zero⟩ := clear
    have base := base clear_b
    have same : (powConst b.simplify p).faults point = (powConst b p).faults point := by
      simp only [faults, base.faults_eq, base.evaluate_eq fb]
    rw [simplify_powConst, long]
    refine outlasts_result (keeps_powConstRule base.tight ⟨base.clear, ?_⟩) same next
    rwa [base.faults_eq]
  | @powExpr b e fb fe _ base exponent next =>
    intro clear
    obtain ⟨clear_b, clear_e, by_zero⟩ := clear
    have base := base clear_b
    have exponent := exponent clear_e
    have same : (powExpr b.simplify e.simplify).faults point = (powExpr b e).faults point := by
      simp only [faults, base.faults_eq, exponent.faults_eq, base.evaluate_eq fb,
        exponent.evaluate_eq fe]
    rw [simplify_powExpr]
    refine outlasts_result
      (keeps_powExprRule base.tight exponent.tight ⟨base.clear, exponent.clear, ?_⟩) same next
    rwa [HasValue, exponent.evaluate_eq fe, base.faults_eq]
  | @call f e fe _ argument next =>
    intro clear
    obtain ⟨clear_e, no_logarithm⟩ := clear
    have argument := argument clear_e
    have same : (call f e.simplify).faults point = (call f e).faults point := by
      simp only [faults, argument.faults_eq, argument.evaluate_eq fe]
    rw [simplify_call]
    refine outlasts_result
      (keeps_callRule domains argument.tight ⟨argument.clear, ?_⟩) same next
    rwa [argument.faults_eq]
  | neg _ _ inner next =>
    intro clear
    have inner := inner clear
    rw [simplify_neg]
    exact outlasts_result (keeps_negRule inner.tight inner.clear) inner.faults_eq next

/-- A clear expression without a value has none after simplification. -/
theorem evaluate_simplify (domains : F.HasDomains) (blank : ∀ i, point i = .undefined)
    (fits : ExponentsFit e) (clear : e.Clear point) :
    e.simplify.evaluate point = e.evaluate point :=
  (outlasts_simplify domains blank fits clear).evaluate_eq fits

end Expr

end Simultaneous
