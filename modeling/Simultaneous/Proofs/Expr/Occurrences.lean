import Simultaneous.Proofs.Expr.Names
import Simultaneous.Proofs.Expr.Rules
import Simultaneous.Proofs.Formula.Variables

/-!
The unknowns that occur in an expression. Rules of simplification drop unknowns but neither add nor
exchange any. An expression of an operator tree has the variables that the tree reads, except that
its exponents are simplified: unknowns may be missing there.
-/

namespace Simultaneous

open Formula

variable {α : Type} [Scalar α]

/-! ### Simplification -/

namespace Expr

theorem Rewrites.occurrences_sublist {e : Expr α} {w : Reduct α} (step : Rewrites e w) :
    w.expr.occurrences.Sublist e.occurrences := by
  cases step with
  | addFold | subFold | subSame | mulFold | mulZero | zeroMul | divFold | zeroDiv | divSame
  | absFold | powZero | powFold | powConstFold | powExprFold | callFold | callUndefined | negFold =>
    exact List.nil_sublist _
  | addZero | subZero | mulOne | mulMinusOne | mulPowers | mulConst | mulSame | divOne | divMinusOne
  | powExprConst => exact List.sublist_append_left _ _
  | zeroAdd | zeroSub | oneMul | minusOneMul => exact List.sublist_append_right _ _
  | addNeg | addKeep | subKeep | mulConstants | mulKeep | divKeep | absAbs | absNeg | absEven
  | absKeep | powOne | powPow | powKeep | powConstKeep | powExprKeep | expLn | callKeep | negNeg
  | negMul | negKeep => exact List.Sublist.refl _

theorem keptByRules_occurrences :
    KeptByRules fun e f : Expr α => e.occurrences.Sublist f.occurrences where
  refl _ := List.Sublist.refl _
  trans := List.Sublist.trans
  add := List.Sublist.append
  sub := List.Sublist.append
  mul := List.Sublist.append
  div := List.Sublist.append
  powExpr := List.Sublist.append
  abs inner := inner
  pow _ base := base
  powConst _ base := base
  call _ inner := inner
  neg inner := inner
  addRule _ _ := (rewrites_addRule _ _).occurrences_sublist
  subRule _ _ := (rewrites_subRule _ _).occurrences_sublist
  mulRule _ _ := (rewrites_mulRule _ _).occurrences_sublist
  divRule _ _ := (rewrites_divRule _ _).occurrences_sublist
  absRule _ := (rewrites_absRule _).occurrences_sublist
  powRule _ _ := (rewrites_powRule _ _).occurrences_sublist
  shortRule b _ n _ := (rewrites_powRule b n).occurrences_sublist
  powConstRule _ _ := (rewrites_powConstRule _ _).occurrences_sublist
  powExprRule _ _ := (rewrites_powExprRule _ _).occurrences_sublist
  callRule _ _ := (rewrites_callRule _ _).occurrences_sublist
  negRule _ := (rewrites_negRule _).occurrences_sublist

/-- The unknowns of a simplified expression occur in the expression, in this order. -/
theorem occurrences_simplify (e : Expr α) : e.simplify.occurrences.Sublist e.occurrences :=
  keptByRules_occurrences.simplify e

omit [Scalar α] in
theorem occurrences_of_isConstant {e : Expr α} (constant : e.isConstant) : e.occurrences = [] := by
  induction e with
  | const c => rfl
  | var name i => cases constant
  | add l r left right | sub l r left right | mul l r left right | div l r left right
  | powExpr l r left right =>
    obtain ⟨of_left, of_right⟩ := Bool.and_eq_true_iff.1 constant
    rw [occurrences, left of_left, right of_right, List.append_nil]
  | abs e inner | pow e n inner | powConst e p inner | call f e inner | neg e inner =>
    rw [occurrences, inner constant]

/-! ### Conversion -/

theorem Raises.occurrences_eq {b x e : Expr α} (raises : Raises b x e) :
    e.occurrences = b.occurrences ++ x.simplify.occurrences := by
  have none {p : α} (constant : x.simplify.constant? = some p) : x.simplify.occurrences = [] := by
    unfold constant? at constant
    split at constant
    next no_unknowns => exact occurrences_of_isConstant no_unknowns
    next => cases constant
  cases raises with
  | unknown => rfl
  | short constant | number constant => rw [none constant, List.append_nil, occurrences]

omit [Scalar α] in
theorem Calls.occurrences_eq {f : String} {x e : Expr α} (calls : Calls x f e) :
    e.occurrences = x.occurrences := by
  cases calls <;> rfl

omit [Scalar α] in
theorem occurrences_foldl {join : Expr α → Expr α → Expr α}
    (joined : ∀ l r, (join l r).occurrences = l.occurrences ++ r.occurrences)
    (first : Expr α) (rest : List (Expr α)) :
    (rest.foldl join first).occurrences = first.occurrences ++ rest.flatMap occurrences := by
  induction rest generalizing first with
  | nil => simp
  | cons e rest ih => rw [List.foldl_cons, ih, joined, List.flatMap_cons, List.append_assoc]

theorem Makes.occurrences_eq {op : Operator} {es : List (Expr α)} {e : Expr α}
    (makes : Makes op es e) (few : ∀ k, op.arity? = some k → es.length ≤ k) :
    (op ≠ .exp ∧ e.occurrences = es.flatMap occurrences) ∨
      (op = .exp ∧ ∃ b x, es = [b, x] ∧ e.occurrences = b.occurrences ++ x.simplify.occurrences) := by
  have only {x : Expr α} {rest : List (Expr α)} (le : (x :: rest).length ≤ 1) :
      (x :: rest).flatMap occurrences = x.occurrences := by
    obtain rfl : rest = [] := List.length_eq_zero_iff.1 (Nat.le_zero.1 (Nat.le_of_succ_le_succ le))
    simp
  cases makes with
  | add first rest | mul first rest =>
    exact .inl ⟨nofun, by rw [occurrences_foldl fun _ _ => rfl, List.flatMap_cons]⟩
  | sub l r | div l r => exact .inl ⟨nofun, by simp [occurrences]⟩
  | exp raises => exact .inr ⟨rfl, _, _, rfl, raises.occurrences_eq⟩
  | neg x rest => exact .inl ⟨nofun, (only (few 1 rfl)).symm⟩
  | call rest calls => exact .inl ⟨nofun, calls.occurrences_eq.trans (only (few 1 rfl)).symm⟩
  | root => exact .inl ⟨nofun, by simp⟩

end Expr

/-- The unknowns of each simplified exponent relate to those of the exponent. -/
inductive Formula.Node.SimplifiesExponents (R : List String → List String → Prop)
    (names : Names α) : Node → Prop
  | mk {op : Operator} {operands : List Node} :
      (∀ n ∈ operands, Node.SimplifiesExponents R names n) →
      (op = .exp → ∀ n ∈ operands.head?, ∀ x, Expr.ofNode names n = .ok x →
        R x.simplify.occurrences x.occurrences) →
      Node.SimplifiesExponents R names (.mk op operands)

namespace Expr

variable {names : Names α} {R : List String → List String → Prop}

mutual

theorem simplifiesExponents_of_forall (all : ∀ x : Expr α, R x.simplify.occurrences x.occurrences)
    (n : Node) : n.SimplifiesExponents R names := by
  cases n with
  | mk op operands =>
    exact .mk (simplifiesExponents_of_forall_mem all operands) fun _ n _ x _ => all x

theorem simplifiesExponents_of_forall_mem
    (all : ∀ x : Expr α, R x.simplify.occurrences x.occurrences) (operands : List Node) :
    ∀ n ∈ operands, n.SimplifiesExponents R names := by
  cases operands with
  | nil => simp
  | cons last others =>
    exact List.forall_mem_cons.2 ⟨simplifiesExponents_of_forall all last,
      simplifiesExponents_of_forall_mem all others⟩

end

theorem relates_ofNodes (refl : ∀ xs, R xs xs)
    (append : ∀ a b c d, R a b → R c d → R (a ++ c) (b ++ d)) {operands : List Node}
    (each : ∀ n ∈ operands, ∀ e, ofNode names n = .ok e → R e.occurrences n.variables)
    {es : List (Expr α)} (made : ofNodes names operands = .ok es) :
    R (es.flatMap occurrences) (Node.variablesOf operands) := by
  induction operands generalizing es with
  | nil =>
    cases made
    exact refl []
  | cons last others ih =>
    obtain ⟨own, earlier⟩ := List.forall_mem_cons.1 each
    obtain ⟨first, e, of_others, of_last, rfl⟩ := ofNodes_cons_eq_ok.1 made
    rw [List.flatMap_append, List.flatMap_singleton, Node.variablesOf]
    exact append _ _ _ _ (ih earlier of_others) (own e of_last)

/-- The unknowns of the expression of a tree relate to the variables of the tree as those of its
exponents do, when these are simplified. -/
theorem relates_ofNode (refl : ∀ xs, R xs xs) (trans : ∀ a b c, R a b → R b c → R a c)
    (append : ∀ a b c d, R a b → R c d → R (a ++ c) (b ++ d))
    (named : ∀ s x, ofName names s = .ok x → x.occurrences = if isVariableName s then [s] else [])
    {n : Node} (exponents : n.SimplifiesExponents R names) (bounded : n.IsBounded) :
    ∀ e, ofNode names n = .ok e → R e.occurrences n.variables := by
  induction exponents with
  | @mk op operands _ exponent ih =>
    intro e made
    obtain ⟨few, bounded⟩ : (∀ k, op.arity? = some k → operands.length ≤ k) ∧
        ∀ n ∈ operands, n.IsBounded := by
      cases bounded with
      | mk few each => exact ⟨few, each⟩
    have own : (Node.mk op operands).variables =
        op.variableName?.toList ++ Node.variablesOf operands := Node.variables.eq_1 _ _
    have alone (leaf : op.arity? = some 0) : operands = [] :=
      List.length_eq_zero_iff.1 (Nat.le_zero.1 (few 0 leaf))
    obtain ⟨c, rfl⟩ | ⟨s, rfl⟩ | ⟨no_constant, no_name⟩ := leaf_cases op
    · obtain rfl := alone rfl
      rw [ofNode] at made
      unfold ofConstant at made
      split at made <;> cases made
      exact refl []
    · obtain rfl := alone rfl
      rw [ofNode] at made
      have read : (Operator.read s).variableName? = if isVariableName s then some s else none := rfl
      rw [own, named s e made, read, Node.variablesOf, List.append_nil]
      split <;> exact refl _
    · have no_variable : op.variableName? = none := by
        cases op <;> first | rfl | exact absurd rfl (no_name _)
      obtain ⟨-, es, converted, joined⟩ := (ofNode_eq_ok no_constant no_name).1 made
      have inner := relates_ofNodes refl append
        (fun n member => ih n member (bounded n member)) converted
      rw [own, no_variable, Option.toList_none, List.nil_append]
      rw [← length_ofNodes converted] at few
      rcases (ofOperator_eq_ok.1 joined).occurrences_eq few with ⟨-, same⟩ | ⟨power, b, x, rfl, same⟩
      · rwa [same]
      · obtain ⟨n, last, own⟩ := getLast?_ofNodes converted x rfl
        rw [same]
        refine trans _ _ _ (append _ _ _ _ (refl _) (exponent power n last x own)) ?_
        simpa using inner

end Expr

end Simultaneous
