import Simultaneous.Proofs.Expr.Tree

/-!
Where an expression means just what its operator tree says. Conversion computes exponents, so an
exponent without a value may leave a power with one, and a power by zero is one whatever its base.
Apart from these, an expression has a value only where its tree has.
-/

namespace Simultaneous

open Formula Scalar

/-- Every operator of a tree has as many operands as it takes. Every exponent has a value, and where
that is zero the base has one, too. -/
inductive Formula.Node.Proper {K : Type} [Field K] [LinearOrder K] {F : Interpretation K}
    (valueOf : String → Exact F.arithmetic) : Node → Prop where
  | constant (c : Constant) (operands : List Node) : Proper valueOf (.mk (.constant c) operands)
  | read (s : String) (operands : List Node) : Proper valueOf (.mk (.read s) operands)
  | operator {op : Operator} {operands : List Node} : op.Takes operands.length →
      (∀ n ∈ operands, Proper valueOf n) →
      (∀ exponent base, op = .exp → operands = [exponent, base] →
        ∃ c, exponent.value valueOf = .of c ∧ (c = 0 → ∃ a, base.value valueOf = .of a)) →
      Proper valueOf (.mk op operands)

section Readings

variable {K : Type} [Field K] [LinearOrder K] {F : Interpretation K}
variable {names : Names (Exact F.arithmetic)} {point : Nat → Exact F.arithmetic}

def Formula.Reading.HasExponents (names : Names (Exact F.arithmetic))
    (point : Nat → Exact F.arithmetic) : Reading → Prop
  | number _ | name _ => True
  | call _ r | bracket r | neg r => r.HasExponents names point
  | binary op l r => l.HasExponents names point ∧ r.HasExponents names point ∧
      (op = .exp → ∃ c, r.value names point = .of c ∧ (c = 0 → ∃ a, l.value names point = .of a))

theorem Formula.Reading.HasExponents.proper {r : Reading} (has : r.HasExponents names point) :
    r.node.Proper (nameValue names point) := by
  have single {op : Operator} {n : Node} (takes : op.Takes 1)
      (inner : n.Proper (nameValue names point)) :
      Node.Proper (nameValue names point) (.mk op [n]) :=
    .operator takes (by simpa using inner) fun _ _ _ two => by cases two
  induction r with
  | number n => exact .constant _ []
  | name s => exact .read s []
  | call f r ih => exact single rfl (single rfl (ih has))
  | bracket r ih | neg r ih => exact single rfl (ih has)
  | binary op l r left right =>
    obtain ⟨has_l, has_r, exponent⟩ := has
    have both : ∀ n ∈ [r.node, l.node], n.Proper (nameValue names point) := by
      simpa using ⟨right has_r, left has_l⟩
    refine .operator (by cases op <;> first | rfl | exact Nat.succ_pos 1) both ?_
    rintro _ _ power ⟨⟩
    rw [Reading.value_node, Reading.value_node]
    exact exponent (by cases op <;> first | rfl | cases power)

end Readings

namespace Expr

variable {K : Type} [Field K] [LinearOrder K] [IsStrictOrderedRing K] {F : Interpretation K}
variable {point : Nat → Exact F.arithmetic} {names : Names (Exact F.arithmetic)}
variable {b x e : Expr (Exact F.arithmetic)} {es : List (Expr (Exact F.arithmetic))} {c : K}
variable {op : Operator} {operands : List Node} {valueOf : String → Exact F.arithmetic}

/-- The expression of a proper tree has the value of the tree, or none if the tree has none. -/
theorem evaluate_ofNode {n : Node} (proper : n.Proper valueOf)
    (agrees : ∀ s e, ofName names s = .ok e → e.evaluate point = valueOf s) :
    n.ExponentsFit names → ∀ e, ofNode names n = .ok e → e.evaluate point = n.value valueOf := by
  induction proper with
  | constant c operands =>
    intro _ e made
    rw [ofNode] at made
    cases c with
    | number m =>
      cases made
      rw [Node.value]
      rfl
    | text s => cases made
    | truth t => cases made
  | read s operands =>
    intro _ e made
    rw [ofNode] at made
    rw [Node.value]
    exact agrees s e made
  | @operator op operands takes _ exponents ih =>
    intro fits e made
    obtain ⟨all, exponent_fits⟩ := fits
    have no_constant : ∀ c, op ≠ .constant c := by
      rintro c rfl
      exact takes
    have no_name : ∀ s, op ≠ .read s := by
      rintro s rfl
      exact takes
    obtain ⟨-, es, converted, joined⟩ := (ofNode_eq_ok no_constant no_name).1 made
    have values := map_evaluate_ofNodes (fun n member => ih n member (all n member)) converted
    have length : es.length = operands.length := by
      rw [← List.length_map (f := (·.evaluate point)), values, length_values]
    rw [value_of_operator valueOf no_constant no_name, ← values]
    refine (ofOperator_eq_ok.1 joined).evaluate (length ▸ takes) ?_
    rintro l r rfl rfl
    obtain ⟨exponent, base, rfl⟩ := List.length_eq_two.1 length.symm
    obtain ⟨c, exponent_value, by_zero⟩ := exponents exponent base rfl rfl
    obtain ⟨n, first, of_exponent⟩ := getLast?_ofNodes converted r rfl
    have pair : [l.evaluate point, r.evaluate point] =
        [base.value valueOf, exponent.value valueOf] := values
    obtain ⟨of_base, rest⟩ := List.cons_eq_cons.1 pair
    have value := (List.cons_eq_cons.1 rest).1
    refine ⟨exponent_fits rfl n first r of_exponent, c, value.trans exponent_value, fun zero => ?_⟩
    obtain ⟨a, base_value⟩ := by_zero zero
    exact ⟨a, of_base.trans base_value⟩

end Expr

end Simultaneous
