import Simultaneous.Proofs.Expr.Conversion
import Simultaneous.Proofs.Expr.Tree
import Simultaneous.Proofs.Formula.Operands
import Simultaneous.Residual

/-!
The names in an operator tree that becomes an expression. Where every name that is read has an
expression and every name that is called is that of a function, no conversion fails for a name; where
moreover every node has just the operands that its operator takes, none fails for the number of
arguments of a call.
-/

namespace Simultaneous

open Formula

def ConversionError.IsUnresolved : ConversionError → Prop
  | unknownVariable _ | unsupportedFunction _ => True
  | exponent _ | unsupported _ | operandCount _ _ | emptyNegation | noOperands | rootOperands _
  | notNumeric _ | arity _ _ => False

def ConversionError.IsArity : ConversionError → Prop
  | arity _ _ => True
  | exponent _ | unsupported _ | operandCount _ _ | emptyNegation | noOperands | rootOperands _
  | notNumeric _ | unknownVariable _ | unsupportedFunction _ => False

namespace Expr

variable {α : Type} [Scalar α] {names : Names α} {known : String → Prop}
variable {op : Operator} {operands : List Node} {e : ConversionError}

theorem exists_ofName_of_bound {s : String}
    (known : s ∈ constantNames ∨ s ∈ names.unknowns ∨ (names.bindings.get? s).isSome) :
    ∃ x, ofName names s = .ok x := by
  rcases or_assoc.2 known with listed | bound
  · exact ofName_of_known listed fun _ member => member
  · obtain ⟨value, found⟩ := Option.isSome_iff_exists.1 bound
    unfold ofName
    split
    next => exact ⟨_, rfl⟩
    next =>
      split
      next => exact ⟨_, rfl⟩
      next =>
        rw [found]
        exact ⟨_, rfl⟩

theorem length_ofNodes {es : List (Expr α)} (made : ofNodes names operands = .ok es) :
    es.length = operands.length := by
  induction operands generalizing es with
  | nil =>
    cases made
    rfl
  | cons last others ih =>
    obtain ⟨first, x, of_others, -, rfl⟩ := ofNodes_cons_eq_ok.1 made
    rw [List.length_append, ih of_others]
    rfl

theorem ofNode_eq_error (no_constant : ∀ c, op ≠ .constant c) (no_name : ∀ s, op ≠ .read s)
    (failed : ofNode names (.mk op operands) = .error e) :
    shapeFault? op operands = some e ∨ ofNodes names operands = .error e ∨
      ∃ es, ofNodes names operands = .ok es ∧ ofOperator op es = .error e := by
  rw [ofNode] at failed
  · split at failed
    next fault shape =>
      cases failed
      exact .inl shape
    next =>
      split at failed
      next converted =>
        cases failed
        exact .inr (.inl converted)
      next es converted => exact .inr (.inr ⟨es, converted, failed⟩)
  · exact no_constant
  · exact no_name

theorem argumentCount_of_isFull (one : operands.length = 1) (full : ∀ n ∈ operands, n.IsFull) :
    argumentCount operands = 1 := by
  obtain ⟨n, rfl⟩ := List.length_eq_one_iff.1 one
  cases full n List.mem_cons_self with
  | @mk op inner all _ =>
    cases op <;> first | rfl | cases all

/-- What is wrong with the shape of a node is not a name, and only in a node with too few or too many
operands the number of arguments. -/
theorem passes_of_shapeFault? (fault : shapeFault? op operands = some e) :
    ¬e.IsUnresolved ∧ ((Node.mk op operands).IsFull → ¬e.IsArity) := by
  unfold shapeFault? at fault
  split at fault
  case h_7 f =>
    split at fault
    next => cases fault
    next other =>
      cases fault
      refine ⟨id, fun full => ?_⟩
      cases full with
      | mk all each => exact absurd (argumentCount_of_isFull (Option.some.inj all).symm each) other
  all_goals
    try split at fault
    all_goals cases fault
    all_goals exact ⟨id, fun _ => id⟩

theorem passes_of_ofPower {b x : Expr α} (failed : ofPower b x = .error e) :
    ¬e.IsUnresolved ∧ ¬e.IsArity := by
  rcases ofPower_onlyExponentFails b x with ⟨y, made⟩ | ⟨value, exponent⟩
  · rw [made] at failed
    cases failed
  · rw [exponent] at failed
    cases failed
    exact ⟨id, id⟩

omit [Scalar α] in
theorem passes_of_joinLeft {join : Expr α → Expr α → Expr α} {es : List (Expr α)}
    (failed : joinLeft join es = .error e) : ¬e.IsUnresolved ∧ ¬e.IsArity := by
  cases es with
  | nil =>
    cases failed
    exact ⟨id, id⟩
  | cons first rest => cases failed

omit [Scalar α] in
theorem passes_of_joinTwo {join : Expr α → Expr α → Except ConversionError (Expr α)}
    {es : List (Expr α)} (failed : joinTwo op join es = .error e)
    (two : ∀ l r, join l r = .error e → ¬e.IsUnresolved ∧ ¬e.IsArity) :
    ¬e.IsUnresolved ∧ ¬e.IsArity := by
  unfold joinTwo at failed
  split at failed
  next l r => exact two l r failed
  next =>
    cases failed
    exact ⟨id, id⟩

theorem passes_of_ofOperator (is_known : op.IsKnown known) {es : List (Expr α)}
    (failed : ofOperator op es = .error e) :
    ¬e.IsUnresolved ∧ (op.arity? = some es.length → ¬e.IsArity) := by
  unfold ofOperator at failed
  split at failed
  case h_1 | h_2 =>
    have passes := passes_of_joinLeft failed
    exact ⟨passes.1, fun _ => passes.2⟩
  case h_3 | h_4 =>
    have passes := passes_of_joinTwo failed nofun
    exact ⟨passes.1, fun _ => passes.2⟩
  case h_5 =>
    have passes := passes_of_joinTwo failed fun _ _ => passes_of_ofPower
    exact ⟨passes.1, fun _ => passes.2⟩
  case h_7 f =>
    split at failed
    next =>
      cases failed
      exact ⟨id, nofun⟩
    next x _ =>
      obtain ⟨y, made⟩ := ofCall_of_callable is_known x
      rw [made] at failed
      cases failed
  all_goals
    try split at failed
    all_goals cases failed
    all_goals exact ⟨id, fun _ => id⟩

mutual

/-- The conversion of a tree with known operators does not fail for a name, and that of a full tree
does not fail for the number of arguments of a call. -/
theorem passes_of_ofNode (meant : ∀ s, known s → ∃ x : Expr α, ofName names s = .ok x) (n : Node)
    (all : n.All (Operator.IsKnown known))
    (failed : ofNode names n = .error e) : ¬e.IsUnresolved ∧ (n.IsFull → ¬e.IsArity) := by
  cases n with
  | mk op operands =>
    obtain ⟨is_known, each⟩ : op.IsKnown known ∧ ∀ n ∈ operands, n.All (Operator.IsKnown known) := by
      cases all with
      | mk is_known each => exact ⟨is_known, each⟩
    obtain ⟨c, rfl⟩ | ⟨s, rfl⟩ | ⟨no_constant, no_name⟩ := leaf_cases op
    · rw [ofNode] at failed
      cases c with
      | number m => cases failed
      | text s | truth t =>
        cases failed
        exact ⟨id, fun _ => id⟩
    · rw [ofNode] at failed
      obtain ⟨x, made⟩ := meant s is_known
      rw [made] at failed
      cases failed
    · rcases ofNode_eq_error no_constant no_name failed with fault | inner | ⟨es, made, join⟩
      · exact passes_of_shapeFault? fault
      · have passes := passes_of_ofNodes meant operands each inner
        refine ⟨passes.1, fun full => passes.2 ?_⟩
        cases full with
        | mk _ each => exact each
      · have passes := passes_of_ofOperator is_known join
        refine ⟨passes.1, fun full => passes.2 ?_⟩
        cases full with
        | mk own _ => rw [length_ofNodes made, own]

theorem passes_of_ofNodes (meant : ∀ s, known s → ∃ x : Expr α, ofName names s = .ok x)
    (operands : List Node)
    (all : ∀ n ∈ operands, n.All (Operator.IsKnown known))
    (failed : ofNodes names operands = .error e) :
    ¬e.IsUnresolved ∧ ((∀ n ∈ operands, n.IsFull) → ¬e.IsArity) := by
  cases operands with
  | nil => cases failed
  | cons last others =>
    obtain ⟨own, each⟩ := List.forall_mem_cons.1 all
    rw [ofNodes] at failed
    split at failed
    next inner =>
      cases failed
      have passes := passes_of_ofNodes meant others each inner
      exact ⟨passes.1, fun full => passes.2 (List.forall_mem_cons.1 full).2⟩
    next es _ =>
      split at failed
      next inner =>
        cases failed
        have passes := passes_of_ofNode meant last own inner
        exact ⟨passes.1, fun full => passes.2 (List.forall_mem_cons.1 full).1⟩
      next => cases failed

end

end Expr

end Simultaneous
