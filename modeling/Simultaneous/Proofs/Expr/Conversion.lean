import Simultaneous.Proofs.Expr.Reading
import Simultaneous.Proofs.Formula.Flat

/-!
What can go wrong when the operator tree of a reading becomes an expression. Where every name is
known, only an exponent can: one that has no unknowns in it and whose value is no number.
-/

namespace Simultaneous

open Formula

/-- Nothing is wrong, or the value of an exponent is no number. -/
def OnlyExponentFails {β : Type} (result : Except ConversionError β) : Prop :=
  (∃ b, result = .ok b) ∨ ∃ value, result = .error (.exponent value)

namespace Expr

variable {α : Type} [Scalar α] {names : Names α} {unknowns : List String}

theorem ofName_of_known {s : String} (known : s ∈ constantNames ∨ s ∈ unknowns)
    (listed : ∀ u ∈ unknowns, u ∈ names.unknowns) : ∃ e, ofName names s = .ok e := by
  unfold ofName
  split
  next => exact ⟨_, rfl⟩
  next no_constant =>
    have unknown : s ∈ unknowns := by
      refine known.resolve_left fun constant => ?_
      simp only [constantNames, List.mem_cons, List.not_mem_nil, or_false] at constant
      rcases constant with rfl | rfl | rfl <;> cases no_constant
    obtain ⟨i, position⟩ :=
      Option.isSome_iff_exists.1 ((lastPosition?_isSome s names.unknowns).2 (listed s unknown))
    rw [position]
    exact ⟨_, rfl⟩

omit [Scalar α] in
theorem ofCall_of_callable {f : String} (callable : IsCallable f) (x : Expr α) :
    ∃ e, ofCall f x = .ok e := by
  by_cases absolute : f = absName
  · exact ⟨abs x, ofCall_eq_ok.2 (absolute ▸ .absolute)⟩
  · obtain ⟨g, known⟩ := Option.isSome_iff_exists.1 (callable.resolve_right absolute)
    exact ⟨_, ofCall_eq_ok.2 (.elementary absolute known)⟩

theorem ofPower_onlyExponentFails (b x : Expr α) : OnlyExponentFails (ofPower b x) := by
  unfold ofPower
  simp only
  split
  next => exact .inl ⟨_, rfl⟩
  next =>
    split
    next value _ => exact .inr ⟨value, rfl⟩
    next =>
      split
      next => split <;> exact .inl ⟨_, rfl⟩
      next => exact .inl ⟨_, rfl⟩

theorem ofOperator_onlyExponentFails (op : Binary) (l r : Expr α) :
    OnlyExponentFails (ofOperator op.operator [l, r]) := by
  cases op with
  | exp => exact ofPower_onlyExponentFails l r
  | _ => exact .inl ⟨_, rfl⟩

theorem ofNode_binary (op : Binary) (l r : Node) : ofNode names (.mk op.operator [r, l]) =
    (ofNode names l).bind fun a => (ofNode names r).bind fun b => ofOperator op.operator [a, b] := by
  have shape : shapeFault? op.operator [r, l] = none := by cases op <;> rfl
  rw [ofNode, shape, ofNodes, ofNodes_one]
  · cases ofNode names l <;> cases ofNode names r <;> rfl
  · intro c same
    cases op <;> cases same
  · intro s same
    cases op <;> cases same

/-- The tree of a reading with known names becomes an expression, unless an exponent has no value. -/
theorem ofNode_onlyExponentFails {r : Reading} (known : r.Known unknowns)
    (listed : ∀ u ∈ unknowns, u ∈ names.unknowns) : OnlyExponentFails (ofNode names r.node) := by
  induction r with
  | number n => exact .inl ⟨_, ofNode_number n⟩
  | name s =>
    rw [Reading.node, ofNode_read]
    exact .inl (ofName_of_known known listed)
  | call f r ih =>
    rcases ih known.2 with ⟨x, inner⟩ | ⟨value, inner⟩
    · obtain ⟨e, made⟩ := ofCall_of_callable known.1 x
      exact .inl ⟨e, ofNode_call_eq_ok.2 ⟨x, inner, made⟩⟩
    · refine .inr ⟨value, ?_⟩
      rw [Reading.node, ofNode, ofNodes_one, ofNode_bracket, inner]
      · rfl
      · intro c same
        cases same
      · intro s same
        cases same
  | bracket r ih =>
    rw [Reading.node, ofNode_bracket]
    exact ih known
  | neg r ih =>
    rcases ih known with ⟨x, inner⟩ | ⟨value, inner⟩
    · exact .inl ⟨_, ofNode_neg_eq_ok.2 ⟨x, inner, rfl⟩⟩
    · refine .inr ⟨value, ?_⟩
      rw [Reading.node, ofNode, ofNodes_one, inner]
      · rfl
      · intro c same
        cases same
      · intro s same
        cases same
  | binary op l r left right =>
    rw [Reading.node, ofNode_binary]
    rcases left known.1 with ⟨a, of_left⟩ | ⟨value, of_left⟩
    · rcases right known.2 with ⟨b, of_right⟩ | ⟨value, of_right⟩
      · rw [of_left, of_right]
        exact ofOperator_onlyExponentFails op a b
      · rw [of_left, of_right]
        exact .inr ⟨value, rfl⟩
    · rw [of_left]
      exact .inr ⟨value, rfl⟩

end Expr

end Simultaneous
