import Simultaneous.Proofs.Expr.Reading

/-!
The value of an operator tree as it is written, and the expression of the tree. Where the tree has a
value and names stand for the same numbers on both sides, the expression has that value; it can only
be missing if a name is not known.
-/

namespace Simultaneous

open Formula Scalar

namespace Formula

variable {α : Type} [Scalar α]

def Operator.apply (op : Operator) (values : List α) : α :=
  match op, values with
  | .add, x :: xs => xs.foldl (· + ·) x
  | .mul, x :: xs => xs.foldl (· * ·) x
  | .sub, [x, y] => x - y
  | .div, [x, y] => x / y
  | .exp, [x, y] => Scalar.power x y
  | .neg, [x] => -x
  | .call f, [x] => callValue f x
  | .root, [x] => x
  | _, _ => undefined

def Operator.Takes : Operator → Nat → Prop
  | .add, n | .mul, n => 0 < n
  | .sub, n | .div, n | .exp, n => n = 2
  | .neg, n | .call _, n | .root, n => n = 1
  | _, _ => False

mutual

def Node.value (valueOf : String → α) : Node → α
  | .mk (.constant (.number n)) _ => ofNumeral n
  | .mk (.read s) _ => valueOf s
  | .mk op operands => op.apply (Node.values valueOf operands)

def Node.values (valueOf : String → α) : List Node → List α
  | [] => []
  | last :: others => Node.values valueOf others ++ [Node.value valueOf last]

end

inductive Node.ExponentsFit (names : Names α) : Node → Prop
  | mk {op : Operator} {operands : List Node} : (∀ n ∈ operands, Node.ExponentsFit names n) →
      (op = .exp → ∀ n ∈ operands.head?, ∀ e, Expr.ofNode names n = .ok e → Expr.ExponentsFit e) →
      Node.ExponentsFit names (.mk op operands)

variable {names : Names α}

theorem Node.value_leaf_number (valueOf : String → α) (n : Decimal.Numeral) :
    Node.value valueOf (.leaf (.constant (.number n))) = ofNumeral n := by
  rw [Node.leaf, Node.value]

theorem Node.value_leaf_read (valueOf : String → α) (s : String) :
    Node.value valueOf (.leaf (.read s)) = valueOf s := by
  rw [Node.leaf, Node.value]

/-- The tree of a reading has the value of the reading. -/
theorem Reading.value_node {point : Nat → α} (r : Reading) :
    r.node.value (nameValue names point) = r.value names point := by
  induction r with
  | number n => exact Node.value_leaf_number _ n
  | name s => exact Node.value_leaf_read _ s
  | call f r ih =>
    rw [Reading.node, Reading.value, ← ih]
    rfl
  | bracket r ih | neg r ih =>
    rw [Reading.node, Reading.value, ← ih]
    rfl
  | binary op l r left right =>
    rw [Reading.node, Reading.value, ← left, ← right]
    cases op <;> rfl

theorem Reading.ExponentsFit.node {r : Reading} (fits : r.ExponentsFit names) :
    r.node.ExponentsFit names := by
  have single {op : Operator} {n : Node} (other : op ≠ .exp) (inner : n.ExponentsFit names) :
      Node.ExponentsFit names (.mk op [n]) :=
    .mk (by simpa using inner) fun power => absurd power other
  induction r with
  | number n | name s => exact .mk (by simp) (by simp)
  | call f r ih => exact single (by simp) (single (by simp) (ih fits))
  | bracket r ih => exact single (by simp) (ih fits)
  | neg r ih => exact single (by simp) (ih fits)
  | binary op l r left right =>
    refine .mk (by simpa using ⟨right fits.2.1, left fits.1⟩) fun power n first => ?_
    cases first
    refine fits.2.2 ?_
    cases op <;> first | rfl | cases power

end Formula

namespace Expr

section Trees

variable {α : Type} [Scalar α] {names : Names α} {op : Operator} {operands : List Node}

theorem ofNode_eq_ok {e : Expr α} (no_constant : ∀ c, op ≠ .constant c)
    (no_name : ∀ s, op ≠ .read s) : ofNode names (.mk op operands) = .ok e ↔
      shapeFault? op operands = none ∧
        ∃ es, ofNodes names operands = .ok es ∧ ofOperator op es = .ok e := by
  rw [ofNode_operation no_constant no_name]
  cases shapeFault? op operands with
  | some fault => simp
  | none => cases ofNodes names operands <;> simp [Except.bind]

theorem ofNodes_cons_eq_ok {last : Node} {others : List Node} {es : List (Expr α)} :
    ofNodes names (last :: others) = .ok es ↔
      ∃ first e, ofNodes names others = .ok first ∧ ofNode names last = .ok e ∧
        es = first ++ [e] := by
  rw [ofNodes]
  cases ofNodes names others with
  | error _ => simp
  | ok first => cases ofNode names last <;> simp [eq_comm]

theorem getLast?_ofNodes {es : List (Expr α)} (made : ofNodes names operands = .ok es) :
    ∀ x ∈ es.getLast?, ∃ n ∈ operands.head?, ofNode names n = .ok x := by
  intro x last
  cases operands with
  | nil =>
    cases made
    cases last
  | cons n others =>
    obtain ⟨first, e, -, of_last, rfl⟩ := ofNodes_cons_eq_ok.1 made
    rw [List.getLast?_concat] at last
    cases last
    exact ⟨n, rfl, of_last⟩

theorem leaf_cases (op : Operator) : (∃ c, op = .constant c) ∨ (∃ s, op = .read s) ∨
    ((∀ c, op ≠ .constant c) ∧ ∀ s, op ≠ .read s) := by
  cases op with
  | constant c => exact .inl ⟨c, rfl⟩
  | read s => exact .inr (.inl ⟨s, rfl⟩)
  | _ => exact .inr (.inr ⟨by simp, by simp⟩)

theorem value_of_operator (valueOf : String → α) (no_constant : ∀ c, op ≠ .constant c)
    (no_name : ∀ s, op ≠ .read s) :
    Node.value valueOf (.mk op operands) = op.apply (Node.values valueOf operands) := by
  rw [Node.value]
  · exact fun n => no_constant (.number n)
  · exact no_name

theorem length_values (valueOf : String → α) (operands : List Node) :
    (Node.values valueOf operands).length = operands.length := by
  induction operands with
  | nil => rfl
  | cons last others ih => rw [Node.values, List.length_append, ih]; rfl

theorem mem_values (valueOf : String → α) {n : Node} (member : n ∈ operands) :
    n.value valueOf ∈ Node.values valueOf operands := by
  induction operands with
  | nil => cases member
  | cons last others ih =>
    rw [Node.values]
    rcases List.mem_cons.1 member with rfl | later
    · exact List.mem_append_right _ (List.mem_singleton_self _)
    · exact List.mem_append_left _ (ih later)

theorem evaluate_foldl {point : Nat → α} {join : Expr α → Expr α → Expr α} {f : α → α → α}
    (joined : ∀ l r, (join l r).evaluate point = f (l.evaluate point) (r.evaluate point))
    (first : Expr α) (rest : List (Expr α)) :
    (rest.foldl join first).evaluate point =
      (rest.map (·.evaluate point)).foldl f (first.evaluate point) := by
  induction rest generalizing first with
  | nil => rfl
  | cons e rest ih => rw [List.foldl_cons, ih, joined, List.map_cons, List.foldl_cons]

end Trees

section Values

variable {K : Type} [Field K] [LinearOrder K] {F : Interpretation K}
variable {point : Nat → Exact F.arithmetic} {names : Names (Exact F.arithmetic)}
variable {op : Operator} {es : List (Expr (Exact F.arithmetic))} {v : K}

theorem defined_of_foldl {f : Exact F.arithmetic → Exact F.arithmetic → Exact F.arithmetic}
    (strict : ∀ x y v, f x y = .of v → (∃ a, x = .of a) ∧ ∃ b, y = .of b)
    {xs : List (Exact F.arithmetic)} {x : Exact F.arithmetic} (value : xs.foldl f x = .of v) :
    ∀ y ∈ x :: xs, ∃ a, y = .of a := by
  induction xs generalizing x with
  | nil =>
    intro y only
    rw [List.mem_singleton.1 only]
    exact ⟨v, value⟩
  | cons z zs ih =>
    have later := ih value
    obtain ⟨a, joined⟩ := later (f x z) List.mem_cons_self
    obtain ⟨first, second⟩ := strict x z a joined
    intro y member
    rcases List.mem_cons.1 member with rfl | member
    · exact first
    rcases List.mem_cons.1 member with rfl | member
    · exact second
    · exact later y (List.mem_cons_of_mem _ member)

theorem defined_of_apply {values : List (Exact F.arithmetic)} (value : op.apply values = .of v) :
    ∀ x ∈ values, ∃ a, x = .of a := by
  have pair {o : Binary} {y z : Exact F.arithmetic} (value : o.apply y z = .of v) :
      ∀ x ∈ [y, z], ∃ a, x = .of a := by
    obtain ⟨a, c, rfl, rfl⟩ := operands_of_apply value
    simp
  have single {y : Exact F.arithmetic} (defined : ∃ a, y = .of a) : ∀ x ∈ [y], ∃ a, x = .of a := by
    simpa using defined
  unfold Operator.apply at value
  split at value
  next =>
    refine defined_of_foldl (fun x y v sum => ?_) value
    obtain ⟨a, c, rfl, rfl, -⟩ := Exact.add_eq_of.1 sum
    exact ⟨⟨a, rfl⟩, c, rfl⟩
  next =>
    refine defined_of_foldl (fun x y v product => ?_) value
    obtain ⟨a, c, rfl, rfl, -⟩ := Exact.mul_eq_of.1 product
    exact ⟨⟨a, rfl⟩, c, rfl⟩
  next => exact pair (o := .sub) value
  next => exact pair (o := .div) value
  next => exact pair (o := .exp) value
  next =>
    obtain ⟨a, rfl, -⟩ := Exact.neg_eq_of.1 value
    exact single ⟨a, rfl⟩
  next => exact single (argument_of_callValue value)
  next => exact single ⟨v, value⟩
  next => exact absurd value.symm (Exact.of_ne_undefined v)

theorem takes_of_apply {values : List (Exact F.arithmetic)} (value : op.apply values = .of v) :
    op.Takes values.length := by
  unfold Operator.apply at value
  split at value
  case h_1 | h_2 => exact Nat.succ_pos _
  case h_9 => exact absurd value.symm (Exact.of_ne_undefined v)
  all_goals rfl

variable [IsStrictOrderedRing K]

/-- An expression that an operator makes of others has the value that it makes of theirs. -/
theorem Makes.evaluate {e : Expr (Exact F.arithmetic)} (makes : Makes op es e)
    (takes : op.Takes es.length)
    (power : ∀ l r, op = .exp → es = [l, r] →
      ExponentsFit r ∧ ∃ c, HasValue point r c ∧ (c = 0 → ∃ a, HasValue point l a)) :
    e.evaluate point = op.apply (es.map (·.evaluate point)) := by
  cases makes with
  | add first rest | mul first rest => exact evaluate_foldl (fun _ _ => rfl) first rest
  | sub l r | div l r | root x => rfl
  | exp raises =>
    obtain ⟨fits, c, exponent, by_zero⟩ := power _ _ rfl rfl
    exact raises.evaluate fits exponent by_zero
  | neg x rest =>
    obtain rfl := List.length_eq_zero_iff.1 (Nat.succ.inj takes)
    rfl
  | call rest calls =>
    obtain rfl := List.length_eq_zero_iff.1 (Nat.succ.inj takes)
    exact calls.evaluate

theorem hasValue_of_apply (fits : op = .exp → ∀ x ∈ es.getLast?, ExponentsFit x)
    (value : op.apply (es.map (·.evaluate point)) = .of v) {e : Expr (Exact F.arithmetic)}
    (made : ofOperator op es = .ok e) : HasValue point e v := by
  have takes := takes_of_apply value
  rw [List.length_map] at takes
  refine ((ofOperator_eq_ok.1 made).evaluate takes ?_).trans value
  rintro l r rfl rfl
  obtain ⟨a, c, base, exponent, -⟩ := Exact.power_eq_of.1 value
  exact ⟨fits rfl r rfl, c, exponent, fun _ => ⟨a, base⟩⟩

/-! ### Trees that become expressions -/

theorem exists_ofPower {x : Expr (Exact F.arithmetic)} {c : K} (fits : ExponentsFit x)
    (exponent : HasValue point x c) (b : Expr (Exact F.arithmetic)) : ∃ e, ofPower b x = .ok e := by
  unfold ofPower
  simp only
  split
  next => exact ⟨_, rfl⟩
  next p constant =>
    obtain rfl := constant?_eq_some constant (hasValue_simplify fits c exponent)
    have number : special? (.of c : Exact F.arithmetic) = none := rfl
    rw [number]
    simp only
    split
    next => split <;> exact ⟨_, rfl⟩
    next => exact ⟨_, rfl⟩

omit [IsStrictOrderedRing K] in
theorem exists_ofCall {f : String} {y : Exact F.arithmetic} (value : callValue f y = .of v)
    (x : Expr (Exact F.arithmetic)) : ∃ e, ofCall f x = .ok e := by
  unfold callValue at value
  split at value
  next absolute => exact ⟨abs x, ofCall_eq_ok.2 (absolute ▸ .absolute)⟩
  next other =>
    split at value
    next g known => exact ⟨call g x, ofCall_eq_ok.2 (.elementary other known)⟩
    next => exact absurd value.symm (Exact.of_ne_undefined v)

theorem exists_ofOperator (fits : op = .exp → ∀ x ∈ es.getLast?, ExponentsFit x)
    (value : op.apply (es.map (·.evaluate point)) = .of v) : ∃ e, ofOperator op es = .ok e := by
  have takes := takes_of_apply value
  rw [List.length_map] at takes
  cases op with
  | add | mul =>
    obtain ⟨first, rest, rfl⟩ := List.exists_cons_of_length_pos takes
    exact ⟨_, rfl⟩
  | sub | div =>
    obtain ⟨l, r, rfl⟩ := List.length_eq_two.1 takes
    exact ⟨_, rfl⟩
  | exp =>
    obtain ⟨l, r, rfl⟩ := List.length_eq_two.1 takes
    obtain ⟨a, c, base, exponent, -⟩ := Exact.power_eq_of.1 value
    exact exists_ofPower (fits rfl r rfl) exponent l
  | neg | root =>
    obtain ⟨x, rfl⟩ := List.length_eq_one_iff.1 takes
    exact ⟨_, rfl⟩
  | call f =>
    obtain ⟨x, rfl⟩ := List.length_eq_one_iff.1 takes
    exact exists_ofCall value x
  | _ => cases takes

omit [IsStrictOrderedRing K] in
theorem shapeFault?_of_apply {valueOf : String → Exact F.arithmetic} {operands : List Node}
    (value : op.apply (Node.values valueOf operands) = .of v) : shapeFault? op operands = none := by
  have takes := takes_of_apply value
  rw [length_values] at takes
  cases op with
  | add | mul =>
    obtain ⟨first, rest, rfl⟩ := List.exists_cons_of_length_pos takes
    rfl
  | neg =>
    obtain ⟨n, rfl⟩ := List.length_eq_one_iff.1 takes
    rfl
  | sub | div | exp | root => exact if_pos takes
  | call f =>
    obtain ⟨n, rfl⟩ := List.length_eq_one_iff.1 takes
    -- a row of arguments is no number
    cases n with
    | mk inner items =>
      refine if_pos ?_
      cases inner with
      | tuple =>
        obtain ⟨a, number⟩ :=
          defined_of_apply value _ (by rw [Node.values]; exact List.mem_singleton_self _)
        exact absurd number.symm (Exact.of_ne_undefined a)
      | _ => rfl
  | _ => cases takes

section Trees

variable {valueOf : String → Exact F.arithmetic} {operands : List Node}

omit [IsStrictOrderedRing K] in
theorem ofConstant_eq_ok {c : Constant} {e : Expr (Exact F.arithmetic)}
    (value : Node.value valueOf (.mk (.constant c) operands) = .of v) :
    ofConstant c = .ok e ↔ e = const (.of v) := by
  cases c with
  | number n =>
    rw [Node.value] at value
    rw [ofConstant, value]
    exact ⟨fun made => by cases made; rfl, fun same => by rw [same]⟩
  | text s =>
    rw [Node.value] at value
    · exact absurd value.symm (Exact.of_ne_undefined v)
    · intro n same
      cases same
    · intro s same
      cases same
  | truth b =>
    rw [Node.value] at value
    · exact absurd value.symm (Exact.of_ne_undefined v)
    · intro n same
      cases same
    · intro s same
      cases same

omit [IsStrictOrderedRing K] in
theorem map_evaluate_ofNodes
    (each : ∀ n ∈ operands, ∀ e, ofNode names n = .ok e → e.evaluate point = n.value valueOf)
    (made : ofNodes names operands = .ok es) :
    es.map (·.evaluate point) = Node.values valueOf operands := by
  induction operands generalizing es with
  | nil =>
    cases made
    rw [Node.values, List.map_nil]
  | cons last others ih =>
    obtain ⟨first, e, of_others, of_last, rfl⟩ := ofNodes_cons_eq_ok.1 made
    have earlier := ih (fun n member => each n (List.mem_cons_of_mem _ member)) of_others
    rw [Node.values, List.map_append, earlier, List.map_singleton,
      each last List.mem_cons_self e of_last]

omit [IsStrictOrderedRing K] in
theorem evaluate_ofNodes
    (each : ∀ n ∈ operands, ∀ v e, n.value valueOf = .of v → ofNode names n = .ok e →
      HasValue point e v)
    (defined : ∀ x ∈ Node.values valueOf operands, ∃ a, x = .of a)
    (made : ofNodes names operands = .ok es) :
    es.map (·.evaluate point) = Node.values valueOf operands := by
  refine map_evaluate_ofNodes (fun n member e of_n => ?_) made
  obtain ⟨a, value⟩ := defined _ (mem_values valueOf member)
  rw [value]
  exact each n member a e value of_n

omit [IsStrictOrderedRing K] in
theorem exists_ofNodes (each : ∀ n ∈ operands, ∃ e, ofNode names n = .ok e) :
    ∃ es, ofNodes names operands = .ok es := by
  induction operands with
  | nil => exact ⟨[], rfl⟩
  | cons last others ih =>
    obtain ⟨⟨e, of_last⟩, each⟩ := List.forall_mem_cons.1 each
    obtain ⟨first, of_others⟩ := ih each
    exact ⟨first ++ [e], ofNodes_cons_eq_ok.2 ⟨first, e, of_others, of_last, rfl⟩⟩

/-- The expression of a tree has the value of the tree, if those of its names have. -/
theorem hasValue_ofNode {n : Node} (fits : n.ExponentsFit names)
    (agrees : ∀ s a e, valueOf s = .of a → ofName names s = .ok e → HasValue point e a) :
    ∀ v e, n.value valueOf = .of v → ofNode names n = .ok e → HasValue point e v := by
  induction fits with
  | @mk op operands _ exponent ih =>
    intro v e value made
    obtain ⟨c, rfl⟩ | ⟨s, rfl⟩ | ⟨no_constant, no_name⟩ := leaf_cases op
    · rw [ofNode, ofConstant_eq_ok value] at made
      rw [made]
      rfl
    · rw [ofNode] at made
      rw [Node.value] at value
      exact agrees s v e value made
    · rw [value_of_operator valueOf no_constant no_name] at value
      obtain ⟨-, es, converted, joined⟩ := (ofNode_eq_ok no_constant no_name).1 made
      have values := evaluate_ofNodes ih (defined_of_apply value) converted
      rw [← values] at value
      refine hasValue_of_apply (fun power x last => ?_) value joined
      obtain ⟨n, first, own⟩ := getLast?_ofNodes converted x last
      exact exponent power n first x own

/-- A tree with a value becomes an expression, if its names do. -/
theorem exists_ofNode {n : Node} (fits : n.ExponentsFit names)
    (agrees : ∀ s a e, valueOf s = .of a → ofName names s = .ok e → HasValue point e a)
    (known : ∀ s a, valueOf s = .of a → ∃ e, ofName names s = .ok e) :
    ∀ v, n.value valueOf = .of v → ∃ e, ofNode names n = .ok e := by
  induction fits with
  | @mk op operands all exponent ih =>
    intro v value
    obtain ⟨c, rfl⟩ | ⟨s, rfl⟩ | ⟨no_constant, no_name⟩ := leaf_cases op
    · exact ⟨_, by rw [ofNode]; exact (ofConstant_eq_ok value).2 rfl⟩
    · rw [Node.value] at value
      rw [ofNode]
      exact known s v value
    · rw [value_of_operator valueOf no_constant no_name] at value
      have defined := defined_of_apply value
      obtain ⟨es, converted⟩ := exists_ofNodes fun n member => by
        obtain ⟨a, own⟩ := defined _ (mem_values valueOf member)
        exact ih n member a own
      have values := evaluate_ofNodes (fun n member => hasValue_ofNode (all n member) agrees)
        defined converted
      have shape := shapeFault?_of_apply value
      rw [← values] at value
      obtain ⟨e, joined⟩ := exists_ofOperator (fun power x last => by
        obtain ⟨n, first, own⟩ := getLast?_ofNodes converted x last
        exact exponent power n first x own) value
      exact ⟨e, (ofNode_eq_ok no_constant no_name).2 ⟨shape, es, converted, joined⟩⟩

end Trees

/-! ### Trees of readings -/

omit [IsStrictOrderedRing K] in
theorem hasValue_ofName {s : String} {a : K} {e : Expr (Exact F.arithmetic)}
    (value : nameValue names point s = .of a) (made : ofName names s = .ok e) :
    HasValue point e a := by
  rw [nameValue, made] at value
  exact value

omit [IsStrictOrderedRing K] in
theorem exists_ofName {s : String} {a : K} (value : nameValue names point s = .of a) :
    ∃ e, ofName names s = .ok e := by
  unfold nameValue at value
  split at value
  next e made => exact ⟨e, made⟩
  next => exact absurd value.symm (Exact.of_ne_undefined a)

theorem hasValue_of_reading {r : Reading} {e : Expr (Exact F.arithmetic)}
    (fits : r.ExponentsFit names) (value : r.value names point = .of v)
    (made : ofNode names r.node = .ok e) : HasValue point e v :=
  hasValue_ofNode fits.node (fun _ _ _ => hasValue_ofName) v e
    ((Reading.value_node r).trans value) made

end Values

end Expr

end Simultaneous
