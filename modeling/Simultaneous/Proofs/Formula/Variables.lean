import Simultaneous.Proofs.Formula.Operands

/-!
The variables that an operator tree reads. Names of constants and functions begin with a capital
letter, other names do not. Nodes are inserted along the last operands, so from left to right the
variables of a tree are those of the row of tokens that it was made of. No node gets more operands
than its operator takes.
-/

namespace Simultaneous.Formula

def isVariableName (n : String) : Bool := !n.toList.head?.any Char.isUpper

theorem isVariableName_constant {n : String} (constant : n ∈ constantNames) :
    isVariableName n = false := by
  revert n
  decide

theorem isVariableName_callable {f : String} (callable : IsCallable f) :
    isVariableName f = false := by
  rcases callable with elementary | rfl
  · obtain ⟨g, found⟩ := Option.isSome_iff_exists.1 elementary
    have same : g.name = f := by simpa using List.find?_some found
    rw [← same]
    cases g <;> decide
  · decide

def Token.variableName? : Token → Option String
  | .identifier n => if isVariableName n then some n else none
  | _ => none

def Operator.variableName? : Operator → Option String
  | .read n => if isVariableName n then some n else none
  | _ => none

mutual

def Node.variables : Node → List String
  | .mk op operands => op.variableName?.toList ++ Node.variablesOf operands

def Node.variablesOf : List Node → List String
  | [] => []
  | last :: others => Node.variablesOf others ++ Node.variables last

end

theorem Node.variables_leaf (op : Operator) : (Node.leaf op).variables = op.variableName?.toList := by
  rw [Node.leaf, Node.variables, Node.variablesOf, List.append_nil]

theorem Operator.variableName?_of_not_isLeaf {op : Operator} (no_leaf : op.isLeaf = false) :
    op.variableName? = none := by
  cases op <;> first | rfl | cases no_leaf

/-- A bracket or a node without operands yet; what is inserted is of this form. -/
def Node.IsLoose (n : Node) : Prop := n.op = .root ∨ n.operands = []

theorem Node.isLoose_leaf (op : Operator) : (Node.leaf op).IsLoose := .inr rfl

/-- An insertion adds the variables of the new node behind the others. -/
theorem Inserts.variables {node self r : Node} (inserts : Inserts node self r)
    (loose : node.IsLoose) : r.variables = self.variables ++ node.variables := by
  induction inserts with
  | first no_leaf => simp [Node.variables, Node.variablesOf]
  | beside _ => simp [Node.variables, Node.variablesOf]
  | inside _ _ ih => simp [Node.variables, Node.variablesOf, ih]
  | above _ _ no_leaf no_bracket =>
    have empty : node.operands = [] := loose.elim no_bracket id
    obtain ⟨op, operands⟩ := node
    obtain rfl : operands = [] := empty
    have none : op.variableName? = none := Operator.variableName?_of_not_isLeaf no_leaf
    simp [Node.variables, Node.variablesOf, Node.snoc, Node.op, Node.operands, none]

/-! ### The number of operands -/

inductive Node.IsBounded : Node → Prop
  | mk {op : Operator} {operands : List Node} :
      (∀ k, op.arity? = some k → operands.length ≤ k) → (∀ n ∈ operands, n.IsBounded) →
      (Node.mk op operands).IsBounded

theorem Node.isBounded_leaf (op : Operator) : (Node.leaf op).IsBounded :=
  .mk (fun _ _ => Nat.zero_le _) (by simp)

theorem Operator.one_le_of_not_isLeaf {op : Operator} {k : Nat} (no_leaf : op.isLeaf = false)
    (arity : op.arity? = some k) : 1 ≤ k := by
  rw [isLeaf, arity] at no_leaf
  have nonzero : k ≠ 0 := by simpa using no_leaf
  omega

theorem Inserts.isBounded {node self r : Node} (inserts : Inserts node self r)
    (loose : node.IsLoose) (own : node.IsBounded) (bounded : self.IsBounded) : r.IsBounded := by
  induction inserts with
  | first no_leaf =>
    exact .mk (fun k arity => Operator.one_le_of_not_isLeaf no_leaf arity) (by simpa using own)
  | @beside op last others lacking =>
    cases bounded with
    | mk few each =>
      refine .mk (fun k arity => ?_) (List.forall_mem_cons.2 ⟨own, each⟩)
      have le := few k arity
      have other : others.length + 1 ≠ k := fun same => lacking (same ▸ arity)
      simp only [List.length_cons] at le ⊢
      omega
  | inside _ _ ih =>
    cases bounded with
    | mk few each =>
      obtain ⟨first, others⟩ := List.forall_mem_cons.1 each
      exact .mk few (List.forall_mem_cons.2 ⟨ih first, others⟩)
  | above _ _ no_leaf no_bracket =>
    have empty : node.operands = [] := loose.elim no_bracket id
    obtain ⟨op, operands⟩ := node
    obtain rfl : operands = [] := empty
    cases bounded with
    | mk few each =>
      obtain ⟨first, others⟩ := List.forall_mem_cons.1 each
      have above : (Node.mk op [_]).IsBounded :=
        .mk (fun k arity => Operator.one_le_of_not_isLeaf no_leaf arity) (by simpa using first)
      exact .mk few (List.forall_mem_cons.2 ⟨above, others⟩)

/-! ### Rows of tokens -/

section Rows

variable {known : String → Prop} {strict : Prop} {next : Option Token} {t : Token}
variable {ts : List Token} {stack result : Stack} {afterOperand : Bool}

theorem variableName?_operator (plain : t.IsPlain)
    (follows : ∀ n, t = .identifier n → ∃ u, next = some u ∧ u.Joins known strict (some t)) :
    (t.operator afterOperand next).variableName? = t.variableName? := by
  cases t <;> try cases plain
  case identifier n =>
    obtain ⟨u, rfl, joins⟩ := follows n rfl
    rcases identifierOperator_cases joins with ⟨-, callable, op_eq⟩ | ⟨-, -, op_eq⟩
    · rw [Token.operator, op_eq, Token.variableName?, isVariableName_callable callable]
      rfl
    · rw [Token.operator, op_eq]
      rfl
  case minus => cases afterOperand <;> rfl
  all_goals rfl

theorem Takes.variables (takes : Takes afterOperand next t stack result)
    (brackets : ∀ n ∈ stack, n.op = .root)
    (own : (t.operator afterOperand next).variableName? = t.variableName?) :
    Node.variablesOf result = Node.variablesOf stack ++ t.variableName?.toList := by
  cases takes with
  | opened =>
    rw [Node.variablesOf, Node.variables_leaf]
    rfl
  | closed inserts =>
    have loose := brackets _ List.mem_cons_self
    simp [Node.variablesOf, inserts.variables (.inl loose), Token.variableName?]
  | operator _ _ inserts =>
    simp [Node.variablesOf, inserts.variables (Node.isLoose_leaf _), Node.variables_leaf, own]

theorem Takes.isBounded (takes : Takes afterOperand next t stack result)
    (brackets : ∀ n ∈ stack, n.op = .root) (bounded : ∀ n ∈ stack, n.IsBounded) :
    ∀ n ∈ result, n.IsBounded := by
  cases takes with
  | opened => exact List.forall_mem_cons.2 ⟨Node.isBounded_leaf _, bounded⟩
  | closed inserts =>
    obtain ⟨first, more⟩ := List.forall_mem_cons.1 bounded
    obtain ⟨lower, rest⟩ := List.forall_mem_cons.1 more
    have loose := brackets _ List.mem_cons_self
    exact List.forall_mem_cons.2 ⟨inserts.isBounded (.inl loose) first lower, rest⟩
  | operator _ _ inserts =>
    obtain ⟨lower, rest⟩ := List.forall_mem_cons.1 bounded
    exact List.forall_mem_cons.2
      ⟨inserts.isBounded (Node.isLoose_leaf _) (Node.isBounded_leaf _) lower, rest⟩

/-- The tree of a row reads the variables that the tokens name, in their order. -/
theorem variables_of_ofTokens {tree : Node} (joined : Joined known strict none ts)
    (closes : ∀ t ∈ ts.getLast?, t = .closer) (made : ofTokens ts = .ok tree) :
    tree.variables = ts.filterMap Token.variableName? ∧ tree.IsBounded := by
  obtain ⟨stack, taken, collapsed⟩ := ofTokens_eq_ok made
  have bracket : ∀ n ∈ [Node.leaf .root], n.op = .root := by simp [Node.leaf, Node.op]
  have start : Node.variablesOf [.leaf .root] ++ ts.filterMap Token.variableName? =
      ts.filterMap Token.variableName? := by
    rw [Node.variablesOf, Node.variablesOf, Node.variables_leaf]
    rfl
  obtain ⟨brackets, read, bounded⟩ := takeAll_induction
    (I := fun _ rest stack => Node.variablesOf stack ++ rest.filterMap Token.variableName? =
      ts.filterMap Token.variableName? ∧ ∀ n ∈ stack, n.IsBounded)
    (fun before t rest stack result joins follows takes brackets kept => by
      refine ⟨?_, takes.isBounded brackets kept.2⟩
      rw [takes.variables brackets (variableName?_operator joins.plain follows), ← kept.1,
        List.filterMap_cons]
      cases t.variableName? <;> simp)
    joined closes bracket ⟨start, by simpa using Node.isBounded_leaf .root⟩ taken
  obtain rfl := collapseTop_eq_ok brackets collapsed
  refine ⟨?_, bounded tree List.mem_cons_self⟩
  simpa [Node.variablesOf] using read

end Rows

end Simultaneous.Formula
