import Simultaneous.Proofs.Formula.Cut
import Simultaneous.Proofs.Formula.Flat

/-!
Operands of operator trees. A row of tokens makes a tree whose operators are those of the tokens; and
where each operator of the row that joins two operands has one before it, every node of the tree has
just the operands that its operator takes. In between, one operand is missing: the last one, at the
end of the last operands.
-/

namespace Simultaneous.Formula

/-! ### Insertion -/

/-- What a successful insertion does: the new node becomes a last operand that was missing, or one
goes on along the last operand, or the last operand goes below the new node. -/
inductive Inserts (node : Node) : Node → Node → Prop
  | first {op : Operator} : op.isLeaf = false → Inserts node (.mk op []) (.mk op [node])
  | beside {op : Operator} {last : Node} {others : List Node} :
      op.arity? ≠ some (others.length + 1) →
      Inserts node (.mk op (last :: others)) (.mk op (node :: last :: others))
  | inside {op : Operator} {last new : Node} {others : List Node} :
      op.arity? = some (others.length + 1) → Inserts node last new →
      Inserts node (.mk op (last :: others)) (.mk op (new :: others))
  | above {op : Operator} {last : Node} {others : List Node} :
      op.arity? = some (others.length + 1) → node.op.isUnary = false → node.op.isLeaf = false →
      (node.op = .root → node.operands = []) →
      Inserts node (.mk op (last :: others)) (.mk op (node.snoc last :: others))

theorem displace_eq_ok {op : Operator} {last node r : Node} {others : List Node}
    (displaced : Node.displace op last others node = .ok r) :
    node.op.isLeaf = false ∧ (node.op = .root → node.operands = []) ∧
      r = .mk op (node.snoc last :: others) := by
  unfold Node.displace at displaced
  split at displaced
  next => cases displaced
  next no_leaf =>
    split at displaced
    next => cases displaced
    next =>
      split at displaced
      next => cases displaced
      next =>
        split at displaced
        next => cases displaced
        next no_bracket =>
          split at displaced
          next => cases displaced
          next =>
            cases displaced
            refine ⟨by simpa using no_leaf, fun bracket => ?_, rfl⟩
            simpa [Node.isRoot, bracket] using no_bracket

theorem inserts_of_insert {self node r : Node} {atTop : Bool}
    (inserted : self.insert node atTop = .ok r) : Inserts node self r := by
  fun_induction Node.insert self node atTop generalizing r with
  | case1 | case2 => cases inserted
  | case3 _ op _ no_leaf =>
    cases inserted
    exact .first (by simpa using no_leaf)
  | case4 _ op _ _ last others all _ ih =>
    cases deeper : last.insert node false with
    | error e =>
      rw [deeper] at inserted
      cases inserted
    | ok new =>
      rw [deeper] at inserted
      cases inserted
      exact .inside all (ih deeper)
  | case5 _ op _ _ last others all loose =>
    obtain ⟨no_leaf, no_bracket, rfl⟩ := displace_eq_ok inserted
    simp only [Bool.or_eq_true, not_or, Bool.not_eq_true] at loose
    exact .above all loose.1.2 no_leaf no_bracket
  | case6 _ op _ _ last others lacking =>
    cases inserted
    exact .beside lacking

theorem Inserts.op_eq {self node r : Node} (inserts : Inserts node self r) : r.op = self.op := by
  cases inserts <;> rfl

/-! ### Operators -/

inductive Node.All (P : Operator → Prop) : Node → Prop
  | mk {op : Operator} {operands : List Node} :
      P op → (∀ n ∈ operands, n.All P) → (Node.mk op operands).All P

section All

variable {P : Operator → Prop} {node self r : Node}

theorem Node.all_leaf {op : Operator} (h : P op) : (Node.leaf op).All P := .mk h (by simp)

theorem Node.All.snoc {last : Node} (all : node.All P) (own : last.All P) :
    (node.snoc last).All P := by
  cases all with
  | mk h each => exact .mk h (List.forall_mem_cons.2 ⟨own, each⟩)

theorem Inserts.all (inserts : Inserts node self r) (own : node.All P) (all : self.All P) :
    r.All P := by
  induction inserts with
  | first =>
    cases all with
    | mk h each => exact .mk h (by simpa using own)
  | beside =>
    cases all with
    | mk h each => exact .mk h (List.forall_mem_cons.2 ⟨own, each⟩)
  | inside _ _ ih =>
    cases all with
    | mk h each =>
      obtain ⟨first, others⟩ := List.forall_mem_cons.1 each
      exact .mk h (List.forall_mem_cons.2 ⟨ih first, others⟩)
  | above =>
    cases all with
    | mk h each =>
      obtain ⟨first, others⟩ := List.forall_mem_cons.1 each
      exact .mk h (List.forall_mem_cons.2 ⟨own.snoc first, others⟩)

end All

/-! ### Full nodes and nodes with a missing operand -/

inductive Node.IsFull : Node → Prop
  | mk {op : Operator} {operands : List Node} :
      op.arity? = some operands.length → (∀ n ∈ operands, n.IsFull) → (Node.mk op operands).IsFull

inductive Node.Awaits : Node → Prop
  | here {op : Operator} {operands : List Node} :
      op.arity? = some (operands.length + 1) → (∀ n ∈ operands, n.IsFull) →
      (Node.mk op operands).Awaits
  | inside {op : Operator} {last : Node} {others : List Node} :
      op.arity? = some (others.length + 1) → last.Awaits → (∀ n ∈ others, n.IsFull) →
      (Node.mk op (last :: others)).Awaits

section Full

variable {node self r : Node} {op : Operator}

theorem Node.isFull_leaf (leaf : op.arity? = some 0) : (Node.leaf op).IsFull := .mk leaf (by simp)

theorem Node.awaits_leaf (unary : op.arity? = some 1) : (Node.leaf op).Awaits :=
  .here unary (by simp)

theorem Operator.arity?_of_isUnary (unary : op.isUnary) : op.arity? = some 1 := by
  simp only [isUnary, Bool.and_eq_true, beq_iff_eq] at unary
  exact unary.1

/-- Nothing but an operator that joins two operands can go to a full node. -/
theorem Inserts.not_isFull (inserts : Inserts node self r)
    (no_join : node.op.isUnary ∨ node.op.isLeaf ∨ node.op = .root ∧ node.operands ≠ []) :
    ¬self.IsFull := by
  induction inserts with
  | first no_leaf =>
    rintro ⟨all, -⟩
    simp [Operator.isLeaf, all] at no_leaf
  | beside lacking =>
    rintro ⟨all, -⟩
    exact lacking all
  | inside _ _ ih =>
    rintro ⟨-, each⟩
    exact ih (each _ List.mem_cons_self)
  | above _ no_unary no_leaf no_bracket =>
    rcases no_join with unary | leaf | ⟨bracket, filled⟩
    · rw [no_unary] at unary
      cases unary
    · rw [no_leaf] at leaf
      cases leaf
    · exact absurd (no_bracket bracket) filled

theorem Inserts.isFull (inserts : Inserts node self r) (own : node.IsFull)
    (operand : node.op.isLeaf ∨ node.op = .root ∧ node.operands ≠ []) (awaits : self.Awaits) :
    r.IsFull := by
  induction inserts with
  | first =>
    cases awaits with
    | here all => exact .mk all (by simpa using own)
  | beside lacking =>
    cases awaits with
    | here all each => exact .mk all (List.forall_mem_cons.2 ⟨own, each⟩)
    | inside all => exact absurd all lacking
  | @inside op last new others all _ ih =>
    cases awaits with
    | here more =>
      rw [all, List.length_cons] at more
      simp at more
    | inside _ inner each => exact .mk all (List.forall_mem_cons.2 ⟨ih inner, each⟩)
  | above _ _ no_leaf no_bracket =>
    rcases operand with leaf | ⟨bracket, filled⟩
    · rw [no_leaf] at leaf
      cases leaf
    · exact absurd (no_bracket bracket) filled

theorem Inserts.awaits_unary (inserts : Inserts (.leaf op) self r) (unary : op.isUnary)
    (awaits : self.Awaits) : r.Awaits := by
  have own : (Node.leaf op).Awaits := Node.awaits_leaf (Operator.arity?_of_isUnary unary)
  induction inserts with
  | first =>
    cases awaits with
    | here all => exact .inside all own (by simp)
  | beside lacking =>
    cases awaits with
    | here all each => exact .inside all own each
    | inside all => exact absurd all lacking
  | @inside op last new others all _ ih =>
    cases awaits with
    | here more =>
      rw [all, List.length_cons] at more
      simp at more
    | inside _ inner each => exact .inside all (ih inner) each
  | above _ no_unary =>
    rw [show (Node.leaf op).op = op from rfl, unary] at no_unary
    cases no_unary

theorem Inserts.awaits_join (inserts : Inserts (.leaf op) self r) (join : op.arity? = some 2)
    (full : self.IsFull) : r.Awaits := by
  induction inserts with
  | first no_leaf =>
    obtain ⟨all, -⟩ := full
    simp [Operator.isLeaf, all] at no_leaf
  | beside lacking =>
    obtain ⟨all, -⟩ := full
    exact absurd all lacking
  | inside all _ ih =>
    obtain ⟨-, each⟩ := full
    obtain ⟨first, others⟩ := List.forall_mem_cons.1 each
    exact .inside all (ih first) others
  | above all =>
    obtain ⟨-, each⟩ := full
    obtain ⟨first, others⟩ := List.forall_mem_cons.1 each
    exact .inside all (.here join (by simpa [Node.leaf, Node.operands] using first)) others

end Full

/-! ### One token -/

inductive Takes (afterOperand : Bool) (next : Option Token) : Token → Stack → Stack → Prop
  | opened (stack : Stack) : Takes afterOperand next .opener stack (.leaf .root :: stack)
  | closed {n lower r : Node} {rest : Stack} :
      Inserts n lower r → Takes afterOperand next .closer (n :: lower :: rest) (r :: rest)
  | operator {t : Token} {lower r : Node} {rest : Stack} :
      t ≠ .opener → t ≠ .closer → Inserts (.leaf (t.operator afterOperand next)) lower r →
      Takes afterOperand next t (lower :: rest) (r :: rest)

theorem Operator.isSequence_root : Operator.root.isSequence = false := rfl

theorem Token.IsPlain.isSequence {t : Token} (plain : t.IsPlain) (afterOperand : Bool)
    (next : Option Token) : (t.operator afterOperand next).isSequence = false := by
  cases t <;> try cases plain
  case identifier name =>
    unfold operator identifierOperator
    simp only
    split
    next => rfl
    next => split <;> rfl
  case minus => cases afterOperand <;> rfl
  all_goals rfl

theorem insertNode_eq_ok {node lower : Node} {rest stack : Stack}
    (no_row : node.op.isSequence = false) (bracket : lower.op = .root)
    (inserted : insertNode node (lower :: rest) = .ok stack) :
    ∃ r, Inserts node lower r ∧ stack = r :: rest := by
  unfold insertNode at inserted
  simp only [no_row, bracket, Operator.isSequence_root, Bool.false_eq_true, if_false] at inserted
  cases own : lower.insert node true with
  | error e =>
    rw [own] at inserted
    cases inserted
  | ok r =>
    rw [own] at inserted
    cases inserted
    exact ⟨r, inserts_of_insert own, rfl⟩

theorem collapseTop_eq_ok {stack result : Stack} (brackets : ∀ n ∈ stack, n.op = .root)
    (collapsed : collapseTop stack = .ok result) : result = stack := by
  cases stack with
  | nil => cases collapsed
  | cons root rest =>
    have bracket : root.isRoot = true := beq_iff_eq.2 (brackets root List.mem_cons_self)
    cases rest with
    | nil =>
      rw [collapseTop, collapse, if_pos bracket] at collapsed
      split at collapsed <;> cases collapsed
      rfl
    | cons higher rest =>
      rw [collapseTop, collapse, if_pos bracket] at collapsed
      split at collapsed <;> cases collapsed
      rfl

theorem takes_of_take {stack result : Stack} {afterOperand : Bool} {t : Token}
    {next : Option Token} (brackets : ∀ n ∈ stack, n.op = .root) (plain : t.IsPlain)
    (taken : take stack afterOperand t next = .ok result) :
    Takes afterOperand next t stack result := by
  unfold take at taken
  split at taken
  next =>
    cases taken
    exact .opened stack
  next =>
    split at taken
    next => cases taken
    next =>
      split at taken
      next => cases taken
      next => cases taken
      next node rest collapsed =>
        obtain rfl := collapseTop_eq_ok brackets collapsed
        cases rest with
        | nil => cases taken
        | cons lower rest =>
          have bracket : node.op = .root := brackets node List.mem_cons_self
          have lower_bracket : lower.op = .root := brackets lower (by simp)
          obtain ⟨r, inserts, rfl⟩ := insertNode_eq_ok
            (bracket ▸ Operator.isSequence_root) lower_bracket taken
          exact .closed inserts
  next no_opener no_closer =>
    cases stack with
    | nil => cases taken
    | cons lower rest =>
      have no_row : (Node.leaf (t.operator afterOperand next)).op.isSequence = false :=
        plain.isSequence afterOperand next
      obtain ⟨r, inserts, rfl⟩ :=
        insertNode_eq_ok no_row (brackets lower List.mem_cons_self) taken
      exact .operator no_opener no_closer inserts

theorem Takes.brackets {stack result : Stack} {afterOperand : Bool} {t : Token}
    {next : Option Token} (takes : Takes afterOperand next t stack result)
    (brackets : ∀ n ∈ stack, n.op = .root) : ∀ n ∈ result, n.op = .root := by
  cases takes with
  | opened => exact List.forall_mem_cons.2 ⟨rfl, brackets⟩
  | closed inserts =>
    obtain ⟨-, lower, rest⟩ : _ ∧ _ ∧ _ := by simpa using brackets
    exact List.forall_mem_cons.2 ⟨inserts.op_eq.trans lower, rest⟩
  | operator _ _ inserts =>
    obtain ⟨lower, rest⟩ := List.forall_mem_cons.1 brackets
    exact List.forall_mem_cons.2 ⟨inserts.op_eq.trans lower, rest⟩

/-! ### Rows of tokens -/

/-- What may stand next to each other in the text of an accepted line. Names that do not stand before
a bracket are known, others are functions; a bracket is closed after an operand; and if `strict`
holds, an operator that joins two operands stands after one. -/
structure Token.Joins (known : String → Prop) (strict : Prop) (before : Option Token) (t : Token) :
    Prop where
  plain : t.IsPlain
  apart : before.any isLeaf → t.isLeaf = false
  no_comment : before = some .slash → t ≠ .slash ∧ t ≠ .star
  called : ∀ n, before = some (.identifier n) → t = .opener → IsCallable n
  read : ∀ n, before = some (.identifier n) → t ≠ .opener → known n
  closes : t = .closer → before.any endsOperand
  operates : strict → t ∈ [.plus, .star, .slash, .hat] → before.any endsOperand

def Joined (known : String → Prop) (strict : Prop) : Option Token → List Token → Prop
  | _, [] => True
  | before, t :: rest => t.Joins known strict before ∧ Joined known strict (some t) rest

theorem Joined.touches {known : String → Prop} {strict : Prop} {before : Option Token}
    {ts : List Token} (joined : Joined known strict before ts) : ts.IsChain Token.Touches := by
  induction ts generalizing before with
  | nil => exact .nil
  | cons t rest ih =>
    refine List.isChain_cons.2 ⟨fun u head => ?_, ih joined.2⟩
    obtain ⟨more, rfl⟩ := List.head?_eq_some_iff.1 head
    obtain ⟨joins, -⟩ := joined.2
    exact ⟨joins.apart, fun same => joins.no_comment (congrArg some same)⟩

/-- Each name of a row is that of a function before a bracket, or is known. -/
def Resolved (known : String → Prop) (ts : List Token) : Prop :=
  ∀ front n back, ts = front ++ .identifier n :: back →
    (back.head? = some .opener ∧ IsCallable n) ∨ (back.head? ≠ some .opener ∧ known n)

theorem Joined.resolved {known : String → Prop} {strict : Prop} {before : Option Token}
    {ts : List Token} (joined : Joined known strict before ts)
    (closes : ts.getLast? = some .closer) : Resolved known ts := by
  rintro front n back rfl
  induction front generalizing before with
  | nil =>
    cases back with
    | nil => cases closes
    | cons u more =>
      obtain ⟨-, joins, -⟩ := joined
      by_cases opener : u = .opener
      · exact .inl ⟨congrArg some opener, joins.called n rfl opener⟩
      · exact .inr ⟨mt Option.some.inj opener, joins.read n rfl opener⟩
  | cons t front ih =>
    refine ih joined.2 ?_
    rwa [List.cons_append, List.getLast?_cons_of_ne_nil (by simp)] at closes

def Operator.IsKnown (known : String → Prop) : Operator → Prop
  | .read n => known n
  | .write _ => False
  | .call f => IsCallable f
  | _ => True

section Rows

variable {known : String → Prop} {strict : Prop} {before next : Option Token} {t : Token}
variable {ts : List Token} {stack result : Stack} {afterOperand : Bool}

theorem identifierOperator_cases {n : String} {u : Token}
    (joins : u.Joins known strict (some (.identifier n))) :
    (u = .opener ∧ IsCallable n ∧ identifierOperator n (some u) = .call n) ∨
      (u ≠ .opener ∧ known n ∧ identifierOperator n (some u) = .read n) := by
  have no_assignment : u.isAssignment = false := by
    have plain := joins.plain
    cases u <;> first | rfl | cases plain
  by_cases opener : u = .opener
  · subst opener
    exact .inl ⟨rfl, joins.called n rfl rfl, rfl⟩
  · have apart := joins.apart rfl
    simp only [Token.isLeaf, Bool.or_eq_false_iff] at apart
    refine .inr ⟨opener, joins.read n rfl opener, ?_⟩
    simp [identifierOperator, no_assignment, opener, apart]

theorem Takes.all {P : Operator → Prop} (takes : Takes afterOperand next t stack result)
    (root : P .root) (own : t ≠ .opener → t ≠ .closer → P (t.operator afterOperand next))
    (all : ∀ n ∈ stack, n.All P) : ∀ n ∈ result, n.All P := by
  cases takes with
  | opened => exact List.forall_mem_cons.2 ⟨Node.all_leaf root, all⟩
  | closed inserts =>
    obtain ⟨first, more⟩ := List.forall_mem_cons.1 all
    obtain ⟨lower, rest⟩ := List.forall_mem_cons.1 more
    exact List.forall_mem_cons.2 ⟨inserts.all first lower, rest⟩
  | operator no_opener no_closer inserts =>
    obtain ⟨lower, rest⟩ := List.forall_mem_cons.1 all
    exact List.forall_mem_cons.2
      ⟨inserts.all (Node.all_leaf (own no_opener no_closer)) lower, rest⟩

theorem isKnown_operator (plain : t.IsPlain)
    (follows : ∀ n, t = .identifier n → ∃ u, next = some u ∧ u.Joins known strict (some t)) :
    (t.operator afterOperand next).IsKnown known := by
  cases t <;> try cases plain
  case identifier n =>
    obtain ⟨u, rfl, joins⟩ := follows n rfl
    rcases identifierOperator_cases joins with ⟨-, callable, op_eq⟩ | ⟨-, is_known, op_eq⟩
    · rw [Token.operator, op_eq]
      exact callable
    · rw [Token.operator, op_eq]
      exact is_known
  case minus => cases afterOperand <;> trivial
  all_goals trivial

def Expects (before next : Option Token) : Prop :=
  before.any Token.endsOperand = false ∨ before.any Token.isIdentifier ∧ next = some .opener

theorem expects_of_not_endsOperand (begins : t.endsOperand = false) :
    Expects (some t) next := .inl begins

theorem not_expects (ends : before.any Token.endsOperand)
    (no_call : before.any Token.isIdentifier → next ≠ some .opener) : ¬Expects before next := by
  rintro (begins | ⟨name, opener⟩)
  · rw [begins] at ends
    cases ends
  · exact no_call name opener

/-- The innermost bracket misses an operand just if one comes next. -/
structure Pending (before next : Option Token) (stack : Stack) : Prop where
  brackets : ∀ n ∈ stack, n.op = .root
  awaits : Expects before next → ∀ n ∈ stack.head?, n.Awaits
  full : ¬Expects before next → ∀ n ∈ stack.head?, n.IsFull
  others : ∀ n ∈ stack.tail, n.Awaits ∨ n.IsFull

namespace Pending

theorem each (pending : Pending before next stack) : ∀ n ∈ stack, n.Awaits ∨ n.IsFull := by
  cases stack with
  | nil => nofun
  | cons top rest =>
    refine List.forall_mem_cons.2 ⟨?_, pending.others⟩
    by_cases expects : Expects before next
    · exact .inl (pending.awaits expects top rfl)
    · exact .inr (pending.full expects top rfl)

theorem of_awaits {top : Node} {rest : Stack} (brackets : ∀ n ∈ top :: rest, n.op = .root)
    (expects : Expects before next) (awaits : top.Awaits)
    (others : ∀ n ∈ rest, n.Awaits ∨ n.IsFull) : Pending before next (top :: rest) where
  brackets := brackets
  awaits _ n first := by
    cases first
    exact awaits
  full none := absurd expects none
  others := others

theorem of_isFull {top : Node} {rest : Stack} (brackets : ∀ n ∈ top :: rest, n.op = .root)
    (none : ¬Expects before next) (full : top.IsFull)
    (others : ∀ n ∈ rest, n.Awaits ∨ n.IsFull) : Pending before next (top :: rest) where
  brackets := brackets
  awaits expects := absurd expects none
  full _ n first := by
    cases first
    exact full
  others := others

variable {lower r : Node} {rest : Stack} {op : Operator}

theorem operand (pending : Pending before (some t) (lower :: rest))
    (brackets : ∀ n ∈ r :: rest, n.op = .root) (inserts : Inserts (.leaf op) lower r)
    (leaf : op.arity? = some 0) (ends : t.endsOperand)
    (no_call : t.isIdentifier → next ≠ some .opener) :
    Pending (some t) next (r :: rest) := by
  have is_leaf : op.isLeaf := by simp [Operator.isLeaf, leaf]
  by_cases expects : Expects before (some t)
  · have awaits := pending.awaits expects lower rfl
    exact of_isFull brackets (not_expects ends no_call)
      (inserts.isFull (Node.isFull_leaf leaf) (.inl is_leaf) awaits) pending.others
  · exact absurd (pending.full expects lower rfl) (inserts.not_isFull (.inr (.inl is_leaf)))

theorem unary (pending : Pending before (some t) (lower :: rest))
    (brackets : ∀ n ∈ r :: rest, n.op = .root) (inserts : Inserts (.leaf op) lower r)
    (unary : op.isUnary) (later : Expects (some t) next) : Pending (some t) next (r :: rest) := by
  by_cases expects : Expects before (some t)
  · exact of_awaits brackets later (inserts.awaits_unary unary (pending.awaits expects lower rfl))
      pending.others
  · exact absurd (pending.full expects lower rfl) (inserts.not_isFull (.inl unary))

theorem join (pending : Pending before (some t) (lower :: rest))
    (brackets : ∀ n ∈ r :: rest, n.op = .root) (inserts : Inserts (.leaf op) lower r)
    (two : op.arity? = some 2) (after : before.any Token.endsOperand) (no_opener : t ≠ .opener)
    (begins : t.endsOperand = false) : Pending (some t) next (r :: rest) := by
  have full := pending.full (not_expects after fun _ => by simpa using no_opener) lower rfl
  exact of_awaits brackets (expects_of_not_endsOperand begins) (inserts.awaits_join two full)
    pending.others

end Pending

theorem Takes.pending (takes : Takes (before.any Token.endsOperand) next t stack result)
    (pending : Pending before (some t) stack) (holds : strict)
    (joins : t.Joins known strict before)
    (follows : ∀ n, t = .identifier n → ∃ u, next = some u ∧ u.Joins known strict (some t)) :
    Pending (some t) next result := by
  have brackets := takes.brackets pending.brackets
  cases takes with
  | opened =>
    exact .of_awaits brackets (expects_of_not_endsOperand rfl) (Node.awaits_leaf rfl) pending.each
  | @closed n lower r rest inserts =>
    have ends : ¬Expects before (some .closer) := not_expects (joins.closes rfl) (by simp)
    have own := pending.full ends n rfl
    have bracket : n.op = .root := pending.brackets n List.mem_cons_self
    have filled : n.operands ≠ [] := by
      cases own with
      | @mk op operands all _ =>
        rintro rfl
        rw [show op = Operator.root from bracket] at all
        cases all
    obtain ⟨below, rest_each⟩ := List.forall_mem_cons.1 pending.others
    rcases below with awaits | full
    · exact .of_isFull brackets (not_expects rfl nofun)
        (inserts.isFull own (.inr ⟨bracket, filled⟩) awaits) rest_each
    · exact absurd full (inserts.not_isFull (.inr (.inr ⟨bracket, filled⟩)))
  | operator no_opener no_closer inserts =>
    have plain := joins.plain
    cases t with
    | number _ | truth _ => exact pending.operand brackets inserts rfl rfl nofun
    | identifier n =>
      obtain ⟨u, rfl, joins⟩ := follows n rfl
      rcases identifierOperator_cases joins with ⟨rfl, -, op_eq⟩ | ⟨no_bracket, -, op_eq⟩
      · rw [Token.operator, op_eq] at inserts
        exact pending.unary brackets inserts rfl (.inr ⟨rfl, rfl⟩)
      · rw [Token.operator, op_eq] at inserts
        exact pending.operand brackets inserts rfl rfl fun _ => by simpa using no_bracket
    | opener => exact absurd rfl no_opener
    | closer => exact absurd rfl no_closer
    | minus =>
      cases after : before.any Token.endsOperand with
      | false =>
        rw [after] at inserts
        exact pending.unary brackets inserts rfl (.inl rfl)
      | true =>
        rw [after] at inserts
        exact pending.join brackets inserts rfl after no_opener rfl
    | not => exact pending.unary brackets inserts rfl (.inl rfl)
    | plus | star | slash | hat =>
      exact pending.join brackets inserts rfl (joins.operates holds (by simp)) no_opener rfl
    | _ => exact plain.elim

/-- What one token keeps, with the tokens still to be taken, a row up to a closing bracket keeps. -/
theorem takeAll_induction {I : Option Token → List Token → Stack → Prop}
    (step : ∀ before t rest stack result, t.Joins known strict before →
      (∀ n, t = .identifier n → ∃ u, rest.head? = some u ∧ u.Joins known strict (some t)) →
      Takes (before.any Token.endsOperand) rest.head? t stack result →
      (∀ n ∈ stack, n.op = .root) → I before (t :: rest) stack → I (some t) rest result)
    (joined : Joined known strict before ts) (closes : ∀ t ∈ ts.getLast?, t = .closer)
    (brackets : ∀ n ∈ stack, n.op = .root) (start : I before ts stack)
    (taken : takeAll stack (before.any Token.endsOperand) ts = .ok result) :
    (∀ n ∈ result, n.op = .root) ∧ I (ts.getLast?.or before) [] result := by
  induction ts generalizing before stack with
  | nil =>
    cases taken
    exact ⟨brackets, start⟩
  | cons t rest ih =>
    rw [takeAll] at taken
    split at taken
    next => cases taken
    next one taken_one =>
      have takes := takes_of_take brackets joined.1.plain taken_one
      have follows (n : String) (name : t = .identifier n) :
          ∃ u, rest.head? = some u ∧ u.Joins known strict (some t) := by
        cases rest with
        | nil =>
          rw [name] at closes
          cases closes _ rfl
        | cons u more => exact ⟨u, rfl, joined.2.1⟩
      have closes_rest : ∀ u ∈ rest.getLast?, u = .closer := by
        intro u last
        refine closes u ?_
        rw [List.getLast?_cons, last]
        rfl
      obtain ⟨brackets, later⟩ := ih joined.2 closes_rest (takes.brackets brackets)
        (step before t rest stack one joined.1 follows takes brackets start) taken
      refine ⟨brackets, ?_⟩
      rw [List.getLast?_cons, Option.some_or]
      cases last : rest.getLast? <;> rw [last] at later <;> exact later

theorem ofTokens_eq_ok {tree : Node} (made : ofTokens ts = .ok tree) :
    ∃ stack, takeAll [.leaf .root] false ts = .ok stack ∧ collapseTop stack = .ok [tree] := by
  unfold ofTokens at made
  split at made
  next => cases made
  next stack taken =>
    split at made
    next => cases made
    next collapsed =>
      cases made
      exact ⟨stack, taken, collapsed⟩
    next => cases made
    next => cases made

theorem all_of_ofTokens {tree : Node} (joined : Joined known strict none ts)
    (closes : ∀ t ∈ ts.getLast?, t = .closer) (made : ofTokens ts = .ok tree) :
    tree.All (Operator.IsKnown known) := by
  obtain ⟨stack, taken, collapsed⟩ := ofTokens_eq_ok made
  have bracket : ∀ n ∈ [Node.leaf .root], n.op = .root := by simp [Node.leaf, Node.op]
  have root : (Node.leaf .root).All (Operator.IsKnown known) := Node.all_leaf trivial
  have start : ∀ n ∈ [Node.leaf .root], n.All (Operator.IsKnown known) := by simpa using root
  obtain ⟨brackets, all⟩ := takeAll_induction
    (I := fun _ _ stack => ∀ n ∈ stack, n.All (Operator.IsKnown known))
    (fun _ _ _ _ _ joins follows takes _ all =>
      takes.all trivial (fun _ _ => isKnown_operator joins.plain follows) all)
    joined closes bracket start taken
  obtain rfl := collapseTop_eq_ok brackets collapsed
  exact all tree List.mem_cons_self

/-- The tree of a row in which each operator that joins two operands stands after one is full. -/
theorem isFull_of_ofTokens {tree : Node} (joined : Joined known strict none ts) (holds : strict)
    (closes : ts.getLast? = some .closer) (made : ofTokens ts = .ok tree) : tree.IsFull := by
  obtain ⟨stack, taken, collapsed⟩ := ofTokens_eq_ok made
  have bracket : ∀ n ∈ [Node.leaf .root], n.op = .root := by simp [Node.leaf, Node.op]
  have start : Pending none ts.head? [.leaf .root] :=
    .of_awaits bracket (.inl rfl) (Node.awaits_leaf rfl) (by simp)
  have last : ∀ t ∈ ts.getLast?, t = .closer := by
    rw [closes]
    simp
  obtain ⟨brackets, pending⟩ := takeAll_induction
    (I := fun before rest stack => Pending before rest.head? stack)
    (fun _ _ _ _ _ joins follows takes _ pending => takes.pending pending holds joins follows)
    joined last bracket start taken
  obtain rfl := collapseTop_eq_ok brackets collapsed
  rw [closes] at pending
  exact pending.full (not_expects rfl (by simp [Token.isIdentifier])) tree rfl

end Rows

end Simultaneous.Formula
