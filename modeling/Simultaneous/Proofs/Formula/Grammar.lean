import Mathlib
import Simultaneous.Formula.Tree

/-!
Rows of tokens as sums of products of signed powers. The grammar says how a row is read by the usual
precedence: a power binds tighter than a sign, a sign tighter than a product, a product tighter than
a sum, and operators of equal precedence group to the left; a minus that follows no operand is a
sign. The operator tree of a row that the grammar reads is the tree of its reading.
-/

namespace Simultaneous.Formula

open Decimal

/-! ### The grammar -/

inductive Binary where
  | add | sub | mul | div | exp
deriving DecidableEq

namespace Binary

def token : Binary → Token
  | add => .plus
  | sub => .minus
  | mul => .star
  | div => .slash
  | exp => .hat

def operator : Binary → Operator
  | add => .add
  | sub => .sub
  | mul => .mul
  | div => .div
  | exp => .exp

theorem endsOperand_token (op : Binary) : op.token.endsOperand = false := by
  cases op <;> rfl

end Binary

inductive Reading where
  | number (n : Numeral)
  | name (s : String)
  | call (f : String) (argument : Reading)
  | bracket (inner : Reading)
  | neg (inner : Reading)
  | binary (op : Binary) (l r : Reading)

/-- How tightly a part of a row holds together. An exponent may have signs of its own. -/
inductive Level where
  | sum | product | signed | power | exponent | operand
deriving DecidableEq

namespace Level

inductive Below : Level → Level → Prop
  | product : Below product sum
  | signed : Below signed product
  | power : Below power signed
  | operand : Below operand power
  | exponent : Below operand exponent

/-- Operators around a part of a row have a smaller precedence. -/
def room : Level → Nat
  | sum => 95
  | product => 100
  | signed | power => 120
  | exponent | operand => 190

def strength : Level → Nat
  | sum => 95
  | product => 100
  | signed | exponent => 110
  | power => 120
  | operand => 190

theorem Below.strength_le {tight loose : Level} (below : Below tight loose) :
    loose.strength ≤ tight.strength := by
  cases below <;> decide

theorem room_lt (l : Level) : l.room < 200 := by
  cases l <;> decide

theorem Below.room_le {tight loose : Level} (below : Below tight loose) :
    loose.room ≤ tight.room := by
  cases below <;> decide

end Level

namespace Binary

def left : Binary → Level
  | add | sub => .sum
  | mul | div => .product
  | exp => .power

def right : Binary → Level
  | add | sub => .product
  | mul | div => .signed
  | exp => .exponent

theorem room_left (op : Binary) : op.left.room = op.operator.precedence := by
  cases op <;> rfl

theorem strength_left (op : Binary) : op.left.strength = op.operator.precedence := by
  cases op <;> rfl

theorem precedence_lt_room_right (op : Binary) : op.operator.precedence < op.right.room := by
  cases op <;> decide

end Binary

inductive Reads : Level → List Token → Reading → Prop
  | number (n : Numeral) : Reads .operand [.number n] (.number n)
  | name (s : String) : Reads .operand [.identifier s] (.name s)
  | bracket {ts : List Token} {r : Reading} :
      Reads .sum ts r → Reads .operand (.opener :: (ts ++ [.closer])) (.bracket r)
  | call (f : String) {ts : List Token} {r : Reading} :
      Reads .sum ts r → Reads .operand (.identifier f :: .opener :: (ts ++ [.closer])) (.call f r)
  | sign {l : Level} {ts : List Token} {r : Reading} :
      l = .signed ∨ l = .exponent → Reads l ts r → Reads l (.minus :: ts) (.neg r)
  | binary (op : Binary) {ts us : List Token} {l r : Reading} :
      Reads op.left ts l → Reads op.right us r →
      Reads op.left (ts ++ op.token :: us) (.binary op l r)
  | lift {tight loose : Level} {ts : List Token} {r : Reading} :
      Level.Below tight loose → Reads tight ts r → Reads loose ts r

def Reading.node : Reading → Node
  | number n => .leaf (.constant (.number n))
  | name s => .leaf (.read s)
  | call f r => .mk (.call f) [.mk .root [r.node]]
  | bracket r => .mk .root [r.node]
  | neg r => .mk .neg [r.node]
  | binary op l r => .mk op.operator [r.node, l.node]

/-- The node of a reading holds together at least as tightly as its level. -/
theorem Reads.strength_le {l : Level} {ts : List Token} {r : Reading} (reads : Reads l ts r) :
    l.strength ≤ r.node.precedence := by
  induction reads with
  | number n => exact Nat.le_of_ble_eq_true rfl
  | name s => exact Nat.le_of_ble_eq_true rfl
  | bracket _ _ => exact Nat.le_of_ble_eq_true rfl
  | call f _ _ => exact Nat.le_of_ble_eq_true rfl
  | sign l_eq _ _ => rcases l_eq with rfl | rfl <;> exact Nat.le_refl 110
  | binary op _ _ _ _ => cases op <;> exact Nat.le_refl _
  | lift below _ ih => exact Nat.le_trans below.strength_le ih

/-! ### Trees with an open end -/

structure Slot where
  op : Operator
  others : List Node

namespace Slot

def IsOpen (f : Slot) : Prop := f.op.arity? = some (f.others.length + 1)

def close (f : Slot) (last : Node) : Node := .mk f.op (last :: f.others)

/-- The operators of a tree along its last operands, from the top, around what is put at the end. -/
def plug : List Slot → Node → Node
  | [], n => n
  | f :: fs, n => f.close (plug fs n)

def opened (f : Slot) : List Slot → Node
  | [] => .mk f.op f.others
  | g :: gs => f.close (opened g gs)

theorem plug_append (fs gs : List Slot) (n : Node) : plug (fs ++ gs) n = plug fs (plug gs n) := by
  induction fs with
  | nil => rfl
  | cons f fs ih => rw [List.cons_append, plug, plug, ih]

theorem opened_snoc (f g : Slot) (fs : List Slot) :
    opened f (fs ++ [g]) = plug (f :: fs) (.mk g.op g.others) := by
  induction fs generalizing f with
  | nil => rfl
  | cons h fs ih =>
    rw [List.cons_append, opened, ih]
    rfl

theorem op_opened (f : Slot) (fs : List Slot) : (opened f fs).op = f.op := by
  cases fs <;> rfl

theorem IsOpen.not_isLeaf {f : Slot} (is_open : f.IsOpen) : f.op.isLeaf = false := by
  unfold IsOpen at is_open
  rw [Operator.isLeaf, is_open, beq_eq_false_iff_ne]
  simp

def top : Slot := ⟨.root, []⟩

theorem isOpen_top : ∀ f ∈ [top], f.IsOpen := by
  intro f member
  rw [List.mem_singleton.1 member]
  rfl

end Slot

open Slot

/-- A node may go below an operator: its precedence is greater, it takes one operand on its right, or
the operator is that of the whole text. -/
def Fits (op : Operator) (node : Node) (atTop : Bool) : Prop :=
  op.precedence < node.precedence ∨ node.op.isUnary ∨ atTop

section Insert

variable {f : Slot} {last node : Node} {atTop : Bool}

theorem Fits.not_violated {op : Operator} (fits : Fits op node atTop) :
    (!(op.precedence < node.precedence || node.op.isUnary || atTop ||
      Node.groupRight op node.op)) = false := by
  rcases fits with lower | unary | top <;> simp [*]

theorem insert_open (is_open : f.IsOpen) (fits : Fits f.op node atTop) :
    (Node.mk f.op f.others).insert node atTop = .ok (f.close node) := by
  rw [Node.insert.eq_def]
  simp only [fits.not_violated, is_open.not_isLeaf, Bool.false_eq_true, if_false]
  obtain ⟨op, others⟩ := f
  cases others with
  | nil => rfl
  | cons last others =>
    have not_full : op.arity? ≠ some (others.length + 1) := by
      intro full
      have size := Option.some.inj (full.symm.trans is_open)
      simp at size
    simp only [not_full, if_false]
    rfl

theorem insert_close (is_open : f.IsOpen) (fits : Fits f.op node atTop)
    (deeper : last.precedence < node.precedence ∨ node.op.isUnary) :
    (f.close last).insert node atTop = (last.insert node false).map f.close := by
  have descends : (last.precedence < node.precedence || node.op.isUnary ||
      Node.groupRight last.op node.op) = true := by
    rcases deeper with lower | unary <;> simp [*]
  rw [close, Node.insert.eq_def]
  simp only [fits.not_violated, is_open.not_isLeaf, Bool.false_eq_true, if_false]
  rw [if_pos (show f.op.arity? = some (f.others.length + 1) from is_open), if_pos descends]
  rfl

/-- An operator takes the place of a last operand that holds together as tightly, and takes this
operand for its first. -/
theorem insert_above {op : Binary} (is_open : f.IsOpen) (fits : Fits f.op (.leaf op.operator) atTop)
    (tight : op.operator.precedence ≤ last.precedence) :
    (f.close last).insert (.leaf op.operator) atTop = .ok (f.close (.mk op.operator [last])) := by
  have unary : op.operator.isUnary = false := by cases op <;> rfl
  have left : op.operator.groupsRight = false := by cases op <;> rfl
  have node : op.operator.isLeaf = false := by cases op <;> rfl
  have no_root : (Node.leaf op.operator).isRoot = false := by cases op <;> rfl
  have stays : (last.precedence < (Node.leaf op.operator).precedence ||
      (Node.leaf op.operator).op.isUnary ||
      Node.groupRight last.op (Node.leaf op.operator).op) = false := by
    rw [decide_eq_false (Nat.not_lt.2 tight : ¬last.precedence < (Node.leaf op.operator).precedence)]
    simp [Node.groupRight, Node.leaf, Node.op, unary, left]
  have single : (f.op == .root && !f.others.isEmpty) = false := by
    by_cases root : f.op = .root
    · have arity : f.op.arity? = some (f.others.length + 1) := is_open
      rw [root] at arity
      have none_before : f.others = [] := by simpa [Operator.arity?] using arity
      rw [none_before]
      simp
    · simp [root]
  rw [close, Node.insert.eq_def]
  simp only [fits.not_violated, is_open.not_isLeaf, Bool.false_eq_true, if_false]
  rw [if_pos (show f.op.arity? = some (f.others.length + 1) from is_open), stays]
  simp only [Bool.false_eq_true, if_false, Node.displace, single, no_root, Bool.and_false,
    Bool.false_and]
  rw [if_neg (by simpa [Node.leaf, Node.op] using node)]
  rfl

end Insert

/-- An operand, a sign or a call goes to the open end of a tree. -/
theorem insert_opened {f : Slot} {fs : List Slot} {node : Node} {atTop : Bool}
    (are_open : ∀ g ∈ f :: fs, g.IsOpen)
    (inside : ∀ g ∈ fs, g.op.precedence < node.precedence ∨ node.op.isUnary)
    (fits : Fits f.op node atTop) :
    (opened f fs).insert node atTop = .ok (plug (f :: fs) node) := by
  induction fs generalizing f atTop with
  | nil => exact insert_open (are_open f List.mem_cons_self) fits
  | cons g gs ih =>
    have deeper := inside g List.mem_cons_self
    rw [opened, insert_close (are_open f List.mem_cons_self) fits
      (by rwa [Node.precedence, op_opened]), ih]
    · rfl
    · exact fun h member => are_open h (List.mem_cons_of_mem f member)
    · exact fun h member => inside h (List.mem_cons_of_mem g member)
    · exact deeper.imp_right .inl

theorem insert_plug {op : Binary} {f : Slot} {fs : List Slot} {n : Node} {atTop : Bool}
    (are_open : ∀ g ∈ f :: fs, g.IsOpen)
    (inside : ∀ g ∈ fs, g.op.precedence < op.operator.precedence)
    (fits : Fits f.op (.leaf op.operator) atTop) (tight : op.operator.precedence ≤ n.precedence) :
    (plug (f :: fs) n).insert (.leaf op.operator) atTop =
      .ok (opened f (fs ++ [⟨op.operator, [n]⟩])) := by
  rw [opened_snoc]
  induction fs generalizing f atTop with
  | nil => exact insert_above (are_open f List.mem_cons_self) fits tight
  | cons g gs ih =>
    have deeper := inside g List.mem_cons_self
    have lower : (plug (g :: gs) n).precedence < (Node.leaf op.operator).precedence := deeper
    rw [plug, insert_close (are_open f List.mem_cons_self) fits (.inl lower), ih]
    · rfl
    · exact fun h member => are_open h (List.mem_cons_of_mem f member)
    · exact fun h member => inside h (List.mem_cons_of_mem g member)
    · exact .inl deeper

/-! ### Reading rows -/

def stops : Option Token → Bool
  | none | some .closer | some .plus | some .minus | some .star | some .slash | some .hat => true
  | _ => false

theorem stops_token (op : Binary) : stops (some op.token) = true := by
  cases op <;> rfl

theorem identifierOperator_of_stops (name : String) {next : Option Token} (stop : stops next) :
    identifierOperator name next = .read name := by
  rcases next with _ | t
  · rfl
  · cases t <;> first | rfl | cases stop

theorem insertNode_of_root {tree node : Node} (no_row : node.op.isSequence = false)
    (root : tree.op = .root) (stack : Stack) :
    insertNode node (tree :: stack) = (tree.insert node true).map (· :: stack) := by
  rw [insertNode.eq_def]
  simp only [no_row, root, Bool.false_eq_true, if_false]
  rfl

section Take

variable {fs : List Slot} {stack : Stack} {n : Node} {t : Token} {next : Option Token}

theorem take_eq_insertNode (b : Bool) (no_bracket : t ≠ .opener ∧ t ≠ .closer) :
    take stack b t next = insertNode (.leaf (t.operator b next)) stack := by
  cases t <;> first | rfl | exact absurd rfl no_bracket.1 | exact absurd rfl no_bracket.2

theorem take_opened {op : Operator} (is_operator : t.operator false next = op)
    (no_bracket : t ≠ .opener ∧ t ≠ .closer) (no_row : op.isSequence = false)
    (are_open : ∀ g ∈ top :: fs, g.IsOpen)
    (inside : ∀ g ∈ fs, g.op.precedence < op.precedence ∨ op.isUnary) :
    take (opened top fs :: stack) false t next = .ok (plug (top :: fs) (.leaf op) :: stack) := by
  have inserted : (opened top fs).insert (.leaf op) true = .ok (plug (top :: fs) (.leaf op)) :=
    insert_opened are_open inside (.inr (.inr rfl))
  have no_row : (Node.leaf op).op.isSequence = false := no_row
  rw [take_eq_insertNode false no_bracket, is_operator, insertNode_of_root no_row (op_opened top fs),
    inserted]
  rfl

theorem take_plug {op : Binary} (are_open : ∀ g ∈ top :: fs, g.IsOpen)
    (inside : ∀ g ∈ fs, g.op.precedence < op.operator.precedence)
    (tight : op.operator.precedence ≤ n.precedence) :
    take (plug (top :: fs) n :: stack) true op.token next =
      .ok (opened top (fs ++ [⟨op.operator, [n]⟩]) :: stack) := by
  have no_bracket : op.token ≠ .opener ∧ op.token ≠ .closer := by cases op <;> decide
  have is_operator : op.token.operator true next = op.operator := by cases op <;> rfl
  have no_row : (Node.leaf op.operator).op.isSequence = false := by cases op <;> rfl
  rw [take_eq_insertNode true no_bracket, is_operator, insertNode_of_root no_row rfl,
    insert_plug are_open inside (.inr (.inr rfl)) tight]
  rfl

theorem take_closer {b : Bool} (are_open : ∀ g ∈ top :: fs, g.IsOpen)
    (inside : ∀ g ∈ fs, g.op.precedence < 200) :
    take (plug [top] n :: opened top fs :: stack) b .closer next =
      .ok (plug (top :: fs) (.mk .root [n]) :: stack) := by
  have collapsed : collapseTop (plug [top] n :: opened top fs :: stack) =
      .ok (.mk .root [n] :: opened top fs :: stack) := rfl
  have inserted : (opened top fs).insert (.mk .root [n]) true =
      .ok (plug (top :: fs) (.mk .root [n])) :=
    insert_opened are_open (fun g member => .inl (inside g member)) (.inr (.inr rfl))
  have waiting : ¬(plug [top] n :: opened top fs :: stack).length ≤ 1 := by simp
  rw [take, if_neg waiting, collapsed]
  simp only
  rw [insertNode_of_root rfl (op_opened top fs), inserted]
  rfl

end Take

theorem are_open_snoc {fs : List Slot} {f : Slot} (are_open : ∀ g ∈ top :: fs, g.IsOpen)
    (is_open : f.IsOpen) : ∀ g ∈ top :: (fs ++ [f]), g.IsOpen := by
  intro g member
  rw [← List.cons_append, List.mem_append, List.mem_singleton] at member
  rcases member with outer | rfl
  · exact are_open g outer
  · exact is_open

theorem inside_snoc {fs : List Slot} {f : Slot} {room bound : Nat} (room_le : room ≤ bound)
    (inside : ∀ g ∈ fs, g.op.precedence < room) (last : f.op.precedence < bound) :
    ∀ g ∈ fs ++ [f], g.op.precedence < bound := by
  intro g member
  rw [List.mem_append, List.mem_singleton] at member
  rcases member with outer | rfl
  · exact Nat.lt_of_lt_of_le (inside g outer) room_le
  · exact last

theorem inside_brackets {fs : List Slot} {l : Level} (inside : ∀ g ∈ fs, g.op.precedence < l.room) :
    ∀ g ∈ fs, g.op.precedence < 200 :=
  fun g member => Nat.lt_trans (inside g member) l.room_lt

theorem plug_snoc (fs : List Slot) (f : Slot) (n : Node) :
    plug (top :: (fs ++ [f])) n = plug (top :: fs) (f.close n) := by
  rw [← List.cons_append, plug_append]
  rfl

theorem takeAll_bracket {ts : List Token} {n : Node}
    (inner : ∀ {stack : Stack} {rest : List Token}, stops rest.head? →
      takeAll (opened top [] :: stack) false (ts ++ rest) = takeAll (plug [top] n :: stack) true rest)
    {fs : List Slot} (are_open : ∀ g ∈ top :: fs, g.IsOpen)
    (inside : ∀ g ∈ fs, g.op.precedence < 200) (stack : Stack) (b : Bool) (rest : List Token) :
    takeAll (opened top fs :: stack) b (.opener :: (ts ++ .closer :: rest)) =
      takeAll (plug (top :: fs) (.mk .root [n]) :: stack) true rest := by
  have opening : takeAll (opened top fs :: stack) b (.opener :: (ts ++ .closer :: rest)) =
      takeAll (opened top [] :: opened top fs :: stack) false (ts ++ .closer :: rest) := rfl
  rw [opening, inner rfl, takeAll, take_closer are_open inside]
  rfl

/-- Reading a part of a row puts the tree of its reading to the open end. -/
theorem takeAll_reads {l : Level} {ts : List Token} {r : Reading} (reads : Reads l ts r)
    {fs : List Slot} {stack : Stack} {rest : List Token} (are_open : ∀ g ∈ top :: fs, g.IsOpen)
    (inside : ∀ g ∈ fs, g.op.precedence < l.room) (stop : stops rest.head?) :
    takeAll (opened top fs :: stack) false (ts ++ rest) =
      takeAll (plug (top :: fs) r.node :: stack) true rest := by
  induction reads generalizing fs stack rest with
  | number n =>
    have taken : take (opened top fs :: stack) false (.number n) rest.head? =
        .ok (plug (top :: fs) (.leaf (.constant (.number n))) :: stack) :=
      take_opened rfl ⟨nofun, nofun⟩ rfl are_open fun g member => .inl (inside_brackets inside g member)
    rw [List.cons_append, takeAll, List.nil_append, taken]
    rfl
  | name s =>
    have taken : take (opened top fs :: stack) false (.identifier s) rest.head? =
        .ok (plug (top :: fs) (.leaf (.read s)) :: stack) :=
      take_opened (identifierOperator_of_stops s stop) ⟨nofun, nofun⟩ rfl are_open
        fun g member => .inl (inside_brackets inside g member)
    rw [List.cons_append, takeAll, List.nil_append, taken]
    rfl
  | @bracket ts r _ ih =>
    have inner {stack : Stack} {rest : List Token} (stop : stops rest.head?) :=
      @ih [] stack rest isOpen_top (by simp) stop
    rw [List.cons_append, List.append_assoc]
    exact takeAll_bracket inner are_open (inside_brackets inside) stack false rest
  | @call f ts r _ ih =>
    have inner {stack : Stack} {rest : List Token} (stop : stops rest.head?) :=
      @ih [] stack rest isOpen_top (by simp) stop
    have taken : take (opened top fs :: stack) false (.identifier f) (some .opener) =
        .ok (plug (top :: fs) (.leaf (.call f)) :: stack) :=
      take_opened rfl ⟨nofun, nofun⟩ rfl are_open fun g _ => .inr rfl
    have with_call : ∀ g ∈ top :: (fs ++ [⟨.call f, []⟩]), g.IsOpen := are_open_snoc are_open rfl
    have inside_call : ∀ g ∈ fs ++ [⟨.call f, []⟩], g.op.precedence < 200 :=
      inside_snoc (Nat.le_refl 200) (inside_brackets inside) (show 190 < 200 by decide)
    have argument := takeAll_bracket inner with_call inside_call stack true rest
    rw [opened_snoc, plug_snoc] at argument
    rw [List.cons_append, takeAll, List.cons_append, List.append_assoc, List.head?_cons, taken]
    exact argument
  | @sign l ts r l_eq _ ih =>
    have taken : take (opened top fs :: stack) false .minus (ts ++ rest).head? =
        .ok (plug (top :: fs) (.leaf .neg) :: stack) :=
      take_opened rfl ⟨nofun, nofun⟩ rfl are_open fun g _ => .inr rfl
    have with_sign : ∀ g ∈ top :: (fs ++ [⟨.neg, []⟩]), g.IsOpen := are_open_snoc are_open rfl
    have inside_sign : ∀ g ∈ fs ++ [⟨.neg, []⟩], g.op.precedence < l.room :=
      inside_snoc (Nat.le_refl _) inside (by rcases l_eq with rfl | rfl <;> decide)
    have signed := @ih _ stack _ with_sign inside_sign stop
    rw [opened_snoc, plug_snoc] at signed
    rw [List.cons_append, takeAll, taken]
    exact signed
  | @binary op ts us l r left _ ih_left ih_right =>
    have tight : op.operator.precedence ≤ l.node.precedence := by
      rw [← op.strength_left]
      exact left.strength_le
    have inside_op : ∀ g ∈ fs, g.op.precedence < op.operator.precedence := by
      rwa [op.room_left] at inside
    have with_op : ∀ g ∈ top :: (fs ++ [⟨op.operator, [l.node]⟩]), g.IsOpen :=
      are_open_snoc are_open (by cases op <;> rfl)
    have inside_right : ∀ g ∈ fs ++ [⟨op.operator, [l.node]⟩], g.op.precedence < op.right.room :=
      inside_snoc op.precedence_lt_room_right.le inside_op op.precedence_lt_room_right
    have read_left := @ih_left _ stack (op.token :: (us ++ rest)) are_open inside (stops_token op)
    have read_right := @ih_right _ stack _ with_op inside_right stop
    rw [plug_snoc] at read_right
    rw [List.append_assoc, List.cons_append, read_left, takeAll, take_plug are_open inside_op tight]
    simp only [op.endsOperand_token]
    exact read_right
  | lift tight _ ih =>
    exact ih are_open (fun g member => Nat.lt_of_lt_of_le (inside g member) tight.room_le) stop

/-- The operator tree of a row that the grammar reads. -/
theorem ofTokens_of_reads {ts : List Token} {r : Reading} (reads : Reads .sum ts r) :
    ofTokens ts = .ok (.mk .root [r.node]) := by
  have taken : takeAll [opened top []] false ts = .ok [plug [top] r.node] := by
    have all := @takeAll_reads _ _ _ reads [] [] [] isOpen_top (by simp) rfl
    rwa [List.append_nil] at all
  have started : takeAll [.leaf .root] false ts = .ok [plug [top] r.node] := taken
  rw [ofTokens, started]
  rfl

end Simultaneous.Formula
