import Simultaneous.Proofs.Formula.Operands

/-!
Round brackets. In a text they are nested if each closes one that is open before it and none stays
open; the tokens that the text is written with are nested then, too. While such a row is read, one
unfinished node stands for the whole text and one for each open bracket. So whatever else is wrong
with the row, no bracket of it is reported.
-/

namespace Simultaneous

def FormulaError.IsUnmatched (e : FormulaError) : Prop :=
  e = .unmatchedOpener ∨ e = .unmatchedCloser

namespace Formula

/-! ### Texts -/

def bracketMarks : List Char := ['(', ')', '[', ']']

/-- A text with round brackets only goes on after some open ones, closes none but those and its own,
and leaves some open. -/
inductive Nests : Nat → List Char → Nat → Prop
  | nil {d : Nat} : Nests d [] d
  | opener {d e : Nat} {s : List Char} : Nests (d + 1) s e → Nests d ('(' :: s) e
  | closer {d e : Nat} {s : List Char} : Nests d s e → Nests (d + 1) (')' :: s) e
  | other {d e : Nat} {c : Char} {s : List Char} :
      c ∉ bracketMarks → Nests d s e → Nests d (c :: s) e

structure IsNested (s : List Char) : Prop where
  round : '[' ∉ s ∧ ']' ∉ s
  front : ∀ front, front <+: s → front.count ')' ≤ front.count '('
  total : s.count ')' = s.count '('

namespace Nests

variable {d e f : Nat} {s t w : List Char}

theorem append (front : Nests d s e) (back : Nests e t f) : Nests d (s ++ t) f := by
  induction front with
  | nil => exact back
  | opener _ ih => exact .opener (ih back)
  | closer _ ih => exact .closer (ih back)
  | other plain _ ih => exact .other plain (ih back)

theorem of_plain (plain : ∀ c ∈ w, c ∉ bracketMarks) : Nests d w d := by
  induction w with
  | nil => exact .nil
  | cons c w ih =>
    obtain ⟨first, others⟩ := List.forall_mem_cons.1 plain
    exact .other first (ih others)

theorem drop (nests : Nests d (w ++ s) e) (plain : ∀ c ∈ w, c ∉ bracketMarks) : Nests d s e := by
  induction w with
  | nil => exact nests
  | cons c w ih =>
    obtain ⟨first, others⟩ := List.forall_mem_cons.1 plain
    cases nests with
    | opener | closer => exact absurd (by decide) first
    | other _ nests => exact ih nests others

theorem round (nests : Nests d s e) : '[' ∉ s ∧ ']' ∉ s := by
  induction nests with
  | nil => simp
  | opener _ ih | closer _ ih => simpa using ih
  | other plain _ ih =>
    simp only [bracketMarks, List.mem_cons, List.not_mem_nil, or_false, not_or] at plain
    simp only [List.mem_cons, not_or]
    exact ⟨⟨Ne.symm plain.2.2.1, ih.1⟩, Ne.symm plain.2.2.2, ih.2⟩

theorem of_append (nests : Nests d (s ++ t) e) : ∃ f, Nests d s f ∧ Nests f t e := by
  induction s generalizing d with
  | nil => exact ⟨d, .nil, nests⟩
  | cons c s ih =>
    cases nests with
    | opener nests =>
      obtain ⟨f, front, back⟩ := ih nests
      exact ⟨f, .opener front, back⟩
    | closer nests =>
      obtain ⟨f, front, back⟩ := ih nests
      exact ⟨f, .closer front, back⟩
    | other plain nests =>
      obtain ⟨f, front, back⟩ := ih nests
      exact ⟨f, .other plain front, back⟩

theorem count (nests : Nests d s e) : e + s.count ')' = d + s.count '(' := by
  induction nests with
  | nil => rfl
  | opener _ ih | closer _ ih =>
    simp only [List.count_cons, beq_iff_eq, if_true, if_false, Char.reduceEq] at ih ⊢
    omega
  | other plain _ ih =>
    simp only [bracketMarks, List.mem_cons, List.not_mem_nil, or_false, not_or] at plain
    simpa [List.count_cons, plain] using ih

theorem isNested (nests : Nests 0 s 0) : IsNested s where
  round := nests.round
  front := by
    rintro front ⟨back, rfl⟩
    obtain ⟨f, opened, -⟩ := nests.of_append
    have counted := opened.count
    omega
  total := by simpa using nests.count

end Nests

/-! ### Rows -/

inductive Balances : Nat → List Token → Prop
  | nil : Balances 0 []
  | opener {d : Nat} {ts : List Token} : Balances (d + 1) ts → Balances d (.opener :: ts)
  | closer {d : Nat} {ts : List Token} : Balances d ts → Balances (d + 1) (.closer :: ts)
  | other {d : Nat} {t : Token} {ts : List Token} :
      t ≠ .opener → t ≠ .closer → Balances d ts → Balances d (t :: ts)

theorem single?_eq_bracket {c : Char} {t : Token} (single : single? c = some t) :
    (t = .opener → c = '(') ∧ (t = .closer → c = ')') := by
  unfold single? at single
  split at single <;> cases single <;> simp

theorem IsLeafText.no_bracket {w : List Char} {t : Token} (text : IsLeafText t w) :
    ∀ c ∈ w, c ≠ '(' ∧ c ≠ ')' := by
  intro c member
  have no_mark := (text.text c member).1
  constructor <;> rintro rfl <;> cases no_mark

theorem Written.balances {s : List Char} {ts : List Token} (written : Written s ts) {d : Nat}
    (nests : Nests d s 0) : Balances d ts := by
  induction written generalizing d with
  | nil =>
    cases nests
    exact .nil
  | blank _ ih => exact ih (nests.drop (w := [' ']) (by simp [bracketMarks]))
  | @leaf w s t ts text _ ih =>
    have plain : ∀ c ∈ w, c ∉ bracketMarks := by
      intro c member
      obtain ⟨no_opener, no_closer⟩ := text.no_bracket c member
      obtain ⟨no_square, no_square'⟩ := nests.round
      have inside : c ∈ w ++ s := List.mem_append_left s member
      simp only [bracketMarks, List.mem_cons, List.not_mem_nil, or_false, not_or]
      refine ⟨no_opener, no_closer, ?_, ?_⟩ <;> rintro rfl <;> contradiction
    have no_mark : t ≠ .opener ∧ t ≠ .closer := by
      constructor <;> rintro rfl <;> cases text.leaf
    exact .other no_mark.1 no_mark.2 (ih (nests.drop plain))
  | @mark c t s ts single _ _ ih =>
    cases nests with
    | opener nests =>
      cases single
      exact .opener (ih nests)
    | closer nests =>
      cases single
      exact .closer (ih nests)
    | other plain nests =>
      obtain ⟨opener, closer⟩ := single?_eq_bracket single
      refine .other (fun same => ?_) (fun same => ?_) (ih nests)
      · exact plain (opener same ▸ by decide)
      · exact plain (closer same ▸ by decide)

/-! ### Operator trees -/

section Errors

variable {node self lower : Node} {stack rest : Stack} {e : FormulaError} {t : Token}
variable {next : Option Token} {afterOperand : Bool}

theorem insert_error {atTop : Bool} (failed : self.insert node atTop = .error e) :
    ¬e.IsUnmatched := by
  have other {e : FormulaError} (kind : e ∈ [.appendedToLeaf, .precedenceViolation, .missingOperator]) :
      ¬e.IsUnmatched := by
    rintro (rfl | rfl) <;> simp at kind
  fun_induction Node.insert self node atTop with
  | case1 | case2 =>
    cases failed
    exact other (by simp)
  | case3 | case6 => cases failed
  | case4 _ op _ _ last others all _ ih =>
    cases deeper : last.insert node false with
    | error e =>
      rw [deeper] at failed
      cases failed
      exact ih deeper
    | ok new =>
      rw [deeper] at failed
      cases failed
  | case5 =>
    unfold Node.displace at failed
    split_ifs at failed <;> cases failed <;> exact other (by simp)

theorem insertNode_error (no_row : node.op.isSequence = false) (bracket : lower.op = .root)
    (failed : insertNode node (lower :: rest) = .error e) : ¬e.IsUnmatched := by
  unfold insertNode at failed
  simp only [no_row, bracket, Operator.isSequence_root, Bool.false_eq_true, if_false] at failed
  cases own : lower.insert node true with
  | error e =>
    rw [own] at failed
    cases failed
    exact insert_error own
  | ok r =>
    rw [own] at failed
    cases failed

theorem collapseTop_error (some_node : stack ≠ []) (brackets : ∀ n ∈ stack, n.op = .root)
    (failed : collapseTop stack = .error e) : ¬e.IsUnmatched := by
  obtain ⟨root, rest, rfl⟩ := List.exists_cons_of_ne_nil some_node
  have bracket : root.isRoot = true := beq_iff_eq.2 (brackets root List.mem_cons_self)
  have missing : ¬FormulaError.missingOperator.IsUnmatched := by
    rintro (same | same) <;> cases same
  cases rest <;>
  · rw [collapseTop, collapse, if_pos bracket] at failed
    split at failed <;> cases failed
    exact missing

theorem take_error (some_node : stack ≠ []) (brackets : ∀ n ∈ stack, n.op = .root)
    (plain : t.IsPlain) (enough : t = .closer → 2 ≤ stack.length)
    (failed : take stack afterOperand t next = .error e) : ¬e.IsUnmatched := by
  unfold take at failed
  split at failed
  next => cases failed
  next =>
    have two := enough rfl
    rw [if_neg (by omega)] at failed
    split at failed
    next collapsed =>
      cases failed
      exact collapseTop_error some_node brackets collapsed
    next collapsed => exact absurd (collapseTop_eq_ok brackets collapsed).symm some_node
    next node rest collapsed =>
      obtain rfl := collapseTop_eq_ok brackets collapsed
      obtain ⟨bracket, others⟩ := List.forall_mem_cons.1 brackets
      cases rest with
      | nil => simp at two
      | cons lower rest =>
        exact insertNode_error (bracket ▸ Operator.isSequence_root)
          (others lower List.mem_cons_self) failed
  next =>
    obtain ⟨lower, rest, rfl⟩ := List.exists_cons_of_ne_nil some_node
    have no_row : (Node.leaf (t.operator afterOperand next)).op.isSequence = false :=
      plain.isSequence afterOperand next
    exact insertNode_error no_row (brackets lower List.mem_cons_self) failed

end Errors

/-- A row with nested brackets is taken up to its end, with one node left, unless it is refused for
something else than a bracket. -/
theorem takeAll_of_balances {ts : List Token} {d : Nat} (balances : Balances d ts) {stack : Stack}
    (plain : ∀ t ∈ ts, t.IsPlain) (brackets : ∀ n ∈ stack, n.op = .root)
    (open_ : stack.length = d + 1) (afterOperand : Bool) :
    (∃ e, takeAll stack afterOperand ts = .error e ∧ ¬e.IsUnmatched) ∨
      ∃ n, takeAll stack afterOperand ts = .ok [n] ∧ n.op = .root := by
  induction ts generalizing d stack afterOperand with
  | nil =>
    cases balances
    obtain ⟨n, rfl⟩ := List.length_eq_one_iff.1 open_
    exact .inr ⟨n, rfl, brackets n List.mem_cons_self⟩
  | cons t rest ih =>
    obtain ⟨own, others⟩ := List.forall_mem_cons.1 plain
    have some_node : stack ≠ [] := by
      rintro rfl
      cases open_
    have enough : t = .closer → 2 ≤ stack.length := by
      rintro rfl
      cases balances with
      | closer => omega
      | other _ no_closer => exact absurd rfl no_closer
    rw [takeAll]
    cases taken : take stack afterOperand t rest.head? with
    | error e => exact .inl ⟨e, rfl, take_error some_node brackets own enough taken⟩
    | ok result =>
      have takes := takes_of_take brackets own taken
      have kept := takes.brackets brackets
      have length : ∃ k, Balances k rest ∧ result.length = k + 1 := by
        cases balances with
        | opener later =>
          cases takes with
          | opened => exact ⟨_, later, by simp [open_]⟩
          | operator no_opener => exact absurd rfl no_opener
        | closer later =>
          cases takes with
          | closed => exact ⟨_, later, by simpa using open_⟩
          | operator _ no_closer => exact absurd rfl no_closer
        | other no_opener no_closer later =>
          cases takes with
          | opened => exact absurd rfl no_opener
          | closed => exact absurd rfl no_closer
          | operator => exact ⟨_, later, by simpa using open_⟩
      obtain ⟨k, later, open_⟩ := length
      exact ih later others kept open_ t.endsOperand

theorem ofTokens_error {ts : List Token} (balances : Balances 0 ts) (plain : ∀ t ∈ ts, t.IsPlain)
    {e : FormulaError} (failed : ofTokens ts = .error e) : ¬e.IsUnmatched := by
  have bracket : ∀ n ∈ [Node.leaf .root], n.op = .root := by simp [Node.leaf, Node.op]
  unfold ofTokens at failed
  rcases takeAll_of_balances balances plain bracket rfl false with ⟨f, taken, matched⟩ | ⟨n, taken, root⟩
  · rw [taken] at failed
    cases failed
    exact matched
  · have brackets : ∀ m ∈ [n], m.op = .root := by simpa using root
    rw [taken] at failed
    simp only at failed
    split at failed
    next collapsed =>
      cases failed
      exact collapseTop_error (List.cons_ne_nil n []) brackets collapsed
    next => cases failed
    next collapsed => cases collapseTop_eq_ok brackets collapsed
    next collapsed => cases collapseTop_eq_ok brackets collapsed

/-- No bracket of a text with nested brackets is reported. -/
theorem read_error {s : List Char} {ts : List Token} (written : Written s ts)
    (chain : ts.IsChain Token.Touches) (nests : Nests 0 s 0) {e : FormulaError}
    (failed : read (String.ofList s) = .error e) : ¬e.IsUnmatched := by
  rw [read, tokenize_of_written written chain] at failed
  exact ofTokens_error (written.balances nests) written.plain failed

end Formula

end Simultaneous
