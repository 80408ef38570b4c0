import Simultaneous.Proofs.Line.Spots

/-!
Neighbours in normal text. On every line that the character pass accepts, what it writes has no two
slashes beside each other and no bracket that closes after an operator; and where each operator of
the line that joins two operands stands after one, so it does in the normal text.
-/

namespace Simultaneous.Line

open Text

/-! ### Normal text -/

def endsOperand (c : Char) : Bool := isWordChar c || c == ')'

/-- A character of normal text beside the one before it. In strict text an operator that joins two
operands stands after one. -/
structure Adjoins (strict : Prop) (before : Option Char) (c : Char) : Prop where
  kind : isWordChar c ∨ c ∈ ['+', '-', '*', '/', '^', '!', '.', '(', ')']
  no_comment : c ∈ ['/', '*'] → before ≠ some '/'
  closes : c = ')' → before.any endsOperand
  operates : strict → c ∈ ['+', '*', '/', '^'] → before.any endsOperand

def AllAdjoin (strict : Prop) : Option Char → List Char → Prop
  | _, [] => True
  | before, c :: s => Adjoins strict before c ∧ AllAdjoin strict (some c) s

section Adjoins

variable {strict : Prop} {before : Option Char} {c : Char} {s t : List Char}

theorem adjoins_word (word : isWordChar c) : Adjoins strict before c := by
  have other {marks : List Char} (no_word : ∀ d ∈ marks, isWordChar d = false) : c ∉ marks := by
    intro member
    rw [no_word c member] at word
    cases word
  have no_closer : c ∉ [')'] := other (by simp [isWordChar])
  exact ⟨.inl word, fun member => absurd member (other (by simp [isWordChar])),
    fun same => absurd (List.mem_singleton.2 same) no_closer,
    fun _ member => absurd member (other (by simp [isWordChar]))⟩

theorem adjoins_free (free : c ∈ ['-', '!', '.', '(']) : Adjoins strict before c := by
  simp only [List.mem_cons, List.not_mem_nil, or_false] at free
  rcases free with rfl | rfl | rfl | rfl <;>
    exact ⟨.inr (by simp), fun member => absurd member (by decide),
      fun same => absurd same (by decide), fun _ member => absurd member (by decide)⟩

theorem adjoins_operand (kind : c ∈ ['+', '*', '/', '^', ')']) (operand : before.any endsOperand) :
    Adjoins strict before c := by
  refine ⟨.inr (by simp at kind ⊢; tauto), fun _ slash => ?_, fun _ => operand, fun _ _ => operand⟩
  rw [slash] at operand
  cases operand

theorem allAdjoin_append : AllAdjoin strict before (s ++ t) ↔
    AllAdjoin strict before s ∧ AllAdjoin strict (s.getLast?.or before) t := by
  induction s generalizing before with
  | nil => simp [AllAdjoin]
  | cons c s ih =>
    have last : (s.getLast?.or (some c)) = (c :: s).getLast?.or before := by
      rw [List.getLast?_cons]
      cases s.getLast? <;> rfl
    rw [List.cons_append, AllAdjoin, AllAdjoin, ih, last, and_assoc]

theorem exists_allAdjoin_append (all : AllAdjoin strict before (s ++ t)) :
    ∃ b, AllAdjoin strict b t := ⟨_, (allAdjoin_append.1 all).2⟩

theorem allAdjoin_word (word : ∀ d ∈ s, isWordChar d) : AllAdjoin strict before s := by
  induction s generalizing before with
  | nil => trivial
  | cons d s ih =>
    obtain ⟨first, rest⟩ := List.forall_mem_cons.1 word
    exact ⟨adjoins_word first, ih rest⟩

end Adjoins

/-! ### The character pass -/

/-- Each operator that joins two operands stands after one, in a text without blanks. -/
def AllOperate (before : Option Char) : List Char → Prop
  | [] => True
  | c :: s =>
    (c ∈ ['+', '*', '/', '^'] → before.any fun b => isNameChar b || isCloser b) ∧
      AllOperate (some c) s

instance decidableAllOperate : (before : Option Char) → (s : List Char) →
    Decidable (AllOperate before s)
  | _, [] => isTrue trivial
  | _, c :: s =>
    have := decidableAllOperate (some c) s
    inferInstanceAs (Decidable (_ ∧ _))

namespace Pass

structure Adjoined (strict : Prop) (p : Pass) : Prop where
  text : AllAdjoin strict none p.written.reverse
  operand : (p.previous.any fun b => isNameChar b || isCloser b) → p.written.head?.any endsOperand
  slash : p.written.head? = some '/' → p.previous = some '/'
  unopened : p.previous = none → p.brackets = []
  opened : ∀ b ∈ p.previous, isOpener b → p.brackets ≠ []
  allowed : ∀ b ∈ p.previous, isAllowed b ∧ isSpace b = false

theorem adjoined_start (strict : Prop) : Pass.start.Adjoined strict :=
  ⟨trivial, nofun, nofun, fun _ => rfl, nofun, nofun⟩

section Steps

variable {strict : Prop} {p q : Pass} {c : Char} {mode : AngleMode}

namespace Adjoined

variable (adjoined : p.Adjoined strict)
include adjoined

theorem write {s : List Char} {d : Char} (text : AllAdjoin strict p.written.head? (s ++ [d]))
    (operand : isNameChar c ∨ isCloser c → endsOperand d) (slash : d = '/' → c = '/')
    (written : q.written = (s ++ [d]).reverse ++ p.written) (previous : q.previous = some c)
    (opened : isOpener c → q.brackets ≠ []) (allowed : isAllowed c ∧ isSpace c = false) :
    q.Adjoined strict := by
  have last : q.written.head? = some d := by simp [written]
  constructor
  · rw [written, List.reverse_append, List.reverse_reverse, allAdjoin_append, List.getLast?_reverse,
      Option.or_none]
    exact ⟨adjoined.text, text⟩
  · rw [previous, last, Option.any_some, Option.any_some, Bool.or_eq_true]
    exact operand
  · rw [previous, last, Option.some.injEq, Option.some.injEq]
    exact slash
  · rw [previous]
    nofun
  · rw [previous]
    rintro b ⟨⟩
    exact opened
  · rw [previous]
    rintro b ⟨⟩
    exact allowed

theorem after_operand (some_char : p.previous ≠ none)
    (no_operator : ∀ b ∈ p.previous, isOperator b = false)
    (no_opener : ∀ b ∈ p.previous, isOpener b = false) : p.written.head?.any endsOperand := by
  obtain ⟨b, before⟩ := Option.ne_none_iff_exists'.1 some_char
  obtain ⟨allowed, visible⟩ := adjoined.allowed b before
  apply adjoined.operand
  rw [before, Option.any_some, Bool.or_eq_true]
  rcases kind_of_allowed allowed visible (no_operator b before) with name | closer | opener
  · exact .inl name
  · exact .inr closer
  · rw [no_opener b before] at opener
    cases opener

theorem opener (opener : isOpener c) :
    Adjoined strict { openBracket mode p with previous := some c } := by
  obtain ⟨no_name, -, no_closer⟩ := isOpener_marks opener
  have marks : isAllowed c ∧ isSpace c = false := by
    simp only [isOpener, Bool.or_eq_true, beq_iff_eq] at opener
    rcases opener with rfl | rfl <;> decide
  -- The text of an opener ends with a bracket, also after a product sign.
  have text (kind : Bracket) : ∃ s, kind.opener.toList = s ++ ['('] ∧
      ∀ before, AllAdjoin strict before (s ++ ['(']) := by
    have bracket (before : Option Char) : Adjoins strict before '(' := adjoins_free (by simp)
    cases kind with
    | plain | call => exact ⟨[], rfl, fun before => ⟨bracket before, trivial⟩⟩
    | degrees =>
      refine ⟨"(Degree*".toList, rfl, fun before => ?_⟩
      have word : AllAdjoin strict (some '(') "Degree".toList :=
        allAdjoin_word (by simp [isWordChar])
      have factor : AllAdjoin strict (some '(') ("Degree".toList ++ ['*', '(']) :=
        allAdjoin_append.2 ⟨word, adjoins_operand (by simp) rfl, bracket _, trivial⟩
      exact ⟨bracket before, factor⟩
  have opened {r : Pass} (kind : Bracket) (front : List Char)
      (written : r.written = front.reverse ++ p.written)
      (product : AllAdjoin strict p.written.head? front) :
      Adjoined strict { r.opened kind with previous := some c } := by
    obtain ⟨s, chars, adjoins⟩ := text kind
    refine adjoined.write (s := front ++ s) (d := '(') ?_ (by simp [no_name, no_closer])
      (by simp) ?_ rfl (fun _ => List.cons_ne_nil _ _) marks
    · rw [List.append_assoc]
      exact allAdjoin_append.2 ⟨product, adjoins _⟩
    · rw [Pass.opened, Pass.write, chars, written]
      simp
  rw [openBracket_eq]
  split
  next multiplies =>
    have operand : p.written.head?.any endsOperand := by
      rcases Bool.or_eq_true_iff.1 multiplies with closer | number
      · refine adjoined.operand ?_
        obtain ⟨b, before, closes⟩ := (Option.any_eq_true ..).1 closer
        simp [before, closes]
      · obtain ⟨d, first, -⟩ := (Option.any_eq_true ..).1 number
        rw [lastWord] at first
        cases back : p.written with
        | nil =>
          rw [back] at first
          cases first
        | cons e others =>
          rw [back, List.takeWhile_cons] at first
          split at first
          next word => simp [endsOperand, word]
          next => cases first
    exact opened _ ['*'] rfl ⟨adjoins_operand (by simp) operand, trivial⟩
  next => exact opened _ [] rfl trivial

theorem closer (closer : isCloser c) (operand : p.written.head?.any endsOperand) (kind : Bracket)
    (rest : OpenBrackets) : Adjoined strict
      { p.write kind.closer with brackets := rest, previous := some c } := by
  have marks : isAllowed c ∧ isSpace c = false := by
    simp only [isCloser, Bool.or_eq_true, beq_iff_eq] at closer
    rcases closer with rfl | rfl <;> decide
  obtain ⟨-, -, -, no_opener⟩ := isCloser_marks closer
  have bracket {before : Option Char} (operand : before.any endsOperand) :
      Adjoins strict before ')' := adjoins_operand (by simp) operand
  have text : ∃ s, kind.closer.toList = s ++ [')'] ∧
      AllAdjoin strict p.written.head? (s ++ [')']) := by
    cases kind with
    | plain | call => exact ⟨[], rfl, bracket operand, trivial⟩
    | degrees => exact ⟨[')'], rfl, bracket operand, bracket rfl, trivial⟩
  obtain ⟨s, chars, adjoins⟩ := text
  refine adjoined.write adjoins (fun _ => rfl) (by simp) ?_ rfl (by simp [no_opener]) marks
  rw [Pass.write, chars]

theorem single (allowed : isAllowed c ∧ isSpace c = false) (fine : fault? p c = none)
    (operates : strict → c ∈ ['+', '*', '/', '^'] →
      p.previous.any fun b => isNameChar b || isCloser b)
    (no_bracket : isOpener c = false ∧ isCloser c = false)
    (others : c ≠ '=' ∧ c ≠ '_' ∧ c ≠ ',') :
    Adjoined strict { p.write (String.singleton c) with previous := some c } := by
  obtain ⟨-, -, -, doubled⟩ := fault?_eq_none.1 fine
  obtain ⟨no_equality, no_underscore, no_comma⟩ := others
  have name_eq : isNameChar c = isWordChar c := by simp [isNameChar, no_underscore]
  have adjoins : Adjoins strict p.written.head? c := by
    cases word : isWordChar c with
    | true => exact adjoins_word word
    | false =>
      have no_closer : c ≠ ')' := by
        rintro rfl
        cases no_bracket.2
      refine ⟨.inr ?_, fun member slash => ?_, fun same => absurd same no_closer,
        fun holds member => adjoined.operand (operates holds member)⟩
      · have marks := mark_of_allowed allowed.1 allowed.2 no_bracket (name_eq.trans word) no_comma
          no_equality
        simp only [List.mem_cons, List.not_mem_nil, or_false] at marks ⊢
        tauto
      · have operator : isOperator c := by
          simp only [List.mem_cons, List.not_mem_nil, or_false] at member
          rcases member with rfl | rfl <;> rfl
        have no_sign : isSign c = false := by
          simp only [List.mem_cons, List.not_mem_nil, or_false] at member
          rcases member with rfl | rfl <;> rfl
        rcases of_doubledFault? (doubled '/' (adjoined.slash slash)) operator with no | ⟨sign, -⟩
        · cases no
        · rw [no_sign] at sign
          cases sign
  refine adjoined.write (s := []) ⟨adjoins, trivial⟩ ?_ id ?_ rfl (by simp [no_bracket.1]) allowed
  · rw [name_eq, no_bracket.2]
    simp +contextual [endsOperand]
  · rw [Pass.write, String.toList_singleton]
    rfl

theorem emit {r : Pass} (allowed : isAllowed c ∧ isSpace c = false) (fine : fault? p c = none)
    (operates : strict → c ∈ ['+', '*', '/', '^'] →
      p.previous.any fun b => isNameChar b || isCloser b)
    (emitted : emit mode p c = .ok r) : Adjoined strict { r with previous := some c } := by
  obtain ⟨neighbour, -, -, -⟩ := fault?_eq_none.1 fine
  have free {d : Char} (free : d ∈ ['-', '!', '.', '(']) (before : Option Char) :
      Adjoins strict before d := adjoins_free free
  cases emit_eq_ok.1 emitted with
  | equality =>
    refine adjoined.write (s := ['-', '1', '*']) (d := '(') ?_ (by decide) (by simp) rfl rfl
      (fun opener => absurd opener (by decide)) allowed
    exact ⟨free (by simp) _, adjoins_word (by decide), adjoins_operand (by simp) rfl,
      free (by simp) _, trivial⟩
  | underscore =>
    exact adjoined.write (s := ['G']) (d := 'g') (allAdjoin_word (by simp [isWordChar]))
      (fun _ => rfl) (by simp) rfl rfl (fun opener => absurd opener (by decide)) allowed
  | comma =>
    exact adjoined.write (s := []) (d := '.') ⟨free (by simp) _, trivial⟩ (by decide) (by simp)
      rfl rfl (fun opener => absurd opener (by decide)) allowed
  | opener opens => exact adjoined.opener opens
  | closer closes matched =>
    have some_char : p.previous ≠ none := by
      intro none_before
      rw [adjoined.unopened none_before] at matched
      cases matched
    refine adjoined.closer closes (adjoined.after_operand some_char ?_ ?_) _ _
    · exact fun b before => ((of_besideFault? (neighbour b before)).1 closes).2
    · exact fun b before => ((of_besideFault? (neighbour b before)).1 closes).1
  | single others no_bracket => exact adjoined.single allowed fine operates no_bracket others

end Adjoined

theorem Adjoined.run {line : List Char} (adjoined : p.Adjoined strict)
    (operate : strict → AllOperate p.previous (bare line)) (ran : Line.run mode p line = .ok q) :
    q.Adjoined strict :=
  run_keeps (R := fun before s => strict → AllOperate before s)
    (fun adjoined operate allowed fine emitted =>
      ⟨adjoined.emit allowed fine (fun holds => (operate holds).1) emitted,
        fun holds => (operate holds).2⟩)
    adjoined operate ran

/-- The characters of normal text adjoin. -/
theorem allAdjoin_normal {line text : List Char} (operate : strict → AllOperate none (bare line))
    (read : normal mode line = .ok (some text)) : AllAdjoin strict none text := by
  obtain ⟨p, ran, no_operator, balanced, -, some_char, rfl⟩ := normal_eq_some read
  have adjoined := (adjoined_start strict).run operate ran
  have operand : p.written.head?.any endsOperand := by
    refine adjoined.after_operand some_char (fun b before => ?_) fun b before => ?_
    · simpa using Option.filter_eq_none_iff.1 no_operator b before
    · by_contra opener
      exact adjoined.opened b before (Bool.not_eq_false _ ▸ opener) (List.isEmpty_iff.1 balanced)
  rw [allAdjoin_append, List.getLast?_reverse, Option.or_none]
  exact ⟨adjoined.text, adjoins_operand (by simp) operand, trivial⟩

end Steps

end Pass

end Simultaneous.Line
