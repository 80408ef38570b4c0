import Simultaneous.Proofs.Formula.Variables
import Simultaneous.Proofs.Line.Accepted
import Simultaneous.Proofs.Line.Adjoined
import Simultaneous.Proofs.Line.Runs

/-!
The tokens of the residual of any accepted line. The token pass lets a word stand before a bracket
just if it is a function, and no literal right after another; so the tokens of a residual join one
another, whatever else the line is like. They are those that the residual is cut into. The variables
that they name are the unknowns of the line, but for those that are spelled like literals.
-/

namespace Simultaneous.Line

open Text
open Formula (IsLeafText Written Joined IsCallable constantNames literalToken? single? isVariableName
  isVariableName_constant isVariableName_callable)

variable {known : String → Prop} {strict : Prop} {before next : Option Char} {c : Char}
variable {last : Option Formula.Token} {s text x y : List Char} {names : List String}
variable {name? : Option String}

/-! ### Seams -/

structure Seam (known : String → Prop) (before : Option Char) (last : Option Formula.Token)
    (next : Option Char) : Prop where
  ends : before.any endsOperand → last.any Formula.Token.endsOperand
  slash : last = some .slash → before = some '/'
  apart : last.any Formula.Token.isLeaf → ∀ d ∈ next, isWordChar d = false
  called : ∀ n, last = some (.identifier n) → next = some '(' → IsCallable n
  read : ∀ n, last = some (.identifier n) → next ≠ some '(' → known n

def isNoLiteral (n : String) : Bool := (literalToken? n.toList).isNone

/-- The row of text that is written next joins the last token, and of some names it has all that are
not spelled like literals, in their order. -/
def WritesJoined (known : String → Prop) (strict : Prop) (last : Option Formula.Token)
    (text : List Char) (names : List String) : Prop :=
  ∃ ts, Written text ts ∧ Joined known strict last ts ∧
    ts.filterMap Formula.Token.variableName? = names.filter isNoLiteral

theorem seam_start : Seam known none none next := ⟨nofun, nofun, nofun, nofun, nofun⟩

theorem seam_value {t : Formula.Token} (ends : t.endsOperand) (no_name : t.isIdentifier = false)
    (apart : ∀ d ∈ next, isWordChar d = false) : Seam known before (some t) next := by
  have other (n : String) : some t ≠ some (.identifier n) := by
    rintro ⟨⟩
    cases no_name
  refine ⟨fun _ => ends, ?_, fun _ => apart, fun n same => absurd same (other n),
    fun n same => absurd same (other n)⟩
  rintro ⟨⟩
  cases ends

theorem seam_name {n : String} (apart : ∀ d ∈ next, isWordChar d = false)
    (called : next = some '(' → IsCallable n) (read : next ≠ some '(' → known n) :
    Seam known before (some (.identifier n)) next :=
  ⟨fun _ => rfl, nofun, fun _ => apart, by rintro m ⟨⟩; exact called, by rintro m ⟨⟩; exact read⟩

/-! ### Tokens that join -/

theorem Seam.begins (seam : Seam known before last (some c)) (word : isWordChar c)
    {t : Formula.Token} (plain : t.IsPlain) (start : t.isLeaf ∨ t = .opener) :
    t.Joins known strict last := by
  have no_leaf : ¬last.any Formula.Token.isLeaf := fun leaf => by
    rw [seam.apart leaf c rfl] at word
    cases word
  have no_name (n : String) : last ≠ some (.identifier n) := by
    rintro rfl
    exact no_leaf rfl
  have other : t ∉ [.closer, .plus, .star, .slash, .hat] := by
    intro member
    simp only [List.mem_cons, List.not_mem_nil, or_false] at member
    rcases member with rfl | rfl | rfl | rfl | rfl <;> exact absurd start (by decide)
  simp only [List.mem_cons, List.not_mem_nil, or_false, not_or] at other
  obtain ⟨no_closer, no_plus, no_star, no_slash, no_hat⟩ := other
  exact ⟨plain, fun leaf => absurd leaf no_leaf, fun _ => ⟨no_slash, no_star⟩,
    fun n same => absurd same (no_name n), fun n same => absurd same (no_name n),
    fun closer => absurd closer no_closer,
    fun _ member => absurd member (by simp [no_plus, no_star, no_slash, no_hat])⟩

theorem exists_single (mark : c ∈ ['+', '-', '*', '/', '^', '!', '(', ')']) :
    ∃ t, single? c = some t ∧ t.IsPlain ∧ t.isLeaf = false ∧ (t.endsOperand ↔ c = ')') ∧
      (t = .slash ↔ c = '/') ∧ (t = .star ↔ c = '*') ∧ (t = .opener ↔ c = '(') ∧
      (t = .closer ↔ c = ')') ∧ (t ∈ [.plus, .star, .slash, .hat] → c ∈ ['+', '*', '/', '^']) := by
  simp only [List.mem_cons, List.not_mem_nil, or_false] at mark
  rcases mark with rfl | rfl | rfl | rfl | rfl | rfl | rfl | rfl <;>
    exact ⟨_, rfl, trivial, by decide⟩

theorem Seam.mark (seam : Seam known before last (some c)) (adjoins : Adjoins strict before c)
    (no_word : isWordChar c = false) (no_dot : c ≠ '.') :
    ∃ t, single? c = some t ∧ t.IsPlain ∧ t.isLeaf = false ∧ t.Joins known strict last ∧
      ∀ next, Seam known (some c) (some t) next := by
  have mark : c ∈ ['+', '-', '*', '/', '^', '!', '(', ')'] := by
    have kind := adjoins.kind
    simp only [no_word, Bool.false_eq_true, false_or, List.mem_cons, no_dot, List.not_mem_nil,
      or_false] at kind ⊢
    exact kind
  obtain ⟨t, single, plain, no_leaf, ends, slash, star, opener, closer, operator⟩ :=
    exists_single mark
  have no_name (n : String) : some t ≠ some (.identifier n) := by
    rintro ⟨⟩
    cases no_leaf
  have no_comment (same : last = some .slash) : c ∉ ['/', '*'] := fun member =>
    adjoins.no_comment member (seam.slash same)
  refine ⟨t, single, plain, no_leaf, ⟨plain, fun _ => no_leaf, fun same => ?_, fun n same opens => ?_,
    fun n same no_opener => ?_, fun closes => ?_, fun holds member => ?_⟩, fun next => ⟨?_, ?_, ?_,
    fun n same => absurd same (no_name n), fun n same => absurd same (no_name n)⟩⟩
  · simpa [slash, star] using no_comment same
  · exact seam.called n same (congrArg some (opener.1 opens))
  · exact seam.read n same (mt Option.some.inj (mt opener.2 no_opener))
  · exact seam.ends (adjoins.closes (closer.1 closes))
  · exact seam.ends (adjoins.operates holds (operator member))
  · simpa [endsOperand, no_word] using ends.2
  · simpa using slash.1
  · simp [no_leaf]

theorem variableName?_of_mark {t : Formula.Token} (mark : t.isLeaf = false) :
    t.variableName? = none := by
  cases t <;> first | rfl | cases mark

/-! ### Numbers and words -/

theorem joins_after {b t : Formula.Token} (plain : t.IsPlain) (no_name : b.isIdentifier = false)
    (apart : b.isLeaf = false ∨ t.isLeaf = false) (no_slash : b ≠ .slash)
    (ends : b.endsOperand ∨ t ∉ [.closer, .plus, .star, .slash, .hat]) :
    t.Joins known strict (some b) := by
  have other (n : String) : some b ≠ some (.identifier n) := by
    rintro ⟨⟩
    cases no_name
  refine ⟨plain, fun leaf => apart.resolve_left (by simpa using leaf),
    fun same => absurd (Option.some.inj same) no_slash, fun n same => absurd same (other n),
    fun n same => absurd same (other n), ?_, fun _ member => ?_⟩
  · rintro rfl
    exact ends.resolve_right (by simp)
  · exact ends.resolve_right fun no_member => no_member (List.mem_cons_of_mem _ member)

theorem joined_powerOfTen {n k : Decimal.Numeral} {sign : List Char} {ts : List Formula.Token}
    (first : Formula.Token.Joins known strict last .opener)
    (later : Joined known strict (some .closer) ts) :
    Joined known strict last (powerOfTen n sign k ++ ts) := by
  have operand {b t : Formula.Token} (plain : t.IsPlain) (mark : b.isLeaf = false)
      (no_slash : b ≠ .slash) (starts : t ∉ [.closer, .plus, .star, .slash, .hat]) :
      t.Joins known strict (some b) :=
    joins_after plain (Bool.or_eq_false_iff.1 mark).2 (.inl mark) no_slash (.inr starts)
  have mark {b t : Formula.Token} (plain : t.IsPlain) (no_name : b.isIdentifier = false)
      (ends : b.endsOperand) (mark : t.isLeaf = false) : t.Joins known strict (some b) :=
    joins_after plain no_name (.inr mark) (by rintro rfl; cases ends) (.inl ends)
  have closers : Joined known strict (some (.number k)) (.closer :: .closer :: ts) :=
    ⟨mark trivial rfl rfl rfl, mark trivial rfl rfl rfl, later⟩
  have exponent : Joined known strict (some .opener)
      (signRow sign ++ .number k :: .closer :: .closer :: ts) := by
    unfold signRow
    split
    next =>
      exact ⟨operand trivial rfl (by simp) (by simp), operand trivial rfl (by simp) (by simp),
        closers⟩
    next => exact ⟨operand trivial rfl (by simp) (by simp), closers⟩
  have same : powerOfTen n sign k ++ ts = .opener :: .number n :: .star :: .number (.ofNat 10) ::
      .hat :: .opener :: (signRow sign ++ .number k :: .closer :: .closer :: ts) := by
    simp [powerOfTen]
  rw [same]
  exact ⟨first, operand trivial rfl (by simp) (by simp), mark trivial rfl rfl rfl,
    operand trivial rfl (by simp) (by simp), mark trivial rfl rfl rfl,
    operand trivial rfl (by simp) (by simp), exponent⟩

theorem variables_powerOfTen (n : Decimal.Numeral) (sign : List Char) (k : Decimal.Numeral)
    (ts : List Formula.Token) : (powerOfTen n sign k ++ ts).filterMap Formula.Token.variableName? =
      ts.filterMap Formula.Token.variableName? := by
  unfold powerOfTen signRow
  split <;> rfl

theorem exists_takeNumber_append (digit : c.isDigit) (s : List Char) :
    ∃ front, c :: s = front ++ (takeNumber (c :: s)).2 := by
  obtain ⟨m, rest, -, -, ⟨same, taken⟩ | ⟨sign, k, -, -, same, taken⟩⟩ :=
    takeNumber_cases (s := s) digit
  · exact ⟨m, by rw [taken, same]⟩
  · exact ⟨m ++ 'e' :: (sign ++ k), by rw [taken, same]; simp⟩

theorem WritesJoined.leaf {t : Formula.Token} {w : List Char} {own : List String}
    (later : WritesJoined known strict (some t) y names) (seam : Seam known before last (some c))
    (word : isWordChar c) (text : IsLeafText t w)
    (variable_eq : t.variableName?.toList = own.filter isNoLiteral) :
    WritesJoined known strict last (w ++ y) (own ++ names) := by
  obtain ⟨ts, written, joined, others⟩ := later
  refine ⟨_, .leaf text written, ⟨seam.begins word text.plain (.inl text.leaf), joined⟩, ?_⟩
  rw [List.filter_append, ← variable_eq, ← others, List.filterMap_cons]
  cases t.variableName? <;> rfl

theorem writesJoined_number (digit : c.isDigit) (seam : Seam known before last (some c))
    (later : ∀ t : Formula.Token, t.endsOperand → t.isIdentifier = false →
      WritesJoined known strict (some t) y names)
    (contributed : contribution (takeNumber (c :: s)).1 (tokens (takeNumber (c :: s)).2) =
      .ok (x, name?)) : WritesJoined known strict last (x ++ y) (name?.toList ++ names) := by
  have word := isWordChar_of_isDigit digit
  obtain ⟨m, rest, mantissa, -, ⟨-, taken⟩ | ⟨sign, k, -, digits, -, taken⟩⟩ :=
    takeNumber_cases digit
  · rw [taken] at contributed
    obtain ⟨rfl, rfl⟩ := contribution_number contributed
    obtain ⟨n, value⟩ := read?_of_mantissa mantissa
    exact (later (.number n) rfl rfl).leaf seam word (.of_spelling (mantissa.spelling value) rfl) rfl
  · rw [taken] at contributed
    obtain ⟨rfl, rfl⟩ := contribution_number contributed
    obtain ⟨n, value⟩ := read?_of_mantissa mantissa
    obtain ⟨e, exponent⟩ := read?_of_mantissa (.whole digits)
    obtain ⟨ts, written, joined, listed⟩ := later .closer rfl rfl
    exact ⟨_, (spelled_powerOfTen mantissa value digits exponent).written.append written,
      joined_powerOfTen (seam.begins word trivial (.inr rfl)) joined,
      (variables_powerOfTen _ _ _ ts).trans listed⟩

/-- An unknown is no name of a constant or a function: its letters are small. -/
theorem isVariableName_of_internal {w : String} (plain : w.toList.head? ≠ some 'G')
    (internal : Name.IsInternal w.toList) : isVariableName w := by
  unfold isVariableName
  generalize w.toList = chars at internal plain
  cases internal with
  | nil => rfl
  | @plain c s low _ _ =>
    have small : c.isUpper = false := by
      rw [← low]
      exact c.isUpper_toLower_eq_false
    simp [small]
  | pair _ => exact absurd rfl plain

theorem exists_leaf_of_unknown {w : List Char} (letter : w.head?.any Char.isAlpha)
    (word : ∀ d ∈ w, isWordChar d) (unknown : isVariableName (String.ofList w)) :
    ∃ t, IsLeafText t w ∧ t.variableName?.toList = [String.ofList w].filter isNoLiteral ∧
      (t = .identifier (String.ofList w) ∨ t.endsOperand ∧ t.isIdentifier = false) := by
  obtain ⟨c, more, rfl⟩ : ∃ c more, w = c :: more := by
    cases w with
    | nil => cases letter
    | cons c more => exact ⟨c, more, rfl⟩
  cases token : literalToken? (c :: more) with
  | none =>
    have kept : isNoLiteral (String.ofList (c :: more)) = true := by
      rw [isNoLiteral, String.toList_ofList, token]
      rfl
    refine ⟨_, Formula.isLeafText_name (by simpa using letter) word token, ?_, .inl rfl⟩
    rw [Formula.Token.variableName?, if_pos unknown, Option.toList_some, List.filter_singleton, kept]
    rfl
  | some t =>
    have text : IsLeafText t (c :: more) :=
      Formula.isLeafText_literal (List.cons_ne_nil c more) (fun d member => .inl (word d member)) token
    have dropped : [String.ofList (c :: more)].filter isNoLiteral = [] := by
      rw [List.filter_singleton, isNoLiteral, String.toList_ofList, token]
      rfl
    rcases Formula.literalToken?_cases token with ⟨n, rfl⟩ | ⟨b, rfl⟩
    · exact ⟨_, text, dropped.symm, .inr ⟨rfl, rfl⟩⟩
    · exact ⟨_, text, dropped.symm, .inr ⟨rfl, rfl⟩⟩

theorem writesJoined_word {w rest : List Char} (letter : w.head?.any Char.isAlpha)
    (word : ∀ d ∈ w, isWordChar d) (seam : Seam known before last w.head?)
    (stop : ∀ d ∈ rest.head?, isWordChar d = false)
    (factor : w = "Degree".toList → rest.head? ≠ some '(')
    (form : w = "Degree".toList ∨ Name.IsInternal w)
    (later : ∀ t, (∀ before, Seam known before (some t) rest.head?) →
      WritesJoined known strict (some t) y names)
    (contributed : contribution (.word w) (tokens rest) = .ok (x, name?))
    (constants : ∀ n ∈ constantNames, known n) (listed : ∀ n ∈ name?.toList, known n) :
    WritesJoined known strict last (x ++ y) (name?.toList ++ names) := by
  obtain ⟨c, first⟩ : ∃ c, w.head? = some c := by
    cases w with
    | nil => cases letter
    | cons c more => exact ⟨c, rfl⟩
  rw [first] at seam
  have in_word : isWordChar c := word c (List.mem_of_head? first)
  have fixed {n : String} (text : IsLeafText (.identifier n) n.toList)
      (called : rest.head? = some '(' → IsCallable n) (read : rest.head? ≠ some '(' → known n)
      (no_variable : isVariableName n = false) :
      WritesJoined known strict last (n.toList ++ y) ([] ++ names) := by
    refine (later _ fun _ => seam_name stop called read).leaf seam in_word text ?_
    rw [Formula.Token.variableName?, no_variable]
    rfl
  have constant {n : String} (member : n ∈ constantNames) (no_bracket : rest.head? ≠ some '(') :
      WritesJoined known strict last (n.toList ++ y) ([] ++ names) :=
    fixed (.of_spelling (spelling_constant member) rfl) (fun called => absurd called no_bracket)
      (fun _ => constants n member) (isVariableName_constant member)
  obtain ⟨call, m, called, means, rfl, rfl⟩ := contribution_word contributed
  cases means with
  | factor same =>
    rw [same]
    exact constant (by decide) (factor (by rw [← same, String.toList_ofList]))
  | function _ _ function =>
    have facts := isFunction_of_canonical function
    have before_bracket := head?_tokens_opener.1 (called.1 rfl)
    exact fixed (.of_spelling (spelling_identifier facts.starts facts.word facts.no_literal) rfl)
      (fun _ => isCallable_of_canonical function) (fun no_call => absurd before_bracket no_call)
      (isVariableName_callable (isCallable_of_canonical function))
  | constant _ _ _ canonical =>
    exact constant (mem_constantNames_of_canonical canonical)
      (mt (called.2 ∘ head?_tokens_opener.2) Bool.false_ne_true)
  | unknown no_factor plain =>
    have no_bracket := mt (called.2 ∘ head?_tokens_opener.2) Bool.false_ne_true
    have internal := form.resolve_left fun same => no_factor (by rw [same, String.ofList_toList])
    have is_variable : isVariableName (String.ofList w) :=
      isVariableName_of_internal plain (by rwa [String.toList_ofList])
    obtain ⟨t, text, variable_eq, rfl | ⟨ends, no_name⟩⟩ :=
      exists_leaf_of_unknown letter word is_variable
    · have is_known : known (String.ofList w) := listed _ (by simp [Meaning.unknown?])
      have row := later _ fun _ =>
        seam_name stop (fun called => absurd called no_bracket) fun _ => is_known
      rw [Meaning.text, String.toList_ofList]
      exact row.leaf seam in_word text variable_eq
    · rw [Meaning.text, String.toList_ofList]
      exact (later t fun _ => seam_value ends no_name stop).leaf seam in_word text variable_eq

/-! ### The token pass -/

/-- Normal text is written as a row of tokens that join. -/
theorem writesJoined_of_normal (normal : IsNormal false s) (adjoin : AllAdjoin strict before s)
    (seam : Seam known before last s.head?)
    (contributed : contributions (tokens s) = .ok (text, names))
    (constants : ∀ n ∈ constantNames, known n) (listed : ∀ n ∈ names, known n) :
    WritesJoined known strict last text names := by
  fun_induction tokens s generalizing before last text names with
  | case1 =>
    cases contributed
    exact ⟨[], .nil, trivial, rfl⟩
  | case2 d rest digit ih =>
    obtain ⟨x, name?, y, others, of_first, of_rest, rfl, rfl⟩ := contributions_cons_eq_ok contributed
    obtain ⟨front, parts⟩ := exists_takeNumber_append digit rest
    rw [parts] at adjoin
    obtain ⟨b, adjoin⟩ := exists_allAdjoin_append adjoin
    refine writesJoined_number digit seam (fun t ends no_name => ?_) of_first
    exact ih (isNormal_takeNumber normal digit) adjoin
      (seam_value ends no_name (apart_of_number digit of_first)) of_rest fun n member =>
        listed n (List.mem_append_right _ member)
  | case3 d rest no_digit letter ih =>
    have in_word := isWordChar_of_isAlpha letter
    obtain ⟨x, name?, y, others, of_first, of_rest, rfl, rfl⟩ := contributions_cons_eq_ok contributed
    have begins := takeWord_of_letter letter rest
    have first : (takeWord (d :: rest)).1.head?.any Char.isAlpha := by
      rw [begins]
      exact letter
    have factor (same : (takeWord (d :: rest)).1 = "Degree".toList) :
        (takeWord (d :: rest)).2.head? ≠ some '(' := by
      rw [head?_of_factor normal same]
      decide
    rw [← takeWord_append (d :: rest)] at adjoin
    obtain ⟨b, adjoin⟩ := exists_allAdjoin_append adjoin
    refine writesJoined_word first (fun e member => List.mem_takeWhile_imp member)
      (by rw [begins]; exact seam) (takeWord_stops _) factor (normal.word in_word).1
      (fun t seam_after => ?_) of_first constants
      fun n member => listed n (List.mem_append_left _ member)
    exact ih (normal.word in_word).2 adjoin (seam_after b) of_rest fun n member =>
      listed n (List.mem_append_right _ member)
  | case4 d rest no_digit no_letter ih =>
    have no_word := isWordChar_eq_false_iff.2 ⟨no_digit, no_letter⟩
    obtain ⟨x, name?, y, others, of_first, of_rest, rfl, rfl⟩ := contributions_cons_eq_ok contributed
    obtain ⟨no_dot, rfl, rfl⟩ := contribution_mark of_first
    have next := normal.tail (toLower_of_no_letter no_letter)
    rw [no_word] at next
    obtain ⟨t, single, plain, no_leaf, joins, seams⟩ := seam.mark adjoin.1 no_word no_dot
    obtain ⟨ts, written, joined, others⟩ := ih next adjoin.2 (seams _) of_rest listed
    have no_variable : t.variableName? = none := variableName?_of_mark no_leaf
    refine ⟨t :: ts, .mark single plain written, ⟨joins, joined⟩, ?_⟩
    rw [List.filterMap_cons, no_variable]
    exact others

/-- The residual of an accepted line is written as a row of tokens that join. Where no unknown is
spelled like a literal, the variables that they name are the unknowns. -/
theorem exists_written_of_line {mode : AngleMode} {line : String} {equation : LineEquation}
    (accepted : LineEquation.ofLine mode line = .ok (some equation))
    (operate : strict → AllOperate none (bare line.toList))
    (constants : ∀ n ∈ constantNames, known n) (listed : ∀ n ∈ equation.unknowns, known n) :
    ∃ ts, Written equation.residual.toList ts ∧ Joined known strict none ts ∧
      ts.getLast? = some .closer ∧ ((∀ u ∈ equation.unknowns, isNoLiteral u) →
        firstOccurrences (ts.filterMap Formula.Token.variableName?) = equation.unknowns) := by
  obtain ⟨text, residual, names, read, contributed, rfl⟩ := LineEquation.ofLine_eq_some accepted
  have adjoin := Pass.allAdjoin_normal operate read
  obtain ⟨ts, written, joined, variables_eq⟩ :=
    writesJoined_of_normal (isNormal_normal read) adjoin seam_start contributed constants
      fun n member => listed n ((mem_firstOccurrences names n).2 member)
  have closes : residual.getLast? = some ')' := by
    obtain ⟨p, -, -, -, -, -, rfl⟩ := normal_eq_some read
    rw [contributions_closed] at contributed
    obtain ⟨_, _, _, _, -, closer, rfl⟩ := joined_eq_ok contributed
    cases closer
    exact List.getLast?_concat
  refine ⟨ts, by rwa [String.toList_ofList], joined, written.getLast?_closer closes,
    fun no_literal => ?_⟩
  have all : names.filter isNoLiteral = names :=
    List.filter_eq_self.2 fun n member => no_literal n ((mem_firstOccurrences names n).2 member)
  rw [variables_eq, all]

theorem exists_tokens_of_line {mode : AngleMode} {line : String} {equation : LineEquation}
    (accepted : LineEquation.ofLine mode line = .ok (some equation))
    (operate : strict → AllOperate none (bare line.toList))
    (constants : ∀ n ∈ constantNames, known n) (listed : ∀ n ∈ equation.unknowns, known n) :
    ∃ ts, Formula.tokenize equation.residual = .ok ts ∧ Joined known strict none ts ∧
      ts.getLast? = some .closer ∧ ((∀ u ∈ equation.unknowns, isNoLiteral u) →
        firstOccurrences (ts.filterMap Formula.Token.variableName?) = equation.unknowns) := by
  obtain ⟨ts, written, joined, rest⟩ := exists_written_of_line accepted operate constants listed
  have cut := Formula.tokenize_of_written written joined.touches
  rw [String.ofList_toList] at cut
  exact ⟨ts, cut, joined, rest⟩

end Simultaneous.Line
