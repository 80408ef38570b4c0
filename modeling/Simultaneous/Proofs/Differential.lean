import Mathlib
import Simultaneous.Differential
import Simultaneous.Proofs.Text.Cut

/-!
Statements of differential problems as they are written: the derivative in quotes, the name of the
call in any case, and blanks around every part. Main statement: such a statement is read back,
whatever stands between the quotes, and so is every problem that was read.
-/

namespace Simultaneous

open Text Name

/-! ### What numerals are made of -/

namespace Decimal

theorem exists_of_takeSign (s : List Char) :
    ∃ sign : List Char, (∀ c ∈ sign, c = '-' ∨ c = '+') ∧ s = sign ++ (takeSign s).2 := by
  unfold takeSign
  split
  next rest => exact ⟨['-'], by simp, rfl⟩
  next rest => exact ⟨['+'], by simp, rfl⟩
  next => exact ⟨[], by simp, rfl⟩

def isNumeralChar (c : Char) : Bool := isWordChar c || c == '-' || c == '+' || c == '.'

theorem isNumeralChar_of_isDigit {c : Char} (digit : c.isDigit) : isNumeralChar c := by
  simp [isNumeralChar, isWordChar, Char.isAlphanum, digit]

theorem isNumeralChar_of_isSign {c : Char} (sign : c = '-' ∨ c = '+') : isNumeralChar c := by
  rcases sign with rfl | rfl <;> decide

theorem isNumeralChar_takeDigits (s : List Char) : ∀ c ∈ (takeDigits s).1, isNumeralChar c :=
  fun _ member => isNumeralChar_of_isDigit (List.mem_takeWhile_imp member)

theorem isNumeralChar_of_readExponent? {s : List Char} {x : Int} (read : readExponent? s = some x) :
    ∀ c ∈ s, isNumeralChar c := by
  cases s with
  | nil => exact List.forall_mem_nil _
  | cons e rest =>
    obtain ⟨mark, read⟩ := Option.ite_none_right_eq_some.1 read
    obtain ⟨⟨-, digits⟩, -⟩ := Option.ite_none_right_eq_some.1 read
    obtain ⟨sign, signs, same⟩ := exists_of_takeSign rest
    have letter : isNumeralChar e := by rcases mark with rfl | rfl <;> decide
    rw [same, List.forall_mem_cons, List.forall_mem_append]
    exact ⟨letter, fun c member => isNumeralChar_of_isSign (signs c member),
      fun c member => isNumeralChar_of_isDigit (List.all_eq_true.1 digits c member)⟩

theorem isNumeralChar_of_readMagnitude? {s : List Char} {m : Magnitude}
    (read : readMagnitude? s = some m) :
    ∀ c ∈ s, isNumeralChar c := by
  rw [← takeDigits_append s, List.forall_mem_append]
  refine ⟨isNumeralChar_takeDigits s, ?_⟩
  unfold readMagnitude? at read
  simp only at read
  generalize (takeDigits s).2 = rest at read ⊢
  split at read
  next after =>
    obtain ⟨-, read⟩ := Option.ite_none_left_eq_some.1 read
    obtain ⟨x, exponent, -⟩ := Option.map_eq_some_iff.1 read
    rw [← takeDigits_append after, List.forall_mem_cons, List.forall_mem_append]
    exact ⟨by decide, isNumeralChar_takeDigits after, isNumeralChar_of_readExponent? exponent⟩
  next =>
    obtain ⟨-, read⟩ := Option.ite_none_left_eq_some.1 read
    obtain ⟨x, exponent, -⟩ := Option.map_eq_some_iff.1 read
    exact isNumeralChar_of_readExponent? exponent

theorem isNumeralChar_of_read? {s : List Char} {n : Numeral} (read : Numeral.read? s = some n) :
    ∀ c ∈ s, isNumeralChar c := by
  obtain ⟨sign, signs, same⟩ := exists_of_takeSign s
  rw [same, List.forall_mem_append]
  refine ⟨fun c member => isNumeralChar_of_isSign (signs c member), ?_⟩
  unfold Numeral.read? at read
  simp only at read
  generalize (takeSign s).2 = rest at read ⊢
  have of_word {word : List Char} (letters : word.all Char.isAlpha) (same : lower rest = word) :
      ∀ c ∈ rest, isNumeralChar c := by
    intro c member
    have letter := List.all_eq_true.1 letters c.toLower (same ▸ List.mem_map_of_mem member)
    rw [Char.isAlpha_toLower_eq_isAlpha] at letter
    simp [isNumeralChar, isWordChar, Char.isAlphanum, letter]
  split at read
  next word =>
    rcases word with word | word
    · exact of_word (by decide) word
    · exact of_word (by decide) word
  next =>
    split at read
    next word => exact of_word (by decide) word
    next =>
      obtain ⟨m, magnitude, -⟩ := Option.map_eq_some_iff.1 read
      exact isNumeralChar_of_readMagnitude? magnitude

end Decimal

namespace Differential

/-! ### Arguments -/

def marks : List Char := [',', '"', '(', '[', ')', ']']

def IsPlain (c : Char) : Prop := c ∉ marks

/-- The characters of a class are plain if no mark is in the class. -/
theorem isPlain_of_class {p : Char → Bool} (outside : marks.all (!p ·)) {c : Char}
    (member : p c) : IsPlain c := by
  intro mark
  have other := List.all_eq_true.1 outside c mark
  rw [member] at other
  cases other

theorem isPlain_of_isBlank {c : Char} (blank : isBlank c) : IsPlain c :=
  isPlain_of_class (by decide) blank

theorem isPlain_of_isNameChar {c : Char} (name : isNameChar c) : IsPlain c :=
  isPlain_of_class (by decide) name

theorem isPlain_of_isNumeralChar {c : Char} (numeral : Decimal.isNumeralChar c) : IsPlain c :=
  isPlain_of_class (by decide) numeral

theorem isNameChar_of_isIdentifierChars {s : List Char} (identifier : isIdentifierChars s) :
    ∀ c ∈ s, isNameChar c := by
  simp only [isIdentifierChars, Bool.and_eq_true] at identifier
  exact List.all_eq_true.1 identifier.1.2

theorem after?_of_isPlain (d : Depth) {c : Char} (plain : IsPlain c) : d.after? c = some d := by
  simp only [IsPlain, marks, List.mem_cons, List.not_mem_nil, or_false, not_or] at plain
  obtain ⟨-, quote, round, square, close, close_square⟩ := plain
  rw [Depth.after?, if_neg quote]
  split
  next => rfl
  next => rw [if_neg (by simp [round, square]), if_neg (by simp [close, close_square])]

variable {s first : List Char} {others : List (List Char)}

theorem splitArguments?_plain {part : List Char} (plain : ∀ c ∈ part, IsPlain c)
    (parts : splitArguments? ⟨false, 0⟩ s = some (first :: others)) :
    splitArguments? ⟨false, 0⟩ (part ++ s) = some ((part ++ first) :: others) := by
  induction part with
  | nil => exact parts
  | cons c rest ih =>
    obtain ⟨here, later⟩ := List.forall_mem_cons.1 plain
    have no_comma : c ≠ ',' := by
      rintro rfl
      exact here (by decide)
    rw [List.cons_append, splitArguments?, if_neg (by simp [no_comma]), after?_of_isPlain _ here]
    simp only [ih later, List.cons_append]

theorem splitArguments?_quoted {inside : List Char} (unquoted : '"' ∉ inside)
    (parts : splitArguments? ⟨false, 0⟩ s = some (first :: others)) :
    splitArguments? ⟨true, 0⟩ (inside ++ '"' :: s) = some ((inside ++ '"' :: first) :: others) := by
  induction inside with
  | nil =>
    rw [List.nil_append, splitArguments?, if_neg (by simp)]
    simp [Depth.after?, parts]
  | cons c rest ih =>
    obtain ⟨other, later⟩ := not_or.1 (mt List.mem_cons.2 unquoted)
    rw [List.cons_append, splitArguments?, if_neg (by simp)]
    simp [Depth.after?, Ne.symm other, ih later]

theorem splitArguments?_comma {part : List Char} {parts : List (List Char)}
    (plain : ∀ c ∈ part, IsPlain c) (later : splitArguments? ⟨false, 0⟩ s = some parts) :
    splitArguments? ⟨false, 0⟩ (part ++ ',' :: s) = some (part :: parts) := by
  have comma : splitArguments? ⟨false, 0⟩ (',' :: s) = some ([] :: parts) := by
    rw [splitArguments?, if_pos ⟨rfl, rfl, rfl⟩, later]
    rfl
  rw [splitArguments?_plain plain comma, List.append_nil]

/-! ### Problems that were read -/

theorem isIdentifier_ofList (s : List Char) :
    isIdentifier (String.ofList s) = isIdentifierChars s := by
  rw [isIdentifier, String.toList_ofList]

theorem of_guard {p : Prop} [Decidable p] {u : Unit} (passed : guard p = some u) : p := by
  unfold guard at passed
  split at passed
  next holds => exact holds
  next => cases passed

/-- A derivative that was read has no quotes, and no blanks at its ends. -/
theorem unquoted?_spec {s text : List Char} (trimmed : trim s = s) (read : unquoted? s = some text) :
    '"' ∉ text ∧ trim text = text := by
  unfold unquoted? at read
  split at read
  next rest =>
    split at read
    next inner reversed =>
      split at read
      next => cases read
      next unquoted =>
        cases read
        rw [List.contains_eq_mem, decide_eq_true_eq] at unquoted
        exact ⟨fun member => unquoted (List.mem_reverse.1 (mem_of_mem_trim member)), trim_trim _⟩
    next => cases read
  next =>
    split at read
    next => cases read
    next unquoted =>
      cases read
      rw [List.contains_eq_mem, decide_eq_true_eq] at unquoted
      exact ⟨unquoted, trimmed⟩

/-- A problem that can be written: its names are identifiers, its bounds are numbers or identifiers,
and there is no quote in the derivative. -/
structure IsWritable (d : Differential) : Prop where
  target : isIdentifier d.target
  independent : isIdentifier d.independent
  start : isBound d.start.toList
  stop : isBound d.stop.toList
  initial : isBound d.initial.toList
  derivative : '"' ∉ d.derivative.toList

theorem isWritable_of_ofLine? {line : String} {d : Differential} (found : ofLine? line = some d) :
    d.IsWritable ∧ trim d.derivative.toList = d.derivative.toList := by
  simp only [ofLine?, Option.bind_eq_bind, Option.bind_eq_some_iff] at found
  obtain ⟨cut, -, call, -, _, named, bracket, -, _, -, close, -, _, -, parts, -, found⟩ := found
  have target := (Bool.and_eq_true_iff.1 (of_guard named)).1
  split at found
  next derivative independent start stop initial arguments =>
    obtain ⟨text, read, found⟩ := Option.bind_eq_some_iff.1 found
    obtain ⟨_, valid, same⟩ := Option.bind_eq_some_iff.1 found
    have trimmed : trim derivative = derivative := by
      have member : derivative ∈ parts.map trim := arguments ▸ List.mem_cons_self
      obtain ⟨part, -, rfl⟩ := List.mem_map.1 member
      exact trim_trim part
    obtain ⟨unquoted, ends⟩ := unquoted?_spec trimmed read
    have valid := of_guard valid
    simp only [Bool.and_eq_true] at valid
    obtain ⟨⟨⟨identifier, bound_start⟩, bound_stop⟩, bound_initial⟩ := valid
    cases same
    simp only [String.toList_ofList]
    refine ⟨⟨?_, ?_, ?_, ?_, ?_, ?_⟩, ends⟩ <;>
      simpa only [isIdentifier_ofList, String.toList_ofList]
  next => cases found

/-! ### Statements as they are written -/

structure Padding where
  before : List Char
  after : List Char
  blank : (before ++ after).all isBlank

def Padding.around (p : Padding) (part : List Char) : List Char := p.before ++ part ++ p.after

inductive Part where
  | target
  | call
  | derivative
  | independent
  | start
  | stop
  | initial

/-- A way to write a statement: the letters of the call in some case, and blanks. -/
structure Style where
  call : List Char
  padding : Part → Padding
  /-- what follows the call -/
  tail : List Char
  named : lower call = "solveode".toList
  blank_tail : tail.all isBlank

namespace Style

variable (w : Style) (d : Differential)

def arguments : List Char :=
  (w.padding .derivative).around ('"' :: d.derivative.toList ++ ['"']) ++ ',' ::
    ((w.padding .independent).around d.independent.toList ++ ',' ::
      ((w.padding .start).around d.start.toList ++ ',' ::
        ((w.padding .stop).around d.stop.toList ++ ',' ::
          (w.padding .initial).around d.initial.toList)))

def write : String :=
  String.ofList ((w.padding .target).around d.target.toList ++ '=' ::
    ((w.padding .call).around w.call ++ '(' :: (w.arguments d ++ ')' :: w.tail)))

end Style

/-! ### Written statements are read -/

theorem isBlank_of_isNameChar {c : Char} (name : isNameChar c) : isBlank c = false := by
  simp only [isNameChar, Bool.or_eq_true, beq_iff_eq] at name
  rcases name with word | rfl
  · exact isBlank_of_isWordChar word
  · decide

theorem isBlank_of_isNumeralChar {c : Char} (numeral : Decimal.isNumeralChar c) :
    isBlank c = false := by
  simp only [Decimal.isNumeralChar, Bool.or_eq_true, beq_iff_eq] at numeral
  rcases numeral with ((word | rfl) | rfl) | rfl
  · exact isBlank_of_isWordChar word
  all_goals decide

def IsSolid (part : List Char) : Prop := ∀ c ∈ part, IsPlain c ∧ isBlank c = false

theorem isSolid_of_isIdentifierChars {s : List Char} (identifier : isIdentifierChars s) :
    IsSolid s := by
  intro c member
  have name := isNameChar_of_isIdentifierChars identifier c member
  exact ⟨isPlain_of_isNameChar name, isBlank_of_isNameChar name⟩

theorem isSolid_of_isBound {s : List Char} (bound : isBound s) : IsSolid s := by
  rcases Bool.or_eq_true_iff.1 bound with number | identifier
  · obtain ⟨n, read⟩ := Option.isSome_iff_exists.1 number
    intro c member
    have numeral := Decimal.isNumeralChar_of_read? read c member
    exact ⟨isPlain_of_isNumeralChar numeral, isBlank_of_isNumeralChar numeral⟩
  · exact isSolid_of_isIdentifierChars identifier

namespace Padding

variable (p : Padding) {part : List Char}

theorem blank_before : ∀ c ∈ p.before, isBlank c := fun c member =>
  List.all_eq_true.1 p.blank c (List.mem_append_left _ member)

theorem blank_after : ∀ c ∈ p.after, isBlank c := fun c member =>
  List.all_eq_true.1 p.blank c (List.mem_append_right _ member)

theorem mem_around {c : Char} (member : c ∈ p.around part) : isBlank c ∨ c ∈ part := by
  rcases List.mem_append.1 member with front | after
  · rcases List.mem_append.1 front with before | inside
    · exact .inl (p.blank_before c before)
    · exact .inr inside
  · exact .inl (p.blank_after c after)

theorem trim_around (part : List Char) : trim (p.around part) = trim part :=
  trim_padded p.blank_before p.blank_after part

theorem isPlain_around (solid : IsSolid part) : ∀ c ∈ p.around part, IsPlain c := by
  intro c member
  rcases p.mem_around member with blank | inside
  · exact isPlain_of_isBlank blank
  · exact (solid c inside).1

theorem notMem_around {mark : Char} (visible : isBlank mark = false) (absent : mark ∉ part) :
    mark ∉ p.around part := by
  intro member
  rcases p.mem_around member with blank | inside
  · rw [visible] at blank
    cases blank
  · exact absent inside

end Padding

theorem trim_of_isSolid {part : List Char} (solid : IsSolid part) : trim part = part :=
  trim_of_visible fun c member => (solid c member).2

theorem splitArguments?_arguments (w : Style) {d : Differential} (writable : d.IsWritable) :
    splitArguments? ⟨false, 0⟩ (w.arguments d) =
      some [(w.padding .derivative).around ('"' :: d.derivative.toList ++ ['"']),
        (w.padding .independent).around d.independent.toList,
        (w.padding .start).around d.start.toList, (w.padding .stop).around d.stop.toList,
        (w.padding .initial).around d.initial.toList] := by
  have plain (part : Part) {text : List Char} (solid : IsSolid text) :=
    (w.padding part).isPlain_around solid
  have none_left : splitArguments? ⟨false, 0⟩ [] = some [[]] := rfl
  have initial :=
    splitArguments?_plain (plain .initial (isSolid_of_isBound writable.initial)) none_left
  rw [List.append_nil] at initial
  have stop := splitArguments?_comma (plain .stop (isSolid_of_isBound writable.stop)) initial
  have start := splitArguments?_comma (plain .start (isSolid_of_isBound writable.start)) stop
  have independent := splitArguments?_comma
    (plain .independent (isSolid_of_isIdentifierChars writable.independent)) start
  have blank_after := splitArguments?_comma
    (fun c member => isPlain_of_isBlank ((w.padding .derivative).blank_after c member)) independent
  have inside := splitArguments?_quoted writable.derivative blank_after
  have quote (s : List Char) {first : List Char} {others : List (List Char)}
      (parts : splitArguments? ⟨true, 0⟩ s = some (first :: others)) :
      splitArguments? ⟨false, 0⟩ ('"' :: s) = some (('"' :: first) :: others) := by
    rw [splitArguments?, if_neg (by simp)]
    simp [Depth.after?, parts]
  have derivative := splitArguments?_plain
    (fun c member => isPlain_of_isBlank ((w.padding .derivative).blank_before c member))
    (quote _ inside)
  simpa [Style.arguments, Padding.around] using derivative

theorem unquoted?_quoted {text : List Char} (unquoted : '"' ∉ text) :
    unquoted? ('"' :: text ++ ['"']) = some (trim text) := by
  simp [unquoted?, unquoted]

theorem ne_toLower_of_isBlank {c : Char} (blank : isBlank c) : 's'.toLower ≠ c.toLower := by
  intro same
  have letter : c.isAlpha := by
    rw [← Char.isAlpha_toLower_eq_isAlpha, ← same]
    rfl
  have visible : isBlank c = false :=
    isBlank_of_isWordChar (isWordChar_of_isAlpha letter)
  rw [blank] at visible
  cases visible

namespace Style

variable (w : Style)

theorem cutAtAnyCase?_call (rest : List Char) :
    cutAtAnyCase? "solveode".toList ((w.padding .call).around w.call ++ rest) =
      some ((w.padding .call).before, (w.padding .call).after ++ rest) := by
  rw [Padding.around, List.append_assoc, List.append_assoc]
  exact cutAtAnyCase?_append
    (fun c member => ne_toLower_of_isBlank ((w.padding .call).blank_before c member)) w.named _

theorem cutAt?_bracket (rest : List Char) :
    cutAt? '(' ((w.padding .call).after ++ '(' :: rest) = some ((w.padding .call).after, rest) :=
  cutAt?_eq_some_iff.2
    ⟨fun member => absurd ((w.padding .call).blank_after _ member) (by decide), rfl⟩

theorem blank_of_mem_tail : ∀ c ∈ w.tail, isBlank c := List.all_eq_true.1 w.blank_tail

theorem cutAtLast?_close (inside : List Char) :
    cutAtLast? ')' (inside ++ ')' :: w.tail) = some (inside, w.tail) :=
  cutAtLast?_append inside fun member => absurd (w.blank_of_mem_tail ')' member) (by decide)

end Style

theorem ofLine?_write (w : Style) {d : Differential} (writable : d.IsWritable) :
    ofLine? (w.write d) =
      some { d with derivative := String.ofList (trim d.derivative.toList), line := w.write d } := by
  have target := isSolid_of_isIdentifierChars writable.target
  have independent := isSolid_of_isIdentifierChars writable.independent
  have no_sign : '=' ∉ d.target.toList := fun member =>
    absurd (isNameChar_of_isIdentifierChars writable.target '=' member) (by decide)
  have at_sign (rest : List Char) :
      cutAt? '=' ((w.padding .target).around d.target.toList ++ '=' :: rest) =
        some ((w.padding .target).around d.target.toList, rest) :=
    cutAt?_eq_some_iff.2 ⟨(w.padding .target).notMem_around (by decide) no_sign, rfl⟩
  have parts := splitArguments?_arguments w writable
  have no_gap (p : Padding) : trim p.before = [] ∧ trim p.after = [] :=
    ⟨trim_of_blank p.blank_before, trim_of_blank p.blank_after⟩
  have quoted : trim ('"' :: d.derivative.toList ++ ['"']) = '"' :: d.derivative.toList ++ ['"'] :=
    trim_enclosed (by decide) (by decide) _
  have bound {part : List Char} (bound : isBound part) : trim part = part :=
    trim_of_isSolid (isSolid_of_isBound bound)
  obtain ⟨name, free, start, stop, initial, unquoted⟩ := writable
  rw [isIdentifier] at name free
  simp only [ofLine?, Style.write, String.toList_ofList, at_sign, w.cutAtAnyCase?_call,
    w.cutAt?_bracket, w.cutAtLast?_close, parts, Option.bind_eq_bind, Option.bind_some,
    Padding.trim_around, List.map_cons, List.map_nil, no_gap, trim_of_blank w.blank_of_mem_tail,
    quoted, unquoted?_quoted unquoted, trim_of_isSolid target, trim_of_isSolid independent,
    bound start, bound stop, bound initial, name, free, start, stop, initial, List.isEmpty_nil,
    Bool.and_self, String.ofList_toList]
  rfl

/-- A statement is read as it was written: for all identifiers, bounds and derivatives without a
quote, whatever the case of the call and the blanks around the parts, the problem that is read has
the parts as they were written, with the derivative trimmed. And a problem that was read from any
line is, written in this form, read again as the same problem but for the line. -/
theorem statement_is_read_back :
    (∀ (w : Style) (d : Differential), isIdentifier d.target → isIdentifier d.independent →
      isBound d.start.toList → isBound d.stop.toList → isBound d.initial.toList →
      '"' ∉ d.derivative.toList →
      ofLine? (w.write d) = some
        { d with derivative := String.ofList (trim d.derivative.toList), line := w.write d }) ∧
    ∀ (line : String) (d : Differential), ofLine? line = some d →
      ∀ w : Style, ofLine? (w.write d) = some { d with line := w.write d } := by
  constructor
  · intro w d target independent start stop initial unquoted
    exact ofLine?_write w ⟨target, independent, start, stop, initial, unquoted⟩
  · intro line d found w
    obtain ⟨writable, trimmed⟩ := isWritable_of_ofLine? found
    rw [ofLine?_write w writable, trimmed, String.ofList_toList]

section Example

def spaced : Style where
  call := "sOlVeOdE".toList
  padding := fun _ => ⟨['\t'], ['\u2003'], by decide⟩
  tail := [' ', '\n']
  named := by decide
  blank_tail := by decide

def marked : Differential where
  target := "T_w"
  derivative := " ]SolveODE(T, ) = [,"
  independent := "Time"
  start := "-1.5e3"
  stop := "t_End"
  initial := "inf"
  line := ""

end Example

theorem marked_is_read_back :
    ofLine? (spaced.write marked) =
      some { marked with derivative := "]SolveODE(T, ) = [,", line := spaced.write marked } ∧
    ∃ d, ofLine? "y=solveode((a, b) , t, 0, 1, y0)" = some d ∧ d.derivative = "(a, b)" ∧
      ofLine? (spaced.write d) = some { d with line := spaced.write d } := by
  obtain ⟨written, read⟩ := statement_is_read_back
  refine ⟨?_, ⟨"y", "(a, b)", "t", "0", "1", "y0", "y=solveode((a, b) , t, 0, 1, y0)"⟩, ?_, rfl, ?_⟩
  · have back := written spaced marked (by decide) (by decide) (by decide) (by decide) (by decide)
      (by decide)
    exact back
  · decide +kernel
  · exact read "y=solveode((a, b) , t, 0, 1, y0)" _ (by decide +kernel) spaced

end Differential

end Simultaneous
