import Simultaneous.Proofs.Line.Contribution

/-!
The sides of an equation line as they are typed, and what is written for them. A side is a row of
numbers, names, calls, brackets and operators; blanks and upper case mean nothing. A row is defined by
what it is in a residual: an exponent is a power of ten, a bracket right after a number or a bracket
multiplies, and an angle in degrees is converted.
-/

namespace Simultaneous.Line

open Decimal Text
open Formula (Spelled literalWords)

/-! ### Rows as they are typed -/

def bare (side : List Char) : List Char := lower (side.filter fun c => !isSpace c)

/-- A number without an exponent as it is typed, and with a point for its separator. -/
inductive Mantissa : List Char → List Char → Prop
  | whole {s : List Char} : AreDigits s → Mantissa s s
  | fraction {s t : List Char} {separator : Char} : AreDigits s → isSeparator separator →
      AreDigits t → Mantissa (s ++ separator :: t) (s ++ '.' :: t)

structure IsTypedName (s : List Char) : Prop where
  letter : s.head?.any Char.isLower
  chars : ∀ c ∈ s, c.isLower ∨ c.isDigit ∨ c = '_'

def residualName (s : List Char) : String := canonicalWord (String.ofList (Name.internalChars s))

def callBracket (mode : AngleMode) (f : String) : Bracket :=
  if mode = .degrees ∧ f ∈ trigonometric then .degrees else .call

def product : Formula.Token → List Formula.Token
  | .number _ | .closer => [.star]
  | _ => []

inductive Typed (mode : AngleMode) : Formula.Token → List Char → List Formula.Token → Prop
  | nil {t : Formula.Token} : Typed mode t [] []
  | operator {t u : Formula.Token} {c : Char} {s : List Char} {ts : List Formula.Token} :
      (c, u) ∈ [('+', .plus), ('-', .minus), ('*', .star), ('/', .slash), ('^', .hat)] →
      Typed mode u s ts → Typed mode t (c :: s) (u :: ts)
  | number {t : Formula.Token} {w m s : List Char} {n : Numeral} {ts : List Formula.Token} :
      t.endsOperand = false → Mantissa w m → Numeral.read? m = some n →
      Typed mode (.number n) s ts → Typed mode t (w ++ s) (.number n :: ts)
  | scientific {t : Formula.Token} {w m sign k s : List Char} {n x : Numeral}
      {ts : List Formula.Token} :
      t.endsOperand = false → Mantissa w m → Numeral.read? m = some n → IsSignText sign →
      AreDigits k → Numeral.read? k = some x → Typed mode .closer s ts →
      Typed mode t (w ++ 'e' :: (sign ++ (k ++ s))) (powerOfTen n sign x ++ ts)
  | name {t : Formula.Token} {w s : List Char} {ts : List Formula.Token} :
      t.endsOperand = false → IsTypedName w →
      canonicalFunction? (String.ofList (Name.internalChars w)) = none →
      lower (residualName w).toList ∉ literalWords →
      Typed mode (.identifier (residualName w)) s ts →
      Typed mode t (w ++ s) (.identifier (residualName w) :: ts)
  | bracket {t : Formula.Token} {o c : Char} {inner s : List Char} {us ts : List Formula.Token} :
      isOpener o → isCloser c → Typed mode .opener inner us → Typed mode .closer s ts →
      Typed mode t (o :: (inner ++ c :: s)) (product t ++ (enclosed .plain us ++ ts))
  | call {t : Formula.Token} {f F : String} {o c : Char} {inner s : List Char}
      {us ts : List Formula.Token} :
      t.endsOperand = false → canonicalFunction? f = some F → isOpener o → isCloser c →
      Typed mode .opener inner us → Typed mode .closer s ts →
      Typed mode t (f.toList ++ o :: (inner ++ c :: s))
        (.identifier F :: (enclosed (callBracket mode f) us ++ ts))

/-! ### Characters that are written one by one -/

def glyph (c : Char) : List Char :=
  if c = '_' then ['G', 'g'] else if c = ',' then ['.'] else [c]

structure IsGlyph (c : Char) : Prop where
  lower : c.toLower = c
  visible : isSpace c = false
  no_equality : c ≠ '='
  no_opener : isOpener c = false
  no_closer : isCloser c = false

def Pass.typed (p : Pass) (s : List Char) : Pass :=
  { p with written := (s.flatMap glyph).reverse ++ p.written, previous := s.getLast?.or p.previous }

variable {mode : AngleMode} {p q : Pass}

theorem step_visible {c : Char} (lowered : c.toLower = c) (visible : isSpace c = false)
    (stepped : step mode p c = .ok q) :
    ∃ r, emit mode p c = .ok r ∧ q = { r with previous := some c } := by
  obtain ⟨-, ⟨space, -⟩ | ⟨-, -, r, emitted, rfl⟩⟩ := step_eq_ok.1 stepped
  · rw [visible] at space
    cases space
  · rw [lowered] at emitted ⊢
    exact ⟨r, emitted, rfl⟩

theorem step_glyph {c : Char} (plain : IsGlyph c) (stepped : step mode p c = .ok q) :
    q = p.typed [c] := by
  obtain ⟨r, emitted, rfl⟩ := step_visible plain.lower plain.visible stepped
  cases emit_eq_ok.1 emitted with
  | equality => exact absurd rfl plain.no_equality
  | underscore | comma => rfl
  | opener opens =>
    rw [plain.no_opener] at opens
    cases opens
  | closer closes =>
    rw [plain.no_closer] at closes
    cases closes
  | single others => simp [Pass.typed, Pass.write, glyph, others]

theorem typed_append (s t : List Char) : (p.typed s).typed t = p.typed (s ++ t) := by
  cases t using List.reverseRecOn <;> simp [Pass.typed]

theorem run_glyphs {s : List Char} (plain : ∀ c ∈ s, IsGlyph c) (ran : run mode p s = .ok q) :
    q = p.typed s := by
  induction s generalizing p with
  | nil =>
    cases ran
    rfl
  | cons c rest ih =>
    obtain ⟨r, stepped, ran⟩ := run_cons.1 ran
    obtain rfl := step_glyph (plain c List.mem_cons_self) stepped
    rw [ih (fun d member => plain d (List.mem_cons_of_mem c member)) ran, typed_append,
      List.singleton_append]

theorem isGlyph_of_word {c : Char} (word : isWordChar c) (no_upper : ¬c.isUpper) : IsGlyph c := by
  have other {d : Char} (no_word : isWordChar d = false) : c ≠ d := by
    rintro rfl
    rw [no_word] at word
    cases word
  refine ⟨Char.toLower_eq_of_not_isUpper no_upper, ?_, other (by decide), ?_, ?_⟩
  · simp [isSpace, other (d := ' ') (by decide), other (d := '\t') (by decide)]
  · simp [isOpener, other (d := '(') (by decide), other (d := '[') (by decide)]
  · simp [isCloser, other (d := ')') (by decide), other (d := ']') (by decide)]

theorem isGlyph_of_isLower {c : Char} (letter : c.isLower) : IsGlyph c := by
  refine isGlyph_of_word (isWordChar_of_isLower letter) fun upper => ?_
  simp only [Char.isLower, Char.isUpper, Bool.and_eq_true, decide_eq_true_eq, ge_iff_le,
    UInt32.le_iff_toNat_le] at letter upper
  exact absurd (letter.1.trans upper.2) (by decide)

theorem isGlyph_of_isDigit {c : Char} (digit : c.isDigit) : IsGlyph c := by
  refine isGlyph_of_word (isWordChar_of_isDigit digit) fun upper => ?_
  simp only [Char.isDigit, Char.isUpper, Bool.and_eq_true, decide_eq_true_eq, ge_iff_le,
    UInt32.le_iff_toNat_le] at digit upper
  exact absurd (upper.1.trans digit.2) (by decide)

theorem lastWord_typed {s : List Char} (word : ∀ c ∈ s.flatMap glyph, isWordChar c) :
    (p.typed s).lastWord = p.lastWord ++ s.flatMap glyph := by
  have back : ∀ c ∈ (s.flatMap glyph).reverse, isWordChar c := fun c member =>
    word c (List.mem_reverse.1 member)
  rw [Pass.lastWord, Pass.lastWord, Pass.typed, List.takeWhile_append_of_pos back,
    List.reverse_append, List.reverse_reverse]

theorem lastWord_typed_stop {s : List Char} {c : Char} (stop : isWordChar c = false)
    (plain : glyph c = [c] ∨ glyph c = ['.']) : (p.typed (s ++ [c])).lastWord = [] := by
  have dot : isWordChar '.' = false := by decide
  rw [Pass.lastWord, Pass.typed]
  obtain same | same := plain <;> simp [List.flatMap_append, same, stop, dot]

def After (p : Pass) : Formula.Token → Prop
  | .number _ | .closer => (p.previous.any isCloser || p.endsWithNumber) = true
  | .identifier _ => p.previous.any isCloser = false ∧ p.endsWithNumber = false ∧
      canonicalFunction? (String.ofList p.lastWord) = none
  | _ => p.previous.any isCloser = false ∧ p.lastWord = []

theorem after_of_operator {t : Formula.Token} (no_operand : t.endsOperand = false) :
    After p t ↔ p.previous.any isCloser = false ∧ p.lastWord = [] := by
  cases t with
  | number _ | identifier _ | closer => cases no_operand
  | _ => exact Iff.rfl

theorem typed_no_closer {s : List Char} (some_chars : s ≠ []) (plain : ∀ c ∈ s, IsGlyph c) :
    (p.typed s).previous.any isCloser = false := by
  have last := List.getLast?_eq_some_getLast some_chars
  rw [Pass.typed, last]
  exact (plain _ (List.getLast_mem some_chars)).no_closer

theorem flatMap_glyph {s : List Char} (plain : ∀ c ∈ s, c ≠ '_' ∧ c ≠ ',') : s.flatMap glyph = s := by
  induction s with
  | nil => rfl
  | cons c rest ih =>
    obtain ⟨underscore, comma⟩ := plain c List.mem_cons_self
    rw [List.flatMap_cons, ih fun d member => plain d (List.mem_cons_of_mem c member), glyph,
      if_neg underscore, if_neg comma, List.singleton_append]

theorem flatMap_glyph_digits {s : List Char} (digits : ∀ c ∈ s, c.isDigit) : s.flatMap glyph = s := by
  refine flatMap_glyph fun c member => ?_
  have digit := digits c member
  constructor <;> rintro rfl <;> exact absurd digit (by decide)

theorem lastWord_digits {s : List Char} (digits : ∀ c ∈ s, c.isDigit) :
    (p.typed s).lastWord = p.lastWord ++ s := by
  have same := flatMap_glyph_digits digits
  rw [lastWord_typed, same]
  rw [same]
  exact fun c member => isWordChar_of_isDigit (digits c member)

theorem endsWithNumber_digits {s : List Char} (digits : AreDigits s) (fresh : p.lastWord = []) :
    (p.typed s).endsWithNumber := by
  obtain ⟨c, more, rfl⟩ := List.exists_cons_of_ne_nil digits.1
  rw [Pass.endsWithNumber, lastWord_digits digits.2, fresh]
  exact digits.2 c List.mem_cons_self

theorem isGlyph_separator {c : Char} (separator : isSeparator c) :
    IsGlyph c ∧ glyph c = ['.'] ∧ isWordChar c = false := by
  simp only [isSeparator, Bool.or_eq_true, beq_iff_eq] at separator
  rcases separator with rfl | rfl <;>
    exact ⟨⟨by decide, by decide, by decide, by decide, by decide⟩, by decide, by decide⟩

theorem Mantissa.glyphs {w m : List Char} (number : Mantissa w m) :
    (∀ c ∈ w, IsGlyph c) ∧ w.flatMap glyph = m ∧ IsMantissa m := by
  cases number with
  | whole digits =>
    exact ⟨fun c member => isGlyph_of_isDigit (digits.2 c member), flatMap_glyph_digits digits.2,
      .whole digits⟩
  | @fraction s t separator digits is_separator decimals =>
    obtain ⟨plain, point, -⟩ := isGlyph_separator is_separator
    refine ⟨?_, ?_, .fraction digits decimals⟩
    · intro c member
      rcases List.mem_append.1 member with before | later
      · exact isGlyph_of_isDigit (digits.2 c before)
      · rcases List.mem_cons.1 later with rfl | after
        · exact plain
        · exact isGlyph_of_isDigit (decimals.2 c after)
    · rw [List.flatMap_append, List.flatMap_cons, flatMap_glyph_digits digits.2,
        flatMap_glyph_digits decimals.2, point, List.singleton_append]

theorem Mantissa.endsWithNumber {w m : List Char} (number : Mantissa w m) (fresh : p.lastWord = []) :
    (p.typed w).endsWithNumber := by
  cases number with
  | whole digits => exact endsWithNumber_digits digits fresh
  | @fraction s t separator digits is_separator decimals =>
    obtain ⟨-, point, stop⟩ := isGlyph_separator is_separator
    rw [← List.singleton_append, ← List.append_assoc, ← typed_append]
    exact endsWithNumber_digits decimals (lastWord_typed_stop stop (.inr point))

theorem isGlyph_of_exponent {c : Char} (char : c = 'e' ∨ c = '+' ∨ c = '-' ∨ c.isDigit) :
    IsGlyph c ∧ c ≠ '_' ∧ c ≠ ',' := by
  rcases char with rfl | rfl | rfl | digit
  · exact ⟨isGlyph_of_isLower (by decide), by decide, by decide⟩
  · exact ⟨⟨by decide, by decide, by decide, by decide, by decide⟩, by decide, by decide⟩
  · exact ⟨⟨by decide, by decide, by decide, by decide, by decide⟩, by decide, by decide⟩
  · refine ⟨isGlyph_of_isDigit digit, ?_, ?_⟩ <;> rintro rfl <;> exact absurd digit (by decide)

theorem IsSignText.glyphs {sign k : List Char} (signed : IsSignText sign) (digits : AreDigits k) :
    (∀ c ∈ 'e' :: (sign ++ k), IsGlyph c) ∧
      ('e' :: (sign ++ k)).flatMap glyph = 'e' :: (sign ++ k) := by
  have chars : ∀ c ∈ 'e' :: (sign ++ k), IsGlyph c ∧ c ≠ '_' ∧ c ≠ ',' := by
    intro c member
    refine isGlyph_of_exponent ?_
    rcases List.mem_cons.1 member with rfl | later
    · exact .inl rfl
    · rcases List.mem_append.1 later with in_sign | digit
      · obtain rfl | rfl | rfl := signed
        · cases in_sign
        · exact .inr (.inl (List.mem_singleton.1 in_sign))
        · exact .inr (.inr (.inl (List.mem_singleton.1 in_sign)))
      · exact .inr (.inr (.inr (digits.2 c digit)))
  exact ⟨fun c member => (chars c member).1, flatMap_glyph fun c member => (chars c member).2⟩

theorem IsSignText.endsWithNumber {w sign k : List Char} (signed : IsSignText sign)
    (digits : AreDigits k) (number : (p.typed w).endsWithNumber) :
    (p.typed (w ++ 'e' :: (sign ++ k))).endsWithNumber := by
  have after_sign (c : Char) (stop : isWordChar c = false) (plain : glyph c = [c] ∨ glyph c = ['.']) :
      (p.typed (w ++ 'e' :: ([c] ++ k))).endsWithNumber := by
    rw [List.append_cons, ← List.append_assoc, ← typed_append]
    exact endsWithNumber_digits digits (lastWord_typed_stop stop plain)
  have same := (signed.glyphs digits).2
  obtain rfl | rfl | rfl := signed
  · have word : ∀ c ∈ ('e' :: k).flatMap glyph, isWordChar c := by
      rw [← List.nil_append k, same]
      intro c member
      rcases List.mem_cons.1 member with rfl | digit
      · decide
      · exact isWordChar_of_isDigit (digits.2 c digit)
    rw [List.nil_append, ← typed_append, Pass.endsWithNumber, lastWord_typed word]
    rw [Pass.endsWithNumber] at number
    cases last : (p.typed w).lastWord with
    | nil =>
      rw [last] at number
      cases number
    | cons d more =>
      rw [last] at number
      exact number
  · exact after_sign '+' (by decide) (.inl (by decide))
  · exact after_sign '-' (by decide) (.inl (by decide))

theorem isGlyph_of_name {c : Char} (char : c.isLower ∨ c.isDigit ∨ c = '_') :
    IsGlyph c ∧ ∀ d ∈ glyph c, isWordChar d := by
  have comma : c ≠ ',' := by
    rintro rfl
    exact absurd char (by decide)
  by_cases underscore : c = '_'
  · subst underscore
    exact ⟨⟨by decide, by decide, by decide, by decide, by decide⟩, by simp [glyph, isWordChar]⟩
  · have written : glyph c = [c] := by rw [glyph, if_neg underscore, if_neg comma]
    rw [written]
    rcases char with letter | digit | same
    · exact ⟨isGlyph_of_isLower letter, by simp [isWordChar_of_isLower letter]⟩
    · exact ⟨isGlyph_of_isDigit digit, by simp [isWordChar_of_isDigit digit]⟩
    · exact absurd same underscore

theorem flatMap_glyph_name {w : List Char} (chars : ∀ c ∈ w, c.isLower ∨ c.isDigit ∨ c = '_') :
    w.flatMap glyph = Name.internalChars w := by
  induction w with
  | nil => rfl
  | cons c rest ih =>
    have comma : c ≠ ',' := by
      rintro rfl
      exact absurd (chars ',' List.mem_cons_self) (by decide)
    have later := ih fun d member => chars d (List.mem_cons_of_mem c member)
    rw [List.flatMap_cons, later, glyph]
    by_cases underscore : c = '_'
    · subst underscore
      cases rest <;> simp [Name.internalChars]
    · have low := (isGlyph_of_name (chars c List.mem_cons_self)).1.lower
      rw [if_neg underscore, if_neg comma, Name.internalChars_plain low underscore,
        List.singleton_append]

theorem IsTypedName.word {w : List Char} (name : IsTypedName w) :
    (Name.internalChars w).head?.any Char.isAlpha ∧ ∀ c ∈ Name.internalChars w, isWordChar c := by
  obtain ⟨letter, chars⟩ := name
  constructor
  · cases w with
    | nil => cases letter
    | cons c rest =>
      have first : c.isLower := letter
      have plain : c ≠ '_' := by
        rintro rfl
        exact absurd first (by decide)
      rw [Name.internalChars_plain (isGlyph_of_isLower first).lower plain]
      simp [Char.isAlpha, first]
  · rw [← flatMap_glyph_name chars]
    intro d member
    obtain ⟨c, inside, written⟩ := List.mem_flatMap.1 member
    exact (isGlyph_of_name (chars c inside)).2 d written

/-! ### The pass over a row -/

/-- What a pass writes for a text that is typed after a token. It closes the brackets it opens. -/
def Writes (mode : AngleMode) (t : Formula.Token) (s w : List Char) : Prop :=
  ∀ p q, After p t → run mode p s = .ok q → q.written = w.reverse ++ p.written ∧ q.brackets = p.brackets

namespace Writes

variable {t u : Formula.Token} {s rest w v : List Char}

theorem nil : Writes mode t [] [] := by
  intro p q _ ran
  cases ran
  exact ⟨rfl, rfl⟩

theorem glyphs (plain : ∀ c ∈ s, IsGlyph c) (after : ∀ p, After p t → After (p.typed s) u)
    (later : Writes mode u rest w) : Writes mode t (s ++ rest) (s.flatMap glyph ++ w) := by
  intro p q before ran
  obtain ⟨r, ran_first, ran_rest⟩ := run_append.1 ran
  obtain rfl := run_glyphs plain ran_first
  obtain ⟨written, brackets⟩ := later _ q (after p before) ran_rest
  refine ⟨?_, brackets⟩
  rw [written, Pass.typed, List.reverse_append, List.append_assoc]

end Writes

/-! #### Brackets -/

theorem bracketKind_of_none (no_function : canonicalFunction? (String.ofList p.lastWord) = none) :
    p.bracketKind mode = .plain := by
  simp [Pass.bracketKind, no_function]

theorem bracketKind_of_nil (fresh : p.lastWord = []) : p.bracketKind mode = .plain :=
  bracketKind_of_none (by rw [fresh]; decide)

def times : Formula.Token → List Char
  | .number _ | .closer => ['*']
  | _ => []

theorem openBracket_of_after {t : Formula.Token} (after : After p t) : openBracket mode p =
    { p with written := '(' :: (times t ++ p.written), brackets := .plain :: p.brackets } := by
  have multiplied (joined : (p.previous.any isCloser || p.endsWithNumber) = true) :
      openBracket mode p =
        { p with written := '(' :: '*' :: p.written, brackets := .plain :: p.brackets } := by
    have fresh : (p.write "*").lastWord = [] := by
      simp [Pass.lastWord, Pass.write, show isWordChar '*' = false by decide]
    rw [openBracket_eq, if_pos joined, bracketKind_of_nil fresh]
    rfl
  have alone (no_closer : p.previous.any isCloser = false) (no_number : p.endsWithNumber = false)
      (kind : p.bracketKind mode = .plain) : openBracket mode p =
        { p with written := '(' :: p.written, brackets := .plain :: p.brackets } := by
    rw [openBracket_eq, no_closer, no_number, kind]
    rfl
  have fresh (no_closer : p.previous.any isCloser = false) (no_word : p.lastWord = []) :
      openBracket mode p =
        { p with written := '(' :: p.written, brackets := .plain :: p.brackets } :=
    alone no_closer (by rw [Pass.endsWithNumber, no_word]; rfl) (bracketKind_of_nil no_word)
  cases t with
  | number n | closer => exact multiplied after
  | identifier name => exact alone after.1 after.2.1 (bracketKind_of_none after.2.2)
  | _ => exact fresh after.1 after.2

theorem no_closer_of_opener {o : Char} (opens : isOpener o) : isCloser o = false := by
  have chars : o = '(' ∨ o = '[' := by simpa [isOpener] using opens
  rcases chars with rfl | rfl <;> decide

theorem step_opener {o : Char} (opens : isOpener o) (stepped : step mode p o = .ok q) :
    q = { openBracket mode p with previous := some o } := by
  have chars : o = '(' ∨ o = '[' := by simpa [isOpener] using opens
  have plain : o.toLower = o ∧ isSpace o = false := by
    rcases chars with rfl | rfl <;> decide
  obtain ⟨r, emitted, rfl⟩ := step_visible plain.1 plain.2 stepped
  rw [emit_eq_ok.2 (.opener opens)] at emitted
  cases emitted
  rfl

theorem step_closer {c : Char} (closes : isCloser c) {kind : Bracket} {open_ : OpenBrackets}
    (matched : p.brackets = kind :: open_) (stepped : step mode p c = .ok q) :
    q = { p.write kind.closer with brackets := open_, previous := some c } := by
  have chars : c = ')' ∨ c = ']' := by simpa [isCloser] using closes
  have plain : c.toLower = c ∧ isSpace c = false := by
    rcases chars with rfl | rfl <;> decide
  obtain ⟨r, emitted, rfl⟩ := step_visible plain.1 plain.2 stepped
  rw [emit_eq_ok.2 (.closer closes matched)] at emitted
  cases emitted
  rfl

namespace Writes

variable {t : Formula.Token} {inner s w v : List Char} {o c : Char}

theorem closed (closes : isCloser c) (inside : Writes mode .opener inner w)
    (later : Writes mode .closer s v) {kind : Bracket} {open_ : OpenBrackets}
    (opened : p.brackets = kind :: open_) (after : After p .opener)
    (ran : run mode p (inner ++ c :: s) = .ok q) :
    q.written = (w ++ (kind.closer.toList ++ v)).reverse ++ p.written ∧ q.brackets = open_ := by
  obtain ⟨r, ran_inner, ran_rest⟩ := run_append.1 ran
  obtain ⟨x, stepped, ran_later⟩ := run_cons.1 ran_rest
  obtain ⟨written, brackets⟩ := inside p r after ran_inner
  obtain rfl := step_closer closes (brackets.trans opened) stepped
  have closer : After { r.write kind.closer with brackets := open_, previous := some c } .closer := by
    rw [After, Option.any_some, closes, Bool.true_or]
  obtain ⟨last_written, last_brackets⟩ := later _ q closer ran_later
  refine ⟨?_, last_brackets⟩
  rw [last_written]
  simp only [Pass.write, written, List.reverse_append, List.append_assoc]

theorem operator {t u : Formula.Token} (plain : IsGlyph c) (alone : glyph c = [c])
    (stop : isWordChar c = false) (no_operand : u.endsOperand = false) (later : Writes mode u s w) :
    Writes mode t (c :: s) (c :: w) := by
  have one : ∀ d ∈ [c], IsGlyph d := by simpa using plain
  have written : [c].flatMap glyph = [c] := by rw [List.flatMap_singleton, alone]
  have whole := later.glyphs (t := t) one fun p _ => (after_of_operator no_operand).2
    ⟨typed_no_closer (List.cons_ne_nil c []) one, lastWord_typed_stop (s := []) stop (.inl alone)⟩
  rwa [written] at whole

theorem number {x m : List Char} {n : Numeral} (no_operand : t.endsOperand = false)
    (mantissa : Mantissa x m) (later : Writes mode (.number n) s w) :
    Writes mode t (x ++ s) (m ++ w) := by
  obtain ⟨plain, written, -⟩ := mantissa.glyphs
  rw [← written]
  refine later.glyphs plain fun p before => ?_
  rw [after_of_operator no_operand] at before
  rw [After, mantissa.endsWithNumber before.2, Bool.or_true]

theorem scientific {x m sign k : List Char} (no_operand : t.endsOperand = false)
    (mantissa : Mantissa x m) (signed : IsSignText sign) (digits : AreDigits k)
    (later : Writes mode .closer s w) :
    Writes mode t (x ++ 'e' :: (sign ++ (k ++ s))) (m ++ 'e' :: (sign ++ (k ++ w))) := by
  obtain ⟨plain, written, -⟩ := mantissa.glyphs
  obtain ⟨plain_exponent, same⟩ := signed.glyphs digits
  have pieces : ∀ c ∈ x ++ 'e' :: (sign ++ k), IsGlyph c := fun c member =>
    (List.mem_append.1 member).elim (plain c) (plain_exponent c)
  have all_written : (x ++ 'e' :: (sign ++ k)).flatMap glyph = m ++ 'e' :: (sign ++ k) := by
    rw [List.flatMap_append, written, same]
  have whole := later.glyphs (t := t) pieces fun p before => by
    rw [after_of_operator no_operand] at before
    rw [After, signed.endsWithNumber digits (mantissa.endsWithNumber before.2), Bool.or_true]
  rw [all_written] at whole
  simpa using whole

theorem name {x : List Char} {word : String} (no_operand : t.endsOperand = false)
    (name : IsTypedName x)
    (no_function : canonicalFunction? (String.ofList (Name.internalChars x)) = none)
    (later : Writes mode (.identifier word) s w) :
    Writes mode t (x ++ s) (Name.internalChars x ++ w) := by
  obtain ⟨letter, word_chars⟩ := name.word
  have written := flatMap_glyph_name name.chars
  have plain : ∀ c ∈ x, IsGlyph c := fun c member => (isGlyph_of_name (name.chars c member)).1
  have some_chars : x ≠ [] := by
    rintro rfl
    exact absurd name.letter (by decide)
  rw [← written]
  refine later.glyphs plain fun p before => ?_
  rw [after_of_operator no_operand] at before
  have last : (p.typed x).lastWord = Name.internalChars x := by
    rw [← written, lastWord_typed (written ▸ word_chars), before.2, List.nil_append]
  refine ⟨typed_no_closer some_chars plain, ?_, by rw [last, no_function]⟩
  rw [Pass.endsWithNumber, last]
  cases chars : Name.internalChars x with
  | nil => rfl
  | cons d more =>
    rw [chars] at letter
    exact Formula.isDigit_of_isAlpha letter

theorem bracket (opens : isOpener o) (closes : isCloser c) (inside : Writes mode .opener inner w)
    (later : Writes mode .closer s v) :
    Writes mode t (o :: (inner ++ c :: s)) (times t ++ '(' :: (w ++ ')' :: v)) := by
  intro p q before ran
  obtain ⟨r, stepped, ran_inner⟩ := run_cons.1 ran
  obtain rfl := step_opener opens stepped
  rw [openBracket_of_after before] at ran_inner
  have after : After { p with
      written := '(' :: (times t ++ p.written)
      brackets := .plain :: p.brackets
      previous := some o } .opener := by
    refine (after_of_operator rfl).2 ⟨no_closer_of_opener opens, ?_⟩
    simp [Pass.lastWord, show isWordChar '(' = false by decide]
  obtain ⟨written, brackets⟩ := closed closes inside later rfl after ran_inner
  refine ⟨?_, brackets⟩
  rw [written]
  have same : (times t).reverse = times t := by cases t <;> rfl
  simp [Bracket.closer, same]

theorem call {f F : String} (function : canonicalFunction? f = some F)
    (no_operand : t.endsOperand = false) (opens : isOpener o) (closes : isCloser c)
    (inside : Writes mode .opener inner w) (later : Writes mode .closer s v) :
    Writes mode t (f.toList ++ o :: (inner ++ c :: s)) (f.toList ++
      ((callBracket mode f).opener.toList ++ (w ++ ((callBracket mode f).closer.toList ++ v)))) := by
  intro p q before ran
  rw [after_of_operator no_operand] at before
  obtain ⟨some_chars, lower⟩ := (isFunction_of_canonical function).lower
  have plain : ∀ c ∈ f.toList, IsGlyph c := fun c member => isGlyph_of_isLower (lower c member)
  have same : f.toList.flatMap glyph = f.toList := flatMap_glyph fun c member => by
    have letter := lower c member
    constructor <;> rintro rfl <;> exact absurd letter (by decide)
  obtain ⟨r, ran_name, ran_bracket⟩ := run_append.1 ran
  obtain rfl := run_glyphs plain ran_name
  obtain ⟨x, stepped, ran_inner⟩ := run_cons.1 ran_bracket
  obtain rfl := step_opener opens stepped
  have last : (p.typed f.toList).lastWord = f.toList := by
    rw [lastWord_typed, before.2, same, List.nil_append]
    rw [same]
    exact fun c member => isWordChar_of_isLower (lower c member)
  have no_number : (p.typed f.toList).endsWithNumber = false := by
    obtain ⟨d, more, chars⟩ := List.exists_cons_of_ne_nil some_chars
    have letter : d.isAlpha := by
      simp [Char.isAlpha, lower d (by rw [chars]; exact List.mem_cons_self)]
    rw [Pass.endsWithNumber, last, chars]
    exact Formula.isDigit_of_isAlpha letter
  have kind : (p.typed f.toList).bracketKind mode = callBracket mode f := by
    rw [Pass.bracketKind, last, String.ofList_toList, function]
    rfl
  have opened : openBracket mode (p.typed f.toList) =
      { (p.typed f.toList).write (callBracket mode f).opener with
        brackets := callBracket mode f :: p.brackets } := by
    rw [openBracket_eq, typed_no_closer some_chars plain, no_number, kind]
    rfl
  rw [opened] at ran_inner
  have after : After { (p.typed f.toList).write (callBracket mode f).opener with
      brackets := callBracket mode f :: p.brackets
      previous := some o } .opener := by
    refine (after_of_operator rfl).2 ⟨no_closer_of_opener opens, ?_⟩
    have stop : isWordChar '(' = false := by decide
    cases callBracket mode f <;> simp [Pass.lastWord, Pass.write, Bracket.opener, stop]
  obtain ⟨written, brackets⟩ := closed closes inside later rfl after ran_inner
  refine ⟨?_, brackets⟩
  rw [written]
  simp [Pass.write, Pass.typed, same]

end Writes

/-! ### What is typed is written -/

theorem Contributes.times {w : List Char} {ts : List Formula.Token} (row : Contributes w ts)
    (t : Formula.Token) : Contributes (Line.times t ++ w) (product t ++ ts) := by
  have product : Contributes ('*' :: w) (.star :: ts) :=
    row.mark ⟨by decide, by decide⟩ (.mark rfl (by simp))
  cases t with
  | number n | closer => exact product
  | _ => exact row

theorem residualName_word {w : List Char} (name : IsTypedName w) :
    (residualName w).toList.head?.any Char.isAlpha ∧ ∀ c ∈ (residualName w).toList, isWordChar c := by
  rw [residualName, canonicalWord, canonicalConstant?]
  split
  next => exact ⟨by simp, by simp [isWordChar]⟩
  next =>
    split
    next => exact ⟨by simp, by simp [isWordChar]⟩
    next =>
      rw [Option.getD_none, String.toList_ofList]
      exact name.word

theorem operator_facts {c : Char} {u : Formula.Token}
    (member : (c, u) ∈ [('+', Formula.Token.plus), ('-', .minus), ('*', .star), ('/', .slash),
      ('^', .hat)]) :
    IsStop c ∧ IsGlyph c ∧ glyph c = [c] ∧ Formula.Spelling u [c] ∧ u.endsOperand = false := by
  simp only [List.mem_cons, Prod.mk.injEq, List.not_mem_nil, or_false] at member
  rcases member with ⟨rfl, rfl⟩ | ⟨rfl, rfl⟩ | ⟨rfl, rfl⟩ | ⟨rfl, rfl⟩ | ⟨rfl, rfl⟩ <;>
    exact ⟨⟨by decide, by decide⟩, ⟨by decide, by decide, by decide, by decide, by decide⟩,
      by decide, .mark rfl (by simp), rfl⟩

theorem Contributes.call {f F : String} {w v : List Char} {us ts : List Formula.Token}
    (function : canonicalFunction? f = some F) (inner : Contributes w us) (row : Contributes v ts) :
    Contributes (f.toList ++ ((callBracket mode f).opener.toList ++
        (w ++ ((callBracket mode f).closer.toList ++ v))))
      (.identifier F :: (Line.enclosed (callBracket mode f) us ++ ts)) := by
  have facts := isFunction_of_canonical function
  have letter : f.toList.head?.any Char.isAlpha := by
    obtain ⟨d, more, chars⟩ := List.exists_cons_of_ne_nil facts.lower.1
    simp [chars, Char.isAlpha, facts.lower.2 d (by rw [chars]; exact List.mem_cons_self)]
  have word : ∀ c ∈ f.toList, isWordChar c := fun c member =>
    isWordChar_of_isLower (facts.lower.2 c member)
  have means : ∀ call m, Means (String.ofList f.toList) call m → m.text = F := by
    rw [String.ofList_toList]
    exact fun call m means => means.text_of_function function
  refine (inner.enclosed (callBracket mode f) row).word letter word ?_ means
    (spelling_identifier facts.starts facts.word facts.no_literal)
  intro d first
  have stop : isWordChar '(' = false := by decide
  cases kind : callBracket mode f <;> rw [kind] at first <;> cases first <;> exact stop

/-- What is typed is written as normal text that contributes the row. -/
theorem exists_written {t : Formula.Token} {s : List Char} {ts : List Formula.Token}
    (typed : Typed mode t s ts) : ∃ w, Contributes w ts ∧ Writes mode t s w ∧
      (t.endsOperand → ∀ c ∈ w.head?, IsStop c) := by
  have not_after {t : Formula.Token} {w : List Char} (no_operand : t.endsOperand = false)
      (operand : t.endsOperand) : ∀ c ∈ w.head?, IsStop c := by
    rw [no_operand] at operand
    cases operand
  induction typed with
  | nil => exact ⟨[], .nil, .nil, fun _ => nofun⟩
  | @operator t u c s ts member _ ih =>
    obtain ⟨w, row, writes, -⟩ := ih
    obtain ⟨stop, plain, alone, spelling, no_operand⟩ := operator_facts member
    refine ⟨c :: w, row.mark stop spelling, writes.operator plain alone stop.1 no_operand, ?_⟩
    intro _ d first
    cases first
    exact stop
  | @number t w m s n ts no_operand mantissa value _ ih =>
    obtain ⟨v, row, writes, stop⟩ := ih
    exact ⟨m ++ v, row.number mantissa.glyphs.2.2 value (stop rfl), writes.number no_operand mantissa,
      not_after no_operand⟩
  | @scientific t w m sign k s n x ts no_operand mantissa value signed digits exponent _ ih =>
    obtain ⟨v, row, writes, stop⟩ := ih
    exact ⟨_, row.scientific mantissa.glyphs.2.2 value signed digits exponent (stop rfl),
      writes.scientific no_operand mantissa signed digits, not_after no_operand⟩
  | @name t w s ts no_operand name no_function no_literal _ ih =>
    obtain ⟨v, row, writes, stop⟩ := ih
    obtain ⟨letter, word⟩ := name.word
    obtain ⟨starts, residual_word⟩ := residualName_word name
    exact ⟨_, row.word letter word (fun c first => (stop rfl c first).1)
      (fun call m means => means.text_of_name no_function)
      (spelling_identifier starts residual_word no_literal),
      writes.name no_operand name no_function, not_after no_operand⟩
  | @bracket t o c inner s us ts opens closes _ _ inside later =>
    obtain ⟨w, inner_row, inner_writes, -⟩ := inside
    obtain ⟨v, row, writes, -⟩ := later
    refine ⟨_, (inner_row.enclosed .plain row).times t, inner_writes.bracket opens closes writes, ?_⟩
    intro _ d first
    have star : IsStop '*' := ⟨by decide, by decide⟩
    have opener : IsStop '(' := ⟨by decide, by decide⟩
    cases t <;> cases first <;> assumption
  | @call t f F o c inner s us ts no_operand function opens closes _ _ inside later =>
    obtain ⟨w, inner_row, inner_writes, -⟩ := inside
    obtain ⟨v, row, writes, -⟩ := later
    exact ⟨_, inner_row.call function row,
      inner_writes.call function no_operand opens closes writes, not_after no_operand⟩

/-! ### The residual of a line -/

theorem isAllowed_toLower {c : Char} (allowed : isAllowed c) : isAllowed c.toLower := by
  by_cases upper : c.isUpper
  · have letter : c.toLower.isAlpha = true := by
      rw [Char.isAlpha_toLower_eq_isAlpha, Char.isAlpha, upper, Bool.true_or]
    simp [isAllowed, isWordChar, Char.isAlphanum, letter]
  · rwa [Char.toLower_eq_of_not_isUpper upper]

theorem isSpace_toLower (c : Char) : isSpace c.toLower = isSpace c := by
  rw [Bool.eq_iff_iff]
  simp only [isSpace, Bool.or_eq_true, beq_iff_eq,
    toLower_eq_mark (show ' '.isAlpha = false by decide),
    toLower_eq_mark (show '\t'.isAlpha = false by decide)]

theorem run_bare {s : List Char} (ran : run mode p s = .ok q) : run mode p (bare s) = .ok q := by
  induction s generalizing p with
  | nil => exact ran
  | cons c rest ih =>
    obtain ⟨r, stepped, ran_rest⟩ := run_cons.1 ran
    obtain ⟨allowed, ⟨space, rfl⟩ | ⟨visible, fine, x, emitted, rfl⟩⟩ := step_eq_ok.1 stepped
    · have dropped : bare (c :: rest) = bare rest := by simp [bare, space]
      rw [dropped]
      exact ih ran_rest
    · have kept : bare (c :: rest) = c.toLower :: bare rest := by simp [bare, lower, visible]
      have same := Char.toLower_toLower_eq_toLower c
      rw [kept]
      refine run_cons.2 ⟨_, step_eq_ok.2 ⟨isAllowed_toLower allowed, .inr ⟨?_, ?_, x, ?_, ?_⟩⟩,
        ih ran_rest⟩
      · rw [isSpace_toLower, visible]
      · rw [same, fine]
      · rw [same, emitted]
      · rw [same]

/-- What each character keeps that breaks no rule, the pass over a text keeps: an invariant of the pass
and what is said of the characters to come. -/
theorem run_keeps {I : Pass → Prop} {R : Option Char → List Char → Prop} {line : List Char}
    (keeps : ∀ {p r : Pass} {c : Char} {s : List Char}, I p → R p.previous (c :: s) →
      isAllowed c ∧ isSpace c = false → fault? p c = none → emit mode p c = .ok r →
      I { r with previous := some c } ∧ R (some c) s)
    (start : I p) (rest : R p.previous (bare line)) (ran : run mode p line = .ok q) : I q := by
  induction line generalizing p with
  | nil =>
    cases ran
    exact start
  | cons c more ih =>
    obtain ⟨r, stepped, ran_more⟩ := run_cons.1 ran
    obtain ⟨allowed, ⟨space, rfl⟩ | ⟨visible, fine, x, emitted, rfl⟩⟩ := step_eq_ok.1 stepped
    · have dropped : bare (c :: more) = bare more := by simp [bare, space]
      exact ih start (dropped ▸ rest) ran_more
    · have kept : bare (c :: more) = c.toLower :: bare more := by simp [bare, lower, visible]
      rw [kept] at rest
      have lowered : isAllowed c.toLower ∧ isSpace c.toLower = false :=
        ⟨isAllowed_toLower allowed, (isSpace_toLower c).trans visible⟩
      obtain ⟨next, rest⟩ := keeps start rest lowered fine emitted
      exact ih next rest ran_more

theorem run_of_typed {side : List Char} {ts : List Formula.Token}
    (typed : Typed mode .opener (bare side) ts) (ran : run mode .start side = .ok p) :
    Contributes p.written.reverse ts ∧ p.brackets = [] := by
  obtain ⟨w, row, writes, -⟩ := exists_written typed
  obtain ⟨written, brackets⟩ := writes .start p ⟨rfl, rfl⟩ (run_bare ran)
  have same : p.written.reverse = w := by simp [written, Pass.start]
  exact ⟨same ▸ row, brackets⟩

/-- The residual of an accepted line consists of the texts of the rows that its sides are typed
for. -/
theorem residual_of_typed {line : String} {e : LineEquation}
    (read : LineEquation.ofLine mode line = .ok (some e)) {left right : List Char}
    (sides : line.toList = left ++ '=' :: right) {ts us : List Formula.Token}
    (left_typed : Typed mode .opener (bare left) ts)
    (right_typed : Typed mode .opener (bare right) us) :
    ∃ a b, Spelled a ts ∧ Spelled b us ∧
      e.residual = String.ofList (a ++ (inserted ++ (b ++ [')']))) := by
  obtain ⟨left', right', r, sides', before, after, ran_left, -, later⟩ := exists_sides_of_line read
  obtain ⟨rfl, -, rfl⟩ := (List.append_cons_inj_of_notMem before after).1 (sides'.symm.trans sides)
  obtain ⟨left_row, closed⟩ := run_of_typed left_typed ran_left
  obtain ⟨s, text, names, ran_right, -, -, contributed, residual⟩ := later (by rw [closed]; rfl)
  obtain ⟨right_row, -⟩ := run_of_typed right_typed ran_right
  obtain ⟨a, as, b, bs, of_left, of_right, rfl⟩ := contributions_sides left_row.not_runsOn contributed
  exact ⟨a, b, left_row.spelled a as of_left, right_row.spelled b bs of_right, residual⟩

end Simultaneous.Line
