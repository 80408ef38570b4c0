import Mathlib
import Simultaneous.Proofs.Line.Pass
import Simultaneous.Proofs.Name

/-!
The unknowns that an equation line names have internal names. The character pass lowers letters and
writes an underscore as `Gg`; the only other upper case in normal text is that of the factor
`Degree`, which never touches a word.
-/

namespace Simultaneous.Line

open Text Name

inductive IsNormal : (afterWord : Bool) → List Char → Prop where
  | nil {b : Bool} : IsNormal b []
  | plain {b : Bool} {c : Char} {s : List Char} :
      c.toLower = c → c ≠ '_' → IsNormal (isWordChar c) s → IsNormal b (c :: s)
  | pair {b : Bool} {s : List Char} : IsNormal true s → IsNormal b ('G' :: 'g' :: s)
  | degrees {s : List Char} :
      IsNormal false ('*' :: s) → IsNormal false ("Degree".toList ++ '*' :: s)

namespace IsNormal

theorem anywhere {s : List Char} (n : IsNormal true s) (b : Bool) : IsNormal b s := by
  cases n with
  | nil => exact .nil
  | plain low plain rest => exact .plain low plain rest
  | pair rest => exact .pair rest

theorem append {b : Bool} {s t : List Char} (front : IsNormal b s) (back : IsNormal true t) :
    IsNormal b (s ++ t) := by
  induction front with
  | nil => exact back.anywhere _
  | plain low plain _ ih => exact .plain low plain ih
  | pair _ ih => exact .pair ih
  | degrees _ ih =>
    rw [List.append_assoc]
    exact .degrees ih

theorem tail {b : Bool} {c : Char} {s : List Char} (n : IsNormal b (c :: s))
    (low : c.toLower = c) : IsNormal (isWordChar c) s := by
  generalize same : c :: s = t at n
  cases n with
  | nil => cases same
  | plain _ _ rest =>
    cases same
    exact rest
  | pair _ =>
    cases same
    exact absurd low (by decide)
  | degrees _ =>
    cases same
    exact absurd low (by decide)

theorem drop {b : Bool} {read rest : List Char} (n : IsNormal b (read ++ rest))
    (low : ∀ c ∈ read, c.toLower = c) (some_read : read ≠ []) : IsNormal false rest := by
  induction read generalizing b with
  | nil => exact absurd rfl some_read
  | cons c others ih =>
    have next := n.tail (low c List.mem_cons_self)
    cases others with
    | nil =>
      cases word : isWordChar c with
      | false => rwa [word] at next
      | true => exact (word ▸ next : IsNormal true rest).anywhere false
    | cons d more =>
      exact ih next (fun x member => low x (List.mem_cons_of_mem c member)) (List.cons_ne_nil _ _)

theorem of_plain {s : List Char} (all : ∀ c ∈ s, c.toLower = c ∧ c ≠ '_') (b : Bool) :
    IsNormal b s := by
  induction s generalizing b with
  | nil => exact .nil
  | cons c rest ih =>
    have first := all c List.mem_cons_self
    exact .plain first.1 first.2 (ih (fun x member => all x (List.mem_cons_of_mem c member)) _)

theorem takeWhile {s : List Char} (n : IsNormal true s) : IsInternal (s.takeWhile isWordChar) := by
  generalize going_on : true = b at n
  induction n with
  | nil => exact .nil
  | @plain _ c s low plain _ ih =>
    cases word : isWordChar c with
    | false =>
      rw [List.takeWhile_cons_of_neg (by rw [word]; decide)]
      exact .nil
    | true =>
      rw [List.takeWhile_cons_of_pos word]
      exact .plain low plain (ih word.symm)
  | pair _ ih =>
    rw [List.takeWhile_cons_of_pos (by decide), List.takeWhile_cons_of_pos (by decide)]
    exact .pair (ih rfl)
  | degrees _ _ => cases going_on

theorem dropWhile {s : List Char} (n : IsNormal true s) :
    IsNormal false (s.dropWhile isWordChar) := by
  generalize going_on : true = b at n
  induction n with
  | nil => exact .nil
  | @plain _ c s low plain rest ih =>
    cases word : isWordChar c with
    | false =>
      rw [List.dropWhile_cons_of_neg (by rw [word]; decide)]
      exact .plain low plain rest
    | true =>
      rw [List.dropWhile_cons_of_pos word]
      exact ih word.symm
  | pair _ ih =>
    rw [List.dropWhile_cons_of_pos (by decide), List.dropWhile_cons_of_pos (by decide)]
    exact ih rfl
  | degrees _ _ => cases going_on

theorem word {c : Char} {s : List Char} (n : IsNormal false (c :: s)) (letter : isWordChar c) :
    (((c :: s).takeWhile isWordChar = "Degree".toList) ∨
        IsInternal ((c :: s).takeWhile isWordChar)) ∧
      IsNormal false ((c :: s).dropWhile isWordChar) := by
  generalize same : c :: s = t at n
  cases n with
  | nil => cases same
  | @plain _ d rest low plain going_on =>
    cases same
    rw [letter] at going_on
    rw [List.takeWhile_cons_of_pos letter, List.dropWhile_cons_of_pos letter]
    exact ⟨.inr (.plain low plain going_on.takeWhile), going_on.dropWhile⟩
  | pair going_on =>
    rw [List.takeWhile_cons_of_pos (by decide), List.takeWhile_cons_of_pos (by decide),
      List.dropWhile_cons_of_pos (by decide), List.dropWhile_cons_of_pos (by decide)]
    exact ⟨.inr (.pair going_on.takeWhile), going_on.dropWhile⟩
  | degrees rest =>
    have factor : ∀ d ∈ "Degree".toList, isWordChar d = true := by simp [isWordChar]
    rw [List.takeWhile_append_of_pos factor, List.dropWhile_append_of_pos factor,
      List.takeWhile_cons_of_neg (by decide), List.dropWhile_cons_of_neg (by decide),
      List.append_nil]
    exact ⟨.inl rfl, rest⟩

end IsNormal

/-! ### The character pass -/

theorem isNormal_write {p : Pass} {s : String} (n : IsNormal false p.written.reverse)
    (piece : IsNormal true s.toList) : IsNormal false (p.write s).written.reverse := by
  rw [Pass.write, List.reverse_append, List.reverse_reverse]
  exact n.append piece

theorem isNormal_opener (kind : Bracket) : IsNormal true kind.opener.toList := by
  cases kind with
  | plain => exact .of_plain (by simp [Bracket.opener]) true
  | call => exact .of_plain (by simp [Bracket.opener]) true
  | degrees =>
    have factor : IsNormal false ("Degree".toList ++ ['*', '(']) :=
      .degrees (.of_plain (by simp) false)
    exact .plain (by decide) (by decide) factor

theorem isNormal_closer (kind : Bracket) : IsNormal true kind.closer.toList := by
  cases kind <;> exact .of_plain (by simp [Bracket.closer]) true

theorem isNormal_openBracket (mode : AngleMode) {p : Pass} (n : IsNormal false p.written.reverse) :
    IsNormal false (openBracket mode p).written.reverse := by
  have times : IsNormal true "*".toList := .of_plain (by simp) true
  rw [openBracket_eq]
  split
  next => exact isNormal_write (isNormal_write n times) (isNormal_opener _)
  next => exact isNormal_write n (isNormal_opener _)

theorem isNormal_emit {mode : AngleMode} {p q : Pass} {c : Char} (low : c.toLower = c)
    (n : IsNormal false p.written.reverse) (emitted : emit mode p c = .ok q) :
    IsNormal false q.written.reverse := by
  cases emit_eq_ok.1 emitted with
  | equality => exact isNormal_write n (.of_plain (by simp) true)
  | underscore => exact isNormal_write n (.pair .nil)
  | comma => exact isNormal_write n (.of_plain (by simp) true)
  | opener => exact isNormal_openBracket mode n
  | closer => exact isNormal_write n (isNormal_closer _)
  | single others =>
    refine isNormal_write n (.of_plain ?_ true)
    intro d member
    rw [String.toList_singleton, List.mem_singleton] at member
    rw [member]
    exact ⟨low, others.2.1⟩

theorem isNormal_step {mode : AngleMode} {p q : Pass} {raw : Char}
    (n : IsNormal false p.written.reverse) (stepped : step mode p raw = .ok q) :
    IsNormal false q.written.reverse := by
  obtain ⟨-, ⟨-, rfl⟩ | ⟨-, -, r, emitted, rfl⟩⟩ := step_eq_ok.1 stepped
  · exact n
  · exact isNormal_emit (q := r) (Char.toLower_toLower_eq_toLower raw) n emitted

theorem isNormal_run {mode : AngleMode} {p q : Pass} {line : List Char}
    (n : IsNormal false p.written.reverse) (ran : run mode p line = .ok q) :
    IsNormal false q.written.reverse := by
  induction line generalizing p with
  | nil =>
    cases ran
    exact n
  | cons c rest ih =>
    obtain ⟨r, stepped, ran⟩ := run_cons.1 ran
    exact ih (isNormal_step n stepped) ran

theorem isNormal_normal {mode : AngleMode} {line text : List Char}
    (read : normal mode line = .ok (some text)) : IsNormal false text := by
  obtain ⟨p, ran, -, -, -, -, rfl⟩ := normal_eq_some read
  exact (isNormal_run (p := .start) .nil ran).append (.of_plain (by simp) true)

/-! ### The tokens -/

theorem toLower_of_no_letter {c : Char} (no_letter : ¬c.isAlpha) : c.toLower = c := by
  apply Char.toLower_eq_of_not_isUpper
  intro upper
  exact no_letter (by rw [Char.isAlpha, upper, Bool.true_or])

theorem toLower_of_isDigit {c : Char} (digit : c.isDigit) : c.toLower = c := by
  apply Char.toLower_eq_of_not_isUpper
  intro upper
  simp only [Char.isDigit, Char.isUpper, Bool.and_eq_true, decide_eq_true_eq] at digit upper
  have low := UInt32.le_iff_toNat_le.1 digit.2
  have high := UInt32.le_iff_toNat_le.1 upper.1
  exact absurd (Nat.le_trans high low) (by decide)

theorem toLower_takeDigits (s : List Char) : ∀ c ∈ (takeDigits s).1, c.toLower = c := by
  intro c member
  exact toLower_of_isDigit (List.mem_takeWhile_imp member)

theorem takeFraction_spec (s : List Char) :
    (takeFraction s).1 ++ (takeFraction s).2 = s ∧
      ∀ c ∈ (takeFraction s).1, c.toLower = c := by
  unfold takeFraction
  split
  next after =>
    have parts := takeDigits_append after
    have low := toLower_takeDigits after
    split
    next => exact ⟨rfl, by simp⟩
    next digits rest taken =>
      rw [taken] at parts low
      refine ⟨by rw [List.cons_append, parts], ?_⟩
      intro c member
      rcases List.mem_cons.1 member with rfl | digit
      · decide
      · exact low c digit
  next => exact ⟨rfl, by simp⟩

theorem takeExponent?_spec {s read digits rest : List Char} {negative : Bool}
    (taken : takeExponent? s = some (read, negative, digits, rest)) :
    read ++ rest = s ∧ ∀ c ∈ read, c.toLower = c := by
  unfold takeExponent? at taken
  split at taken
  next after =>
    split at taken
    rename_i sign unsigned signed
    have front : sign ++ unsigned = after ∧ ∀ c ∈ sign, c.toLower = c := by
      split at signed <;> cases signed <;> exact ⟨rfl, by simp⟩
    have parts := takeDigits_append unsigned
    have low := toLower_takeDigits unsigned
    split at taken
    next => cases taken
    next found digits_eq =>
      rw [digits_eq] at parts low
      simp only [Option.some.injEq, Prod.mk.injEq] at taken
      obtain ⟨rfl, -, rfl, rfl⟩ := taken
      constructor
      · rw [List.cons_append, List.cons_append, List.append_assoc, parts, front.1]
      · intro c member
        rcases List.mem_cons.1 member with rfl | inside
        · decide
        · exact (List.mem_append.1 inside).elim (front.2 c) (low c)
  next => cases taken

theorem isNormal_takeNumber {c : Char} {s : List Char} (n : IsNormal false (c :: s))
    (digit : c.isDigit) : IsNormal false (takeNumber (c :: s)).2 := by
  have whole := takeDigits_append (c :: s)
  have whole_low := toLower_takeDigits (c :: s)
  have fraction := takeFraction_spec (takeDigits (c :: s)).2
  have started : (takeDigits (c :: s)).1 ≠ [] := by
    simp only [takeDigits, List.takeWhile_cons_of_pos digit, ne_eq, List.cons_ne_nil,
      not_false_eq_true]
  have after_whole : IsNormal false (takeDigits (c :: s)).2 := by
    rw [← whole] at n
    exact n.drop whole_low started
  have after_fraction : IsNormal false (takeFraction (takeDigits (c :: s)).2).2 := by
    by_cases none_taken : (takeFraction (takeDigits (c :: s)).2).1 = []
    · rw [none_taken, List.nil_append] at fraction
      rwa [fraction.1]
    · rw [← fraction.1] at after_whole
      exact after_whole.drop fraction.2 none_taken
  unfold takeNumber
  simp only
  split
  next => exact after_fraction
  next read negative digits rest taken =>
    have exponent := takeExponent?_spec taken
    rw [← exponent.1] at after_fraction
    by_cases none_taken : read = []
    · rwa [none_taken, List.nil_append] at after_fraction
    · exact after_fraction.drop exponent.2 none_taken

/-- The words of normal text are the factor and names in internal form. -/
theorem word_mem_tokens {s : List Char} (n : IsNormal false s) {w : List Char}
    (member : Token.word w ∈ tokens s) : w = "Degree".toList ∨ IsInternal w := by
  fun_induction tokens s with
  | case1 => cases member
  | case2 c rest digit ih =>
    rcases List.mem_cons.1 member with first | later
    · simp only [takeNumber] at first
      split at first <;> cases first
    · exact ih (isNormal_takeNumber n digit) later
  | case3 c rest _ letter ih =>
    have word := n.word (isWordChar_of_isAlpha letter)
    rcases List.mem_cons.1 member with first | later
    · cases first
      exact word.1
    · exact ih word.2 later
  | case4 c rest _ no_letter ih =>
    rcases List.mem_cons.1 member with first | later
    · cases first
    · have next := n.tail (toLower_of_no_letter no_letter)
      cases word : isWordChar c with
      | false => exact ih (word ▸ next) later
      | true => exact ih ((word ▸ next : IsNormal true rest).anywhere false) later

/-! ### The unknowns -/

theorem contribution_name {t : Token} {rest : List Token} {text : List Char} {name : String}
    (contributes : contribution t rest = .ok (text, some name)) :
    t = .word name.toList ∧ name ≠ "Degree" := by
  cases t with
  | number read written => cases (contribution_number contributes).2
  | mark c => cases (contribution_mark contributes).2.2
  | word w =>
    obtain ⟨call, m, -, means, -, named⟩ := contribution_word contributes
    cases means with
    | factor | function | constant => cases named
    | unknown no_factor =>
      cases named
      exact ⟨by rw [String.toList_ofList], no_factor⟩

theorem mem_contributions {ts : List Token} {text : List Char} {names : List String}
    (read : contributions ts = .ok (text, names)) {name : String} (member : name ∈ names) :
    Token.word name.toList ∈ ts ∧ name ≠ "Degree" := by
  induction ts generalizing text names with
  | nil =>
    cases read
    cases member
  | cons t rest ih =>
    obtain ⟨x, name?, y, others, first, later, -, rfl⟩ := contributions_cons_eq_ok read
    rcases List.mem_append.1 member with here | there
    · rw [Option.mem_toList] at here
      rw [here] at first
      obtain ⟨same, other⟩ := contribution_name first
      exact ⟨same ▸ List.mem_cons_self, other⟩
    · obtain ⟨inside, other⟩ := ih later there
      exact ⟨List.mem_cons_of_mem t inside, other⟩

/-- The unknowns of an equation line are distinct, and each is listed under its internal name. -/
theorem unknowns_of_line {mode : AngleMode} {line : String} {e : LineEquation}
    (read : LineEquation.ofLine mode line = .ok (some e)) :
    e.unknowns.Nodup ∧ ∀ v ∈ e.unknowns, Name.internal v = v := by
  obtain ⟨text, residual, names, normal_text, contributes, rfl⟩ := LineEquation.ofLine_eq_some read
  refine ⟨nodup_firstOccurrences names, ?_⟩
  intro v member
  obtain ⟨word, other⟩ := mem_contributions contributes ((mem_firstOccurrences names v).1 member)
  rcases word_mem_tokens (isNormal_normal normal_text) word with factor | form
  · exact absurd (String.toList_injective factor) other
  · exact internal_of_isInternal form

end Simultaneous.Line
