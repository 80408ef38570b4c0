import Simultaneous.Proofs.Line.Names

/-!
The tokens of a text and of a text that goes on. Before a mark that continues neither a word nor a
number the tokens of a text are complete, and so is what they contribute to a residual. The one
exception is a text that ends with a number and an `e`: a sign and digits after it are an exponent.
-/

namespace Simultaneous.Line

open Text

theorem takeWhile_append_stop {α : Type} {p : α → Bool} {c : α} (stop : p c = false) (s t : List α) :
    (s ++ c :: t).takeWhile p = s.takeWhile p := by
  induction s with
  | nil => simp [stop]
  | cons d rest ih => simp only [List.cons_append, List.takeWhile_cons, ih]

theorem dropWhile_append_stop {α : Type} {p : α → Bool} {c : α} (stop : p c = false) (s t : List α) :
    (s ++ c :: t).dropWhile p = s.dropWhile p ++ c :: t := by
  induction s with
  | nil => simp [stop]
  | cons d rest ih =>
    simp only [List.cons_append, List.dropWhile_cons, ih]
    split <;> rfl

/-! ### Tokens of two texts -/

theorem takeDigits_append_stop {c : Char} (stop : c.isDigit = false) (s t : List Char) :
    takeDigits (s ++ c :: t) = ((takeDigits s).1, (takeDigits s).2 ++ c :: t) :=
  Prod.ext (takeWhile_append_stop stop s t) (dropWhile_append_stop stop s t)

theorem takeDigits_stop {c : Char} (stop : c.isDigit = false) (t : List Char) :
    takeDigits (c :: t) = ([], c :: t) :=
  takeDigits_append_stop stop [] t

theorem takeFraction_append_stop {c : Char} (stop : c.isDigit = false) (point : c ≠ '.')
    (s t : List Char) :
    takeFraction (s ++ c :: t) = ((takeFraction s).1, (takeFraction s).2 ++ c :: t) := by
  cases s with
  | nil => simp [takeFraction, point]
  | cons d rest =>
    by_cases dot : d = '.'
    · subst dot
      rcases taken : takeDigits rest with ⟨_ | ⟨e, digits⟩, after⟩ <;>
        simp [takeFraction, takeDigits_append_stop stop, taken]
    · simp [takeFraction, dot]

/-- An exponent is taken alike in a longer text, unless only the `e` of it is there and a sign
follows. -/
theorem takeExponent?_append_stop {c : Char} (stop : c.isDigit = false) (letter : c ≠ 'e')
    (s t : List Char) (apart : isSign c → s ≠ ['e']) :
    takeExponent? (s ++ c :: t) =
      (takeExponent? s).map fun (read, negative, digits, rest) =>
        (read, negative, digits, rest ++ c :: t) := by
  cases s with
  | nil => simp [takeExponent?, letter]
  | cons d after =>
    by_cases marker : d = 'e'
    · subst marker
      cases after with
      | nil =>
        have no_sign : ¬isSign c := fun sign => apart sign rfl
        have others : c ≠ '-' ∧ c ≠ '+' := by
          constructor <;> rintro rfl <;> exact no_sign (by decide)
        have alone : takeExponent? ['e'] = none := rfl
        rw [alone, List.cons_append, List.nil_append]
        simp [takeExponent?, others.1, others.2, takeDigits_stop stop]
      | cons f more =>
        by_cases minus : f = '-'
        · subst minus
          rcases taken : takeDigits more with ⟨_ | ⟨g, digits⟩, rest⟩ <;>
            simp [takeExponent?, takeDigits_append_stop stop, taken]
        by_cases plus : f = '+'
        · subst plus
          rcases taken : takeDigits more with ⟨_ | ⟨g, digits⟩, rest⟩ <;>
            simp [takeExponent?, takeDigits_append_stop stop, taken]
        · have unsigned := takeDigits_append_stop stop (f :: more) t
          rw [List.cons_append] at unsigned
          rcases taken : takeDigits (f :: more) with ⟨_ | ⟨g, digits⟩, rest⟩ <;>
            simp [takeExponent?, minus, plus, unsigned, taken]
    · simp [takeExponent?, marker]

def afterMantissa (s : List Char) : List Char := (takeFraction (takeDigits s).2).2

theorem takeNumber_append_stop {c : Char} (stop : isWordChar c = false) (point : c ≠ '.')
    (s t : List Char) (apart : isSign c → afterMantissa s ≠ ['e']) :
    takeNumber (s ++ c :: t) = ((takeNumber s).1, (takeNumber s).2 ++ c :: t) := by
  have digit : c.isDigit = false := Bool.eq_false_iff.2 (isWordChar_eq_false_iff.1 stop).1
  have letter : c ≠ 'e' := by
    rintro rfl
    exact absurd stop (by decide)
  have exponent := takeExponent?_append_stop digit letter (afterMantissa s) t apart
  unfold afterMantissa at exponent
  unfold takeNumber
  simp only [takeDigits_append_stop digit, takeFraction_append_stop digit point, exponent]
  rcases takeExponent? (takeFraction (takeDigits s).2).2 with _ | ⟨read, negative, digits, rest⟩ <;>
    rfl

theorem tokens_digit {c : Char} (digit : c.isDigit) (s : List Char) :
    tokens (c :: s) = (takeNumber (c :: s)).1 :: tokens (takeNumber (c :: s)).2 := by
  rw [tokens]
  simp [digit]

theorem tokens_letter {c : Char} (no_digit : ¬c.isDigit) (letter : c.isAlpha) (s : List Char) :
    tokens (c :: s) = .word (takeWord (c :: s)).1 :: tokens (takeWord (c :: s)).2 := by
  rw [tokens]
  simp [no_digit, letter]

theorem tokens_mark {c : Char} (stop : isWordChar c = false) (s : List Char) :
    tokens (c :: s) = .mark c :: tokens s := by
  obtain ⟨no_digit, no_letter⟩ := isWordChar_eq_false_iff.1 stop
  rw [tokens]
  simp [no_digit, no_letter]

/-- The text ends with a number and an `e`, which would be an exponent if digits followed. -/
def RunsOn (s : List Char) : Prop :=
  ∃ front mantissa, tokens s = front ++ [.number mantissa mantissa, .word ['e']]

theorem RunsOn.cons {t : Token} {s rest : List Char} (runs : RunsOn rest)
    (first : tokens s = t :: tokens rest) : RunsOn s := by
  obtain ⟨front, mantissa, same⟩ := runs
  exact ⟨t :: front, mantissa, by rw [first, same, List.cons_append]⟩

/-- A number before a lone `e` is its mantissa. -/
theorem takeNumber_of_afterMantissa {s : List Char} (lone : afterMantissa s = ['e']) :
    ∃ mantissa, takeNumber s = (.number mantissa mantissa, ['e']) := by
  have none_taken : takeExponent? ['e'] = none := rfl
  unfold afterMantissa at lone
  refine ⟨(takeDigits s).1 ++ (takeFraction (takeDigits s).2).1, ?_⟩
  unfold takeNumber
  simp only [lone, none_taken]

theorem tokens_lone : tokens ['e'] = [.word ['e']] := by
  have word : takeWord ['e'] = (['e'], []) := by decide
  rw [tokens_letter (by decide) (by decide), word, tokens]

theorem runsOn_of_afterMantissa {c : Char} {s : List Char} (digit : c.isDigit)
    (lone : afterMantissa (c :: s) = ['e']) : RunsOn (c :: s) := by
  obtain ⟨mantissa, taken⟩ := takeNumber_of_afterMantissa lone
  refine ⟨[], mantissa, ?_⟩
  rw [tokens_digit digit, taken, tokens_lone, List.nil_append]

/-- Before a character that goes on no word and no number, the tokens of a text are complete. -/
theorem tokens_append {c : Char} (stop : isWordChar c = false) (point : c ≠ '.') (s t : List Char)
    (apart : isSign c → ¬RunsOn s) : tokens (s ++ c :: t) = tokens s ++ tokens (c :: t) := by
  fun_induction tokens s with
  | case1 => rfl
  | case2 d rest digit ih =>
    have number := takeNumber_append_stop stop point (d :: rest) t fun sign lone =>
      apart sign (runsOn_of_afterMantissa digit lone)
    rw [List.cons_append, tokens_digit digit, ← List.cons_append, number, List.cons_append,
      ih fun sign runs => apart sign (runs.cons (tokens_digit digit rest))]
  | case3 d rest no_digit letter ih =>
    have word : takeWord (d :: rest ++ c :: t) =
        ((takeWord (d :: rest)).1, (takeWord (d :: rest)).2 ++ c :: t) :=
      Prod.ext (takeWhile_append_stop stop _ t) (dropWhile_append_stop stop _ t)
    rw [List.cons_append, tokens_letter no_digit letter, ← List.cons_append, word, List.cons_append,
      ih fun sign runs => apart sign (runs.cons (tokens_letter no_digit letter rest))]
  | case4 d rest no_digit no_letter ih =>
    have mark := isWordChar_eq_false_iff.2 ⟨no_digit, no_letter⟩
    rw [List.cons_append, tokens_mark mark, List.cons_append,
      ih fun sign runs => apart sign (runs.cons (tokens_mark mark rest))]

theorem read_takeNumber (s : List Char) :
    (takeNumber s).1.read ++ (takeNumber s).2 = s := by
  have whole := takeDigits_append s
  have fraction := (takeFraction_spec (takeDigits s).2).1
  unfold takeNumber
  simp only
  split
  next => rw [Token.read, List.append_assoc, fraction, whole]
  next read negative digits rest taken =>
    rw [Token.read, List.append_assoc, List.append_assoc, (takeExponent?_spec taken).1, fraction,
      whole]

theorem read_tokens (s : List Char) : (tokens s).flatMap Token.read = s := by
  fun_induction tokens s with
  | case1 => rfl
  | case2 d rest digit ih => rw [List.flatMap_cons, ih, read_takeNumber]
  | case3 d rest no_digit letter ih => rw [List.flatMap_cons, ih, Token.read, takeWord_append]
  | case4 d rest no_digit no_letter ih =>
    rw [List.flatMap_cons, ih]
    rfl

theorem afterMantissa_of_takeNumber {c : Char} {s mantissa rest : List Char} (digit : c.isDigit)
    (taken : takeNumber (c :: s) = (.number mantissa mantissa, rest)) :
    afterMantissa (c :: s) = rest := by
  have first : (takeDigits (c :: s)).1 = c :: (takeDigits s).1 := by
    rw [takeDigits, List.takeWhile_cons_of_pos digit, takeDigits]
  unfold takeNumber at taken
  simp only at taken
  split at taken
  next => exact (Prod.ext_iff.1 taken).2
  next read negative digits after exponent =>
    have token := Token.number.inj (Prod.ext_iff.1 taken).1
    have same := token.1.trans token.2.symm
    rw [first] at same
    have bracket : c = '(' := (List.cons.inj same).1
    rw [bracket] at digit
    exact absurd digit (by decide)

theorem takeNumber_of_lone {s : List Char} (lone : afterMantissa s = ['e']) (t : List Char) :
    ∃ read written, takeNumber (s ++ '-' :: '1' :: '*' :: t) =
      (.number read written, '*' :: t) := by
  have exponent : takeExponent? ('e' :: '-' :: '1' :: '*' :: t) =
      some (['e', '-', '1'], true, ['1'], '*' :: t) := by
    simp [takeExponent?, takeDigits]
  have stop : '-'.isDigit = false := by decide
  unfold afterMantissa at lone
  unfold takeNumber
  simp only [takeDigits_append_stop stop, takeFraction_append_stop stop (by decide : '-' ≠ '.'), lone,
    List.cons_append, List.nil_append, exponent]
  exact ⟨_, _, rfl⟩

/-- The number that a text ends with takes up digits that follow its `e`. -/
theorem tokens_of_runsOn {s mantissa : List Char} {front : List Token} (t : List Char)
    (ends : tokens s = front ++ [.number mantissa mantissa, .word ['e']]) :
    ∃ read written, tokens (s ++ '-' :: '1' :: '*' :: t) =
      front ++ .number read written :: tokens ('*' :: t) := by
  have stop : isWordChar '-' = false := by decide
  fun_induction tokens s generalizing front with
  | case1 => simp at ends
  | case2 d rest digit ih =>
    cases front with
    | nil =>
      obtain ⟨number, later⟩ := List.cons.inj ends
      have left := read_tokens (takeNumber (d :: rest)).2
      rw [later] at left
      have lone := afterMantissa_of_takeNumber digit (Prod.ext number left.symm)
      obtain ⟨read, written, taken⟩ := takeNumber_of_lone lone t
      refine ⟨read, written, ?_⟩
      rw [List.cons_append, tokens_digit digit, ← List.cons_append, taken, List.nil_append]
    | cons first others =>
      obtain ⟨rfl, later⟩ := List.cons.inj ends
      have apart : afterMantissa (d :: rest) ≠ ['e'] := by
        intro lone
        obtain ⟨m, taken⟩ := takeNumber_of_afterMantissa lone
        rw [taken, tokens_lone] at later
        have size := congrArg List.length later
        simp at size
      obtain ⟨read, written, same⟩ := ih later
      refine ⟨read, written, ?_⟩
      have number := takeNumber_append_stop stop (by decide) (d :: rest) ('1' :: '*' :: t)
        fun _ => apart
      rw [List.cons_append, tokens_digit digit, ← List.cons_append, number, List.cons_append, same]
  | case3 d rest no_digit letter ih =>
    cases front with
    | nil => cases (List.cons.inj ends).1
    | cons first others =>
      obtain ⟨rfl, later⟩ := List.cons.inj ends
      obtain ⟨read, written, same⟩ := ih later
      refine ⟨read, written, ?_⟩
      have word : takeWord (d :: rest ++ '-' :: '1' :: '*' :: t) =
          ((takeWord (d :: rest)).1, (takeWord (d :: rest)).2 ++ '-' :: '1' :: '*' :: t) :=
        Prod.ext (takeWhile_append_stop stop _ _) (dropWhile_append_stop stop _ _)
      rw [List.cons_append, tokens_letter no_digit letter, ← List.cons_append, word,
        List.cons_append, same]
  | case4 d rest no_digit no_letter ih =>
    cases front with
    | nil => cases (List.cons.inj ends).1
    | cons first others =>
      obtain ⟨rfl, later⟩ := List.cons.inj ends
      obtain ⟨read, written, same⟩ := ih later
      have mark := isWordChar_eq_false_iff.2 ⟨no_digit, no_letter⟩
      exact ⟨read, written, by rw [List.cons_append, tokens_mark mark, List.cons_append, same]⟩

/-! ### Contributions of two rows of tokens -/

def Token.IsNeutral : Token → Prop
  | .number _ _ => True
  | .word _ => False
  | .mark c => c ≠ '(' ∧ c ≠ '.'

theorem contribution_neutral {u : Token} (neutral : u.IsNeutral) (t : Token) (us : List Token) :
    contribution t (u :: us) = contribution t [] := by
  have no_call : ((u :: us).head? == some (.mark '(')) = false := by
    rw [List.head?_cons, beq_eq_false_iff_ne]
    intro same
    rw [Option.some.inj same] at neutral
    exact neutral.1 rfl
  cases t with
  | number read written =>
    cases u with
    | number _ _ => rfl
    | word w => exact neutral.elim
    | mark c => simp [contribution, neutral.2]
  | word w =>
    rw [contribution, contribution, no_call]
    rfl
  | mark c => rfl

theorem contribution_append {u : Token} (neutral : u.IsNeutral) (t : Token) (ts us : List Token) :
    contribution t (ts ++ u :: us) = contribution t ts := by
  cases ts with
  | nil => exact contribution_neutral neutral t us
  | cons first more => exact contribution_congr rfl

def joined (front back : Except LineError (List Char × List String)) :
    Except LineError (List Char × List String) :=
  match front with
  | .error e => .error e
  | .ok (text, names) =>
    match back with
    | .error e => .error e
    | .ok (texts, others) => .ok (text ++ texts, names ++ others)

theorem joined_eq_ok {front back : Except LineError (List Char × List String)} {text : List Char}
    {names : List String} (read : joined front back = .ok (text, names)) :
    ∃ a as b bs, front = .ok (a, as) ∧ back = .ok (b, bs) ∧ text = a ++ b := by
  rcases front with e | ⟨a, as⟩
  · cases read
  · rcases back with e | ⟨b, bs⟩
    · cases read
    · cases read
      exact ⟨a, as, b, bs, rfl, rfl, rfl⟩

theorem contributions_append {u : Token} (neutral : u.IsNeutral) (ts us : List Token) :
    contributions (ts ++ u :: us) = joined (contributions ts) (contributions (u :: us)) := by
  induction ts with
  | nil => rcases row : contributions (u :: us) with e | ⟨b, bs⟩ <;> simp [row, contributions, joined]
  | cons t more ih =>
    rw [List.cons_append, contributions, contribution_append neutral, ih,
      contributions.eq_2 t more]
    generalize contributions (u :: us) = back
    rcases contribution t more with e | ⟨first, name?⟩
    · rfl
    · rcases contributions more with e | ⟨a, as⟩
      · rfl
      · rcases back with e | ⟨b, bs⟩
        · rfl
        · simp [joined]

end Simultaneous.Line
