import Simultaneous.Proofs.Line.Tokens

/-!
The two sides of an equation line. The equality sign is written as `-1*(` while the line is read, and
the text is cut into tokens only afterwards. So each side contributes what it is on its own unless the
sign stands inside brackets, or the left side ends with a number and an `e`: then the tokens of the
left side run on into the inserted text.
-/

namespace Simultaneous.Line

open Text

/-- The text of one side of an equation, read without the other. -/
def canonical (mode : AngleMode) (side : List Char) : Except LineError (List Char) :=
  match run mode .start side with
  | .error e => .error e
  | .ok p =>
    match p.previous.filter isOperator with
    | some last => .error (.atChar .missingOperand last)
    | none =>
      if p.brackets.isBalanced then (contributions (tokens p.written.reverse)).map Prod.fst
      else .error ⟨.bracketMismatch, "("⟩

variable {mode : AngleMode}

/-! ### The equality sign -/

theorem toLower_eq_mark {m c : Char} (mark : m.isAlpha = false) : c.toLower = m ↔ c = m := by
  have lowered : c.toLower = m → c.toLower = c := fun same => by
    apply Char.toLower_eq_of_not_isUpper
    intro upper
    have letter := Char.isAlpha_toLower_eq_isAlpha (c := c)
    rw [same, mark, Char.isAlpha, upper] at letter
    cases letter
  constructor
  · exact fun same => (lowered same).symm.trans same
  · rintro rfl
    exact toLower_of_no_letter (Bool.not_eq_true _ ▸ mark)

theorem equality_openBracket (p : Pass) : (openBracket mode p).equality = p.equality := by
  rw [openBracket_eq]
  split <;> rfl

theorem equality_emit {p q : Pass} {c : Char} (emitted : emit mode p c = .ok q) :
    q.equality = (p.equality || c == '=') := by
  cases emit_eq_ok.1 emitted with
  | equality => exact (Bool.or_true _).symm
  | underscore | comma => exact (Bool.or_false _).symm
  | opener opens =>
    have chars : c = '(' ∨ c = '[' := by simpa [isOpener] using opens
    rw [equality_openBracket]
    rcases chars with rfl | rfl <;> exact (Bool.or_false _).symm
  | closer closes =>
    have chars : c = ')' ∨ c = ']' := by simpa [isCloser] using closes
    rcases chars with rfl | rfl <;> exact (Bool.or_false _).symm
  | single others =>
    rw [beq_eq_false_iff_ne.2 others.1, Bool.or_false]
    rfl

theorem equality_step {p q : Pass} {raw : Char} (stepped : step mode p raw = .ok q) :
    q.equality = (p.equality || raw == '=') ∧ (p.equality → raw ≠ '=') := by
  have same := toLower_eq_mark (m := '=') (c := raw) (by decide)
  obtain ⟨-, ⟨space, rfl⟩ | ⟨-, fine, r, emitted, rfl⟩⟩ := step_eq_ok.1 stepped
  · have other : raw ≠ '=' := by
      rintro rfl
      exact absurd space (by decide)
    exact ⟨by simp [other], fun _ => other⟩
  · refine ⟨?_, ?_⟩
    · rw [equality_emit emitted]
      congr 1
      rw [Bool.eq_iff_iff, beq_iff_eq, beq_iff_eq, same]
    · intro seen sign
      have first := (fault?_eq_none.1 fine).2.2.1 (same.2 sign)
      rw [seen] at first
      cases first

theorem notMem_of_equality {p q : Pass} {line : List Char} (ran : run mode p line = .ok q)
    (seen : p.equality) : '=' ∉ line := by
  induction line generalizing p with
  | nil => exact List.not_mem_nil
  | cons c rest ih =>
    obtain ⟨r, stepped, ran⟩ := run_cons.1 ran
    obtain ⟨flag, other⟩ := equality_step stepped
    rw [seen, Bool.true_or] at flag
    rw [List.mem_cons, not_or]
    exact ⟨(other seen).symm, ih ran flag⟩

theorem exists_sides {p q : Pass} {line : List Char} (ran : run mode p line = .ok q)
    (unseen : p.equality = false) (seen : q.equality) :
    ∃ left right r s, line = left ++ '=' :: right ∧ '=' ∉ left ∧ '=' ∉ right ∧
      run mode p left = .ok r ∧ r.equality = false ∧ step mode r '=' = .ok s ∧
      run mode s right = .ok q := by
  induction line generalizing p with
  | nil =>
    cases ran
    rw [seen] at unseen
    cases unseen
  | cons c rest ih =>
    obtain ⟨r, stepped, later⟩ := run_cons.1 ran
    obtain ⟨flag, -⟩ := equality_step stepped
    rw [unseen, Bool.false_or] at flag
    by_cases sign : c = '='
    · subst sign
      exact ⟨[], rest, p, r, rfl, List.not_mem_nil, notMem_of_equality later flag, rfl, unseen,
        stepped, later⟩
    · rw [beq_false_of_ne sign] at flag
      obtain ⟨left, right, t, s, rfl, before, after, ran_left, still, equals, ran_right⟩ :=
        ih later flag
      refine ⟨c :: left, right, t, s, rfl, ?_, after, run_cons.2 ⟨r, stepped, ran_left⟩, still,
        equals, ran_right⟩
      rw [List.mem_cons, not_or]
      exact ⟨Ne.symm sign, before⟩

/-! ### The right side -/

structure Beside (front : List Char) (whole alone : Pass) : Prop where
  written : whole.written = alone.written ++ '(' :: front
  brackets : whole.brackets = alone.brackets
  seen : whole.equality = true
  previous : whole.previous = alone.previous ∨ (whole.previous = some '=' ∧ alone.previous = none)

namespace Beside

variable {front : List Char} {whole alone : Pass}

theorem lastWord (beside : Beside front whole alone) : whole.lastWord = alone.lastWord := by
  rw [Pass.lastWord, Pass.lastWord, beside.written, takeWhile_append_stop (by decide)]

theorem bracketKind (beside : Beside front whole alone) :
    whole.bracketKind mode = alone.bracketKind mode := by
  unfold Pass.bracketKind
  rw [beside.lastWord]

theorem write (beside : Beside front whole alone) (s : String) :
    Beside front (whole.write s) (alone.write s) := by
  refine ⟨?_, beside.brackets, beside.seen, beside.previous⟩
  rw [Pass.write, Pass.write, beside.written, List.append_assoc]

theorem openBracket (beside : Beside front whole alone) :
    Beside front (openBracket mode whole) (openBracket mode alone) := by
  have closed : whole.previous.any isCloser = alone.previous.any isCloser := by
    obtain same | ⟨sign, none⟩ := beside.previous
    · rw [same]
    · rw [sign, none]
      rfl
  have number : whole.endsWithNumber = alone.endsWithNumber := by
    rw [Pass.endsWithNumber, Pass.endsWithNumber, beside.lastWord]
  have opened {w a : Pass} (b : Beside front w a) :
      Beside front (w.opened (w.bracketKind mode)) (a.opened (a.bracketKind mode)) := by
    rw [b.bracketKind, Pass.opened, Pass.opened, b.brackets]
    exact ⟨(b.write _).written, rfl, b.seen, b.previous⟩
  rw [openBracket_eq, openBracket_eq, closed, number]
  split
  next => exact opened (beside.write "*")
  next => exact opened beside

theorem emit {c : Char} {next : Pass} (beside : Beside front whole alone) (other : c ≠ '=')
    (emitted : emit mode whole c = .ok next) :
    ∃ r, Line.emit mode alone c = .ok r ∧ Beside front next r := by
  cases emit_eq_ok.1 emitted with
  | equality => exact absurd rfl other
  | underscore => exact ⟨_, emit_eq_ok.2 .underscore, beside.write _⟩
  | comma => exact ⟨_, emit_eq_ok.2 .comma, beside.write _⟩
  | opener opens => exact ⟨_, emit_eq_ok.2 (.opener opens), beside.openBracket⟩
  | closer closes brackets =>
    exact ⟨_, emit_eq_ok.2 (.closer closes (beside.brackets.symm.trans brackets)),
      (beside.write _).written, rfl, beside.seen, beside.previous⟩
  | single others no_bracket =>
    exact ⟨_, emit_eq_ok.2 (.single others no_bracket), beside.write _⟩

theorem fault? {c : Char} (beside : Beside front whole alone) (fine : fault? whole c = none) :
    Line.fault? alone c = none := by
  rw [fault?_eq_none] at fine ⊢
  obtain ⟨neighbour, separator, sign, doubled⟩ := fine
  rw [beside.seen] at sign
  have other (same : c = '=') : alone.equality = false := absurd (sign same) (by decide)
  obtain same | ⟨after_sign, none⟩ := beside.previous
  · rw [same] at neighbour separator doubled
    exact ⟨neighbour, separator, other, doubled⟩
  · rw [after_sign] at separator
    rw [none]
    exact ⟨nofun, fun is_separator => absurd (separator is_separator) (by decide), other, nofun⟩

theorem step {raw : Char} {next : Pass} (beside : Beside front whole alone)
    (stepped : step mode whole raw = .ok next) :
    ∃ r, Line.step mode alone raw = .ok r ∧ Beside front next r := by
  obtain ⟨flag, other⟩ := equality_step stepped
  obtain ⟨allowed, ⟨space, rfl⟩ | ⟨visible, fine, r, emitted, rfl⟩⟩ := step_eq_ok.1 stepped
  · exact ⟨alone, step_eq_ok.2 ⟨allowed, .inl ⟨space, rfl⟩⟩, beside⟩
  · have no_sign : raw.toLower ≠ '=' := fun same =>
      other beside.seen ((toLower_eq_mark (by decide)).1 same)
    obtain ⟨q, emitted, next⟩ := beside.emit no_sign emitted
    refine ⟨_, step_eq_ok.2 ⟨allowed, .inr ⟨visible, beside.fault? fine, q, emitted, rfl⟩⟩, ?_⟩
    exact ⟨next.written, next.brackets, next.seen, .inl rfl⟩

theorem run {text : List Char} {last : Pass} (beside : Beside front whole alone)
    (ran : run mode whole text = .ok last) :
    ∃ r, Line.run mode alone text = .ok r ∧ Beside front last r := by
  induction text generalizing whole alone with
  | nil =>
    cases ran
    exact ⟨alone, rfl, beside⟩
  | cons c rest ih =>
    obtain ⟨q, stepped, ran⟩ := run_cons.1 ran
    obtain ⟨r, stepped, next⟩ := beside.step stepped
    obtain ⟨s, ran, last⟩ := ih next ran
    exact ⟨s, run_cons.2 ⟨r, stepped, ran⟩, last⟩

end Beside

/-! ### The inserted text -/

def inserted : List Char := ['-', '1', '*', '(']

theorem tokens_inserted (s : List Char) : tokens (inserted ++ s) =
    .mark '-' :: .number ['1'] ['1'] :: .mark '*' :: .mark '(' :: tokens s := by
  have number : takeNumber ('1' :: '*' :: '(' :: s) = (.number ['1'] ['1'], '*' :: '(' :: s) := by
    simp [takeNumber, takeDigits, takeFraction, takeExponent?]
  change tokens ('-' :: '1' :: '*' :: '(' :: s) = _
  rw [tokens_mark (by decide), tokens_digit (by decide), number, tokens_mark (by decide),
    tokens_mark (by decide)]

theorem contributions_inserted (ts : List Token) :
    contributions (.mark '-' :: .number ['1'] ['1'] :: .mark '*' :: .mark '(' :: ts) =
      joined (.ok (inserted, [])) (contributions ts) := by
  rcases row : contributions ts with e | ⟨text, names⟩ <;>
    simp [contributions, contribution, joined, inserted, row]

theorem contributions_closed (s : List Char) :
    contributions (tokens (s ++ [')'])) = joined (contributions (tokens s)) (.ok ([')'], [])) := by
  have split : tokens (s ++ [')']) = tokens s ++ [.mark ')'] := by
    rw [tokens_append (by decide) (by decide) s [] fun sign => absurd sign (by decide),
      tokens_mark (by decide), tokens]
  have closing : contributions [.mark ')'] = .ok ([')'], []) := by
    simp [contributions, contribution]
  have closer : (Token.mark ')').IsNeutral := ⟨by decide, by decide⟩
  rw [split, contributions_append closer, closing]

/-- Two sides of which the left one does not run on contribute what they are. -/
theorem contributions_sides {left right text : List Char} {names : List String}
    (apart : ¬RunsOn left)
    (read : contributions (tokens (left ++ (inserted ++ (right ++ [')'])))) = .ok (text, names)) :
    ∃ a as b bs, contributions (tokens left) = .ok (a, as) ∧
      contributions (tokens right) = .ok (b, bs) ∧ text = a ++ (inserted ++ (b ++ [')'])) := by
  have split_left : tokens (left ++ (inserted ++ (right ++ [')']))) =
      tokens left ++ tokens (inserted ++ (right ++ [')'])) :=
    tokens_append (by decide) (by decide) left _ fun _ => apart
  have minus : (Token.mark '-').IsNeutral := ⟨by decide, by decide⟩
  rw [split_left, tokens_inserted, contributions_append minus, contributions_inserted,
    contributions_closed] at read
  obtain ⟨a, as, later, more, of_left, of_later, rfl⟩ := joined_eq_ok read
  obtain ⟨front, none, rest, others, of_inserted, of_rest, rfl⟩ := joined_eq_ok of_later
  obtain ⟨b, bs, last, no_more, of_right, of_closing, rfl⟩ := joined_eq_ok of_rest
  cases of_inserted
  cases of_closing
  exact ⟨a, as, b, bs, of_left, of_right, rfl⟩

/-- A left side that runs on contributes to a line what it does not contribute alone. -/
theorem contributions_of_runsOn {left later text : List Char} {names : List String}
    (runs : RunsOn left)
    (read : contributions (tokens (left ++ (inserted ++ later))) = .ok (text, names)) :
    ∃ number, contributions (tokens left) =
      .error ⟨.numberNextToIdentifier, String.ofList (number ++ ['e'])⟩ := by
  obtain ⟨front, mantissa, ends⟩ := runs
  obtain ⟨digits, written, same⟩ := tokens_of_runsOn ('(' :: later) ends
  have whole : tokens (left ++ (inserted ++ later)) =
      front ++ .number digits written :: tokens ('*' :: '(' :: later) := same
  rw [whole, contributions_append (u := .number digits written) trivial] at read
  obtain ⟨a, as, -, -, of_front, -, -⟩ := joined_eq_ok read
  refine ⟨mantissa, ?_⟩
  rw [ends, contributions_append (u := .number mantissa mantissa) trivial, of_front]
  rfl

theorem step_sign {p q : Pass} (stepped : step mode p '=' = .ok q) :
    p.previous.filter isOperator = none ∧
      q = ⟨inserted.reverse ++ p.written, p.brackets, true, some '='⟩ := by
  obtain ⟨-, ⟨space, -⟩ | ⟨-, fine, r, emitted, rfl⟩⟩ := step_eq_ok.1 stepped
  · exact absurd space (by decide)
  · have lowered : '='.toLower = '=' := by decide
    rw [lowered] at fine emitted
    constructor
    · rw [Option.filter_eq_none_iff]
      intro b before operator
      have doubled := (fault?_eq_none.1 fine).2.2.2 b before
      have equality : isOperator '=' = true := by decide
      have no_sign : isSign '=' = false := by decide
      simp [doubledFault?, operator, equality, no_sign] at doubled
    · cases emitted
      rfl

theorem canonical_of_run {side : List Char} {p : Pass} (ran : run mode .start side = .ok p)
    (operand : p.previous.filter isOperator = none) (balanced : p.brackets.isBalanced) :
    canonical mode side = (contributions (tokens p.written.reverse)).map Prod.fst := by
  rw [canonical, ran]
  simp only [operand, balanced, if_true]

/-- What an accepted line is read from: the text before its one equality sign and, if no bracket is
open there, the text after it, with what is written for each of them alone. -/
theorem exists_sides_of_line {mode : AngleMode} {line : String} {e : LineEquation}
    (read : LineEquation.ofLine mode line = .ok (some e)) :
    ∃ left right r, line.toList = left ++ '=' :: right ∧ '=' ∉ left ∧ '=' ∉ right ∧
      run mode .start left = .ok r ∧ r.previous.filter isOperator = none ∧
      (r.brackets.isBalanced → ∃ s text names,
        run mode .start right = .ok s ∧ s.previous.filter isOperator = none ∧ s.brackets.isBalanced ∧
        contributions (tokens (r.written.reverse ++ (inserted ++ (s.written.reverse ++ [')'])))) =
          .ok (text, names) ∧
        e.residual = String.ofList text) := by
  obtain ⟨normal_text, text, names, read_normal, contributed, rfl⟩ :=
    LineEquation.ofLine_eq_some read
  obtain ⟨q, ran, last, balanced, seen, -, rfl⟩ := normal_eq_some read_normal
  obtain ⟨left, right, r, s, same, before, after, ran_left, -, sign, ran_right⟩ :=
    exists_sides ran rfl seen
  obtain ⟨operand, rfl⟩ := step_sign sign
  refine ⟨left, right, r, same, before, after, ran_left, operand, fun closed => ?_⟩
  have beside : Beside ('*' :: '1' :: '-' :: r.written)
      ⟨inserted.reverse ++ r.written, r.brackets, true, some '='⟩ .start :=
    ⟨rfl, List.isEmpty_iff.1 closed, rfl, .inr ⟨rfl, rfl⟩⟩
  obtain ⟨t, ran_alone, beside⟩ := beside.run ran_right
  have right_operand : t.previous.filter isOperator = none := by
    obtain same | ⟨equals, -⟩ := beside.previous
    · rwa [← same]
    · rw [equals] at last
      exact absurd last (by decide)
  have written : q.written.reverse ++ [')'] =
      r.written.reverse ++ (inserted ++ (t.written.reverse ++ [')'])) := by
    rw [beside.written]
    simp [inserted]
  exact ⟨t, text, names, ran_alone, right_operand, beside.brackets ▸ balanced,
    written ▸ contributed, rfl⟩

/-- An accepted line has one equality sign. Unless a bracket is open at the sign or the text before
it ends with a number and an `e`, both sides are accepted without each other, and the residual is
`A-1*(B)` for their canonical texts. In both exceptions the left side alone is rejected. -/
theorem residual_eq_sides {mode : AngleMode} {line : String} {e : LineEquation}
    (read : LineEquation.ofLine mode line = .ok (some e)) :
    ∃ left right, line.toList = left ++ '=' :: right ∧ '=' ∉ left ∧ '=' ∉ right ∧
      ((∃ a b, canonical mode left = .ok a ∧ canonical mode right = .ok b ∧
          e.residual = String.ofList (a ++ "-1*(".toList ++ b ++ ")".toList)) ∨
        canonical mode left = .error ⟨.bracketMismatch, "("⟩ ∨
        ∃ number, canonical mode left =
          .error ⟨.numberNextToIdentifier, String.ofList (number ++ ['e'])⟩) := by
  obtain ⟨left, right, r, sides, before, after, ran, operand, later⟩ := exists_sides_of_line read
  refine ⟨left, right, sides, before, after, ?_⟩
  cases balanced : r.brackets.isBalanced with
  | false =>
    right
    left
    rw [canonical, ran]
    simp only [operand, balanced, Bool.false_eq_true, if_false]
  | true =>
    obtain ⟨s, text, names, ran_right, right_operand, right_balanced, contributed, residual⟩ :=
      later balanced
    have right_eq := canonical_of_run ran_right right_operand right_balanced
    have left_eq := canonical_of_run ran operand balanced
    by_cases runs : RunsOn r.written.reverse
    · obtain ⟨number, fault⟩ := contributions_of_runsOn runs contributed
      exact .inr (.inr ⟨number, by rw [left_eq, fault]; rfl⟩)
    · obtain ⟨a, as, b, bs, of_left, of_right, rfl⟩ := contributions_sides runs contributed
      refine .inl ⟨a, b, by rw [left_eq, of_left]; rfl, by rw [right_eq, of_right]; rfl, ?_⟩
      simp [residual, inserted]

theorem residual_eq_sides_of_power_line :
    LineEquation.ofLine .degrees "2(a_1) = sin[X] + 1,5E-3" =
        .ok (some ⟨"2*(aGg1)-1*(Sin(Degree*(x))+(1.5*10^(-3)))", ["aGg1", "x"]⟩) ∧
      ∃ left right, "2(a_1) = sin[X] + 1,5E-3".toList = left ++ '=' :: right ∧ '=' ∉ left ∧
        '=' ∉ right ∧
        ((∃ a b, canonical .degrees left = .ok a ∧ canonical .degrees right = .ok b ∧
            "2*(aGg1)-1*(Sin(Degree*(x))+(1.5*10^(-3)))" =
              String.ofList (a ++ "-1*(".toList ++ b ++ ")".toList)) ∨
          canonical .degrees left = .error ⟨.bracketMismatch, "("⟩ ∨
          ∃ number, canonical .degrees left =
            .error ⟨.numberNextToIdentifier, String.ofList (number ++ ['e'])⟩) := by
  have read : LineEquation.ofLine .degrees "2(a_1) = sin[X] + 1,5E-3" =
      .ok (some ⟨"2*(aGg1)-1*(Sin(Degree*(x))+(1.5*10^(-3)))", ["aGg1", "x"]⟩) := by cbv
  exact ⟨read, residual_eq_sides read⟩

/-- Lines of both exceptions: the first ends its left side with a number and an `e`, the second has
the sign in brackets. -/
theorem accepted_with_rejected_side :
    (LineEquation.ofLine .radians "x+2e=3" = .ok (some ⟨"x+(2*10^(-1))*(3)", ["x"]⟩) ∧
      canonical .radians "x+2e".toList = .error ⟨.numberNextToIdentifier, "2e"⟩) ∧
    LineEquation.ofLine .radians "(x=2)" = .ok (some ⟨"(x-1*(2))", ["x"]⟩) ∧
      canonical .radians "(x".toList = .error ⟨.bracketMismatch, "("⟩ := by
  refine ⟨⟨?_, ?_⟩, ?_, ?_⟩ <;> cbv

end Simultaneous.Line
