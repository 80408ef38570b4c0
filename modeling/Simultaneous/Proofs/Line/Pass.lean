import Simultaneous.Line.Equation

/-!
What a line is read through. Each step of the character pass, the end of the pass, the normal text,
the meaning of a word, what a token contributes and the equation of a line are described once, by the
cases and the parts of what they lead to; what is shown of lines is shown from these.
-/

namespace Simultaneous

namespace Line

open Text

variable {mode : AngleMode} {p q r : Pass} {c raw : Char}

/-! ### Runs -/

theorem run_cons {rest : List Char} :
    run mode p (c :: rest) = .ok q ↔ ∃ r, step mode p c = .ok r ∧ run mode r rest = .ok q := by
  rw [run]
  cases step mode p c <;> simp

theorem run_append {a b : List Char} :
    run mode p (a ++ b) = .ok q ↔ ∃ r, run mode p a = .ok r ∧ run mode r b = .ok q := by
  induction a generalizing p with
  | nil => simp [run]
  | cons c rest ih =>
    rw [List.cons_append, run, run]
    cases step mode p c with
    | error e => simp
    | ok r => exact ih

/-! ### Steps -/

/-- What reading a character does: a blank is dropped, any other breaks no rule and is written. -/
theorem step_eq_ok :
    step mode p raw = .ok q ↔ isAllowed raw ∧
      ((isSpace raw ∧ q = p) ∨ (isSpace raw = false ∧ fault? p raw.toLower = none ∧
        ∃ r, emit mode p raw.toLower = .ok r ∧ q = { r with previous := some raw.toLower })) := by
  unfold step
  cases isAllowed raw with
  | false => simp
  | true =>
    cases isSpace raw with
    | true => simp [eq_comm]
    | false =>
      cases fault : fault? p raw.toLower with
      | some e => simp [fault]
      | none =>
        cases emitted : emit mode p raw.toLower with
        | error e => simp [fault, emitted, Except.map]
        | ok r => simp [fault, emitted, Except.map, eq_comm]

theorem fault?_eq_none : fault? p c = none ↔
    (∀ b ∈ p.previous, besideFault? b c = none) ∧
      (isSeparator c → p.previous.any Char.isDigit) ∧ (c = '=' → p.equality = false) ∧
      ∀ b ∈ p.previous, doubledFault? b c = none := by
  unfold fault?
  simp [Option.bind_eq_none_iff]

def Pass.opened (p : Pass) (kind : Bracket) : Pass :=
  { p.write kind.opener with brackets := p.brackets.push kind }

theorem openBracket_eq (mode : AngleMode) (p : Pass) : openBracket mode p =
    if p.previous.any isCloser || p.endsWithNumber then
      (p.write "*").opened ((p.write "*").bracketKind mode)
    else p.opened (p.bracketKind mode) := by
  unfold openBracket
  split <;> rfl

inductive Emits (mode : AngleMode) (p : Pass) : Char → Pass → Prop
  | equality : Emits mode p '=' { p.write "-1*(" with equality := true }
  | underscore : Emits mode p '_' (p.write "Gg")
  | comma : Emits mode p ',' (p.write ".")
  | opener {c : Char} : isOpener c = true → Emits mode p c (openBracket mode p)
  | closer {c : Char} {kind : Bracket} {rest : OpenBrackets} : isCloser c = true →
      p.brackets = kind :: rest → Emits mode p c { p.write kind.closer with brackets := rest }
  | single {c : Char} : c ≠ '=' ∧ c ≠ '_' ∧ c ≠ ',' → isOpener c = false ∧ isCloser c = false →
      Emits mode p c (p.write (String.singleton c))

theorem emit_eq_ok : emit mode p c = .ok q ↔ Emits mode p c q := by
  constructor
  · intro emitted
    unfold emit at emitted
    split at emitted
    next equality =>
      cases emitted
      exact equality ▸ .equality
    next no_equality =>
      split at emitted
      next underscore =>
        cases emitted
        exact underscore ▸ .underscore
      next no_underscore =>
        split at emitted
        next comma =>
          cases emitted
          exact comma ▸ .comma
        next no_comma =>
          split at emitted
          next opens =>
            cases emitted
            exact .opener opens
          next no_opener =>
            split at emitted
            next closes =>
              cases brackets : p.brackets with
              | nil =>
                rw [brackets] at emitted
                cases emitted
              | cons kind rest =>
                rw [brackets] at emitted
                cases emitted
                exact .closer closes brackets
            next no_closer =>
              cases emitted
              exact .single ⟨no_equality, no_underscore, no_comma⟩
                ⟨Bool.eq_false_iff.2 no_opener, Bool.eq_false_iff.2 no_closer⟩
  · intro emits
    cases emits with
    | equality | underscore | comma => rfl
    | opener opens =>
      have chars : c = '(' ∨ c = '[' := by simpa [isOpener] using opens
      rcases chars with rfl | rfl <;> rfl
    | closer closes brackets =>
      have chars : c = ')' ∨ c = ']' := by simpa [isCloser] using closes
      have popped : p.brackets.pop? = some (_, _) := congrArg OpenBrackets.pop? brackets
      rcases chars with rfl | rfl <;> simp [emit, isOpener, isCloser, popped]
    | single others no_bracket =>
      simp [emit, others, no_bracket]

/-! ### The end of a line -/

theorem finish_eq_some {line text : List Char} (done : p.finish line = .ok (some text)) :
    p.previous.filter isOperator = none ∧ p.brackets.isBalanced ∧ p.equality ∧ p.previous ≠ none ∧
      text = p.written.reverse ++ [')'] := by
  unfold Pass.finish at done
  split at done
  next => cases done
  next last before =>
    split at done
    next => cases done
    next operand =>
      split at done
      next => cases done
      next balanced =>
        split at done
        next => cases done
        next seen =>
          cases done
          simp_all [Pass.write]

theorem normal_eq_some {line text : List Char} (read : normal mode line = .ok (some text)) :
    ∃ p, run mode .start line = .ok p ∧ p.previous.filter isOperator = none ∧
      p.brackets.isBalanced ∧ p.equality ∧ p.previous ≠ none ∧
      text = p.written.reverse ++ [')'] := by
  unfold normal at read
  split at read
  next => cases read
  next p ran => exact ⟨p, ran, finish_eq_some read⟩

/-! ### Words and other tokens -/

inductive Means (word : String) : Bool → Meaning → Prop
  | factor {call : Bool} : word = "Degree" → Means word call (.fixed word)
  | function {name : String} : word ≠ "Degree" → word.toList.head? ≠ some 'G' →
      canonicalFunction? word = some name → Means word true (.fixed name)
  | constant {name : String} : word ≠ "Degree" → word.toList.head? ≠ some 'G' →
      canonicalFunction? word = none → canonicalConstant? word = some name →
      Means word false (.fixed name)
  | unknown : word ≠ "Degree" → word.toList.head? ≠ some 'G' → canonicalFunction? word = none →
      canonicalConstant? word = none → Means word false (.unknown word)

theorem meaning_eq_ok {word : String} {call : Bool} {m : Meaning} :
    meaning word call = .ok m ↔ Means word call m := by
  constructor
  · intro means
    unfold meaning at means
    split at means
    next factor =>
      cases means
      exact .factor factor
    next no_factor =>
      split at means
      next => cases means
      next plain =>
        split at means
        next name function =>
          cases call <;> cases means
          exact .function no_factor plain function
        next no_function =>
          cases call with
          | true => cases means
          | false =>
            simp only [Bool.false_eq_true, if_false] at means
            split at means
            next name constant =>
              cases means
              exact .constant no_factor plain no_function constant
            next no_constant =>
              cases means
              exact .unknown no_factor plain no_function no_constant
  · intro means
    cases means with
    | factor factor => rw [meaning, if_pos factor]
    | function no_factor plain function =>
      rw [meaning, if_neg no_factor, if_neg plain, function]
      rfl
    | constant no_factor plain no_function constant =>
      rw [meaning, if_neg no_factor, if_neg plain, no_function, constant]
      rfl
    | unknown no_factor plain no_function no_constant =>
      rw [meaning, if_neg no_factor, if_neg plain, no_function, no_constant]
      rfl

def Meaning.text : Meaning → String
  | .fixed text => text
  | .unknown name => name

def Meaning.unknown? : Meaning → Option String
  | .fixed _ => none
  | .unknown name => some name

section Contributions

variable {later us vs : List Token} {x : List Char} {name? : Option String}

theorem contribution_number {read written : List Char}
    (contributed : contribution (.number read written) later = .ok (x, name?)) :
    x = written ∧ name? = none := by
  simp only [contribution] at contributed
  split at contributed <;> cases contributed
  exact ⟨rfl, rfl⟩

theorem contribution_word {w : List Char}
    (contributed : contribution (.word w) later = .ok (x, name?)) :
    ∃ (call : Bool) (m : Meaning), (call ↔ later.head? = some (.mark '(')) ∧
      Means (String.ofList w) call m ∧ x = m.text.toList ∧ name? = m.unknown? := by
  simp only [contribution] at contributed
  split at contributed
  next => cases contributed
  next text means =>
    cases contributed
    exact ⟨_, _, beq_iff_eq, meaning_eq_ok.1 means, rfl, rfl⟩
  next name means =>
    cases contributed
    exact ⟨_, _, beq_iff_eq, meaning_eq_ok.1 means, rfl, rfl⟩

theorem contribution_mark {c : Char}
    (contributed : contribution (.mark c) later = .ok (x, name?)) :
    c ≠ '.' ∧ x = [c] ∧ name? = none := by
  rw [contribution] at contributed
  split at contributed <;> cases contributed
  next no_dot => exact ⟨no_dot, rfl, rfl⟩

theorem contribution_congr {t : Token} (heads : us.head? = vs.head?) :
    contribution t us = contribution t vs := by
  cases us with
  | nil =>
    obtain rfl := List.head?_eq_none_iff.1 heads.symm
    rfl
  | cons u us =>
    obtain ⟨vs, rfl⟩ := List.head?_eq_some_iff.1 heads.symm
    cases t with
    | number =>
      cases u with
      | mark c => by_cases point : c = '.' <;> simp [contribution, point]
      | _ => rfl
    | word w => rw [contribution, contribution, List.head?_cons, List.head?_cons]
    | mark c => rfl

theorem contributions_cons_eq_ok {t : Token} {rest : List Token} {text : List Char}
    {names : List String} (read : contributions (t :: rest) = .ok (text, names)) :
    ∃ x name? y others, contribution t rest = .ok (x, name?) ∧
      contributions rest = .ok (y, others) ∧ text = x ++ y ∧ names = name?.toList ++ others := by
  rw [contributions] at read
  split at read
  next => cases read
  next x name? first =>
    split at read
    next => cases read
    next y others later =>
      cases read
      exact ⟨x, name?, y, others, first, later, rfl, rfl⟩

end Contributions

end Line

theorem LineEquation.ofLine_eq_some {mode : AngleMode} {line : String} {e : LineEquation}
    (read : ofLine mode line = .ok (some e)) :
    ∃ text residual names, Line.normal mode line.toList = .ok (some text) ∧
      Line.contributions (Line.tokens text) = .ok (residual, names) ∧
      e = ⟨String.ofList residual, firstOccurrences names⟩ := by
  unfold ofLine at read
  split at read
  next => cases read
  next => cases read
  next text normal_text =>
    split at read
    next => cases read
    next residual names contributed =>
      cases read
      exact ⟨text, residual, names, normal_text, contributed, rfl⟩

end Simultaneous
