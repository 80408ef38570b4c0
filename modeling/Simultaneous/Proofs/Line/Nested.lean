import Simultaneous.Proofs.Formula.Brackets
import Simultaneous.Proofs.Line.Joined

/-!
The brackets of a residual are nested. Along the character pass the text has as many brackets open as
the openers that still wait wrote, and one more once the equality sign was read; this one is closed
last, also if the sign stands inside brackets. The token pass writes a bracket where it reads one, and
the brackets of a power of ten are nested in themselves.
-/

namespace Simultaneous

open Formula (Nests bracketMarks)

theorem Bracket.nests_opener (kind : Bracket) (d : Nat) :
    Nests d kind.opener.toList (d + Line.width kind) := by
  cases kind with
  | plain | call => exact .opener .nil
  | degrees =>
    have factor : Nests (d + 1) "Degree*".toList (d + 1) := .of_plain (by simp [bracketMarks])
    exact .opener (factor.append (.opener .nil))

theorem Bracket.nests_closer (kind : Bracket) (d : Nat) :
    Nests (d + Line.width kind) kind.closer.toList d := by
  cases kind with
  | plain | call => exact .closer .nil
  | degrees => exact .closer (.closer .nil)

namespace Line

open Text

/-! ### The character pass -/

namespace Pass

def IsNested (p : Pass) : Prop := Nests 0 p.written.reverse p.depth

variable {p q r : Pass} {c : Char} {mode : AngleMode}

theorem IsNested.write (nested : p.IsNested) {s : List Char} (text : Nests p.depth s q.depth)
    (written : q.written = s.reverse ++ p.written) : q.IsNested := by
  rw [IsNested, written, List.reverse_append, List.reverse_reverse]
  exact nested.append text

theorem IsNested.openBracket (nested : p.IsNested) : (Line.openBracket mode p).IsNested := by
  have opened {r : Pass} (same : r.IsNested) (kind : Bracket) : (r.opened kind).IsNested := by
    have deeper : (r.opened kind).depth = r.depth + width kind := depth_of_push rfl rfl
    exact same.write (deeper ▸ kind.nests_opener r.depth) rfl
  have product : (p.write "*").IsNested := nested.write (.of_plain (by simp [bracketMarks])) rfl
  rw [openBracket_eq]
  split
  next => exact opened product _
  next => exact opened nested _

theorem IsNested.emit (nested : p.IsNested) (fine : fault? p c = none)
    (emitted : emit mode p c = .ok r) : r.IsNested := by
  have plain {s : String} (no_bracket : ∀ c ∈ s.toList, c ∉ bracketMarks) : (p.write s).IsNested :=
    nested.write (.of_plain no_bracket) rfl
  cases emit_eq_ok.1 emitted with
  | equality =>
    have unseen : p.equality = false := (fault?_eq_none.1 fine).2.2.1 rfl
    have sum : Nests p.depth "-1*(".toList (p.depth + 1) :=
      .append (s := "-1*".toList) (.of_plain (by simp [bracketMarks])) (.opener .nil)
    refine nested.write ?_ rfl
    simpa [depth, unseen, Pass.write] using sum
  | underscore | comma => exact plain (by simp [bracketMarks])
  | opener => exact nested.openBracket
  | @closer _ kind rest _ same =>
    refine nested.write ?_ rfl
    rw [depth_of_push (p := { p.write kind.closer with brackets := rest }) same rfl]
    exact kind.nests_closer _
  | single _ no_bracket =>
    obtain ⟨no_opener, no_closer⟩ := no_bracket
    refine plain ?_
    simp only [isOpener, isCloser, Bool.or_eq_false_iff, beq_eq_false_iff_ne] at no_opener no_closer
    simp [bracketMarks, no_opener, no_closer]

end Pass

variable {mode : AngleMode} {line text s : List Char}

theorem nests_normal (read : normal mode line = .ok (some text)) : Nests 0 text 0 := by
  obtain ⟨p, ran, -, balanced, seen, -, rfl⟩ := normal_eq_some read
  have nested : p.IsNested := run_keeps (I := Pass.IsNested) (R := fun _ _ => True)
    (fun {p r c s} nested _ _ fine emitted =>
      ⟨(nested.emit fine emitted : r.IsNested), trivial⟩)
    (show Pass.start.IsNested from .nil) trivial ran
  have last : p.depth = 1 := by
    rw [Pass.depth, List.isEmpty_iff.1 balanced, seen]
    rfl
  rw [Pass.IsNested, last] at nested
  exact nested.append (.closer .nil)

/-! ### The token pass -/

theorem no_bracket_of_word {c : Char} (word : isWordChar c) : c ∉ bracketMarks := by
  intro member
  simp only [bracketMarks, List.mem_cons, List.not_mem_nil, or_false] at member
  rcases member with rfl | rfl | rfl | rfl <;> exact absurd word (by decide)

theorem no_bracket_of_digit {c : Char} (digit : c.isDigit) : c ∉ bracketMarks :=
  no_bracket_of_word (isWordChar_of_isDigit digit)

theorem no_bracket_of_mantissa {m : List Char} (mantissa : IsMantissa m) :
    ∀ c ∈ m, c ∉ bracketMarks := by
  intro c member
  rcases mantissa.digits c member with digit | rfl
  · exact no_bracket_of_digit digit
  · decide

theorem no_bracket_of_sign {sign : List Char} (signed : IsSignText sign) :
    ∀ c ∈ sign, c ∉ bracketMarks := by
  obtain rfl | rfl | rfl := signed <;> simp [bracketMarks]

theorem nests_powerOfTen {m sign k : List Char} (mantissa : IsMantissa m) (digits : AreDigits k)
    (d : Nat) : Nests d ("(".toList ++ m ++ "*10^(".toList ++ (if sign = ['-'] then ['-'] else []) ++
      k ++ "))".toList) d := by
  have minus : ∀ c ∈ (if sign = ['-'] then ['-'] else []), c ∉ bracketMarks := by
    split <;> simp [bracketMarks]
  have power : Nests (d + 1) "*10^(".toList (d + 2) :=
    .append (s := "*10^".toList) (.of_plain (by simp [bracketMarks])) (.opener .nil)
  have front : Nests d ("(".toList ++ m ++ "*10^(".toList) (d + 2) :=
    .append (.opener (.of_plain (no_bracket_of_mantissa mantissa))) power
  have exponent : Nests (d + 2) k (d + 2) :=
    .of_plain fun c member => no_bracket_of_digit (digits.2 c member)
  have back : Nests (d + 2) "))".toList d := .closer (.closer .nil)
  exact ((front.append (.of_plain minus)).append exponent).append back

theorem no_bracket_of_contribution {w x : List Char} {later : List Token} {name? : Option String}
    (word : ∀ c ∈ w, isWordChar c) (contributed : contribution (.word w) later = .ok (x, name?)) :
    ∀ c ∈ x, c ∉ bracketMarks := by
  have own : ∀ c ∈ (String.ofList w).toList, c ∉ bracketMarks := by
    rw [String.toList_ofList]
    exact fun c member => no_bracket_of_word (word c member)
  obtain ⟨call, m, -, means, rfl, -⟩ := contribution_word contributed
  cases means with
  | factor | unknown => exact own
  | function _ _ function =>
    exact fun c member => no_bracket_of_word ((isFunction_of_canonical function).word c member)
  | constant _ _ _ canonical =>
    have plain : ∀ x ∈ Formula.constantNames, ∀ c ∈ x.toList, c ∉ bracketMarks := by
      simp [Formula.constantNames, bracketMarks]
    exact plain _ (mem_constantNames_of_canonical canonical)

/-- The token pass keeps brackets as they are. -/
theorem nests_contributions {d e : Nat} {names : List String} (nests : Nests d s e)
    (contributed : contributions (tokens s) = .ok (text, names)) : Nests d text e := by
  fun_induction tokens s generalizing d text names with
  | case1 =>
    cases contributed
    exact nests
  | case2 c rest digit ih =>
    obtain ⟨x, name?, y, others, first, later, rfl, -⟩ := contributions_cons_eq_ok contributed
    obtain ⟨m, after, mantissa, -, ⟨chars, taken⟩ | ⟨sign, k, signed, digits, chars, taken⟩⟩ :=
      takeNumber_cases (s := rest) digit
    · rw [taken] at first later ih
      obtain ⟨rfl, -⟩ := contribution_number first
      have plain := no_bracket_of_mantissa mantissa
      rw [chars] at nests
      exact Nests.append (.of_plain plain) (ih (nests.drop plain) later)
    · rw [taken] at first later ih
      obtain ⟨rfl, -⟩ := contribution_number first
      have plain : ∀ c ∈ m ++ 'e' :: (sign ++ k), c ∉ bracketMarks := by
        intro c member
        rcases List.mem_append.1 member with before | member
        · exact no_bracket_of_mantissa mantissa c before
        · rcases List.mem_cons.1 member with rfl | member
          · decide
          · rcases List.mem_append.1 member with inside | inside
            · exact no_bracket_of_sign signed c inside
            · exact no_bracket_of_digit (digits.2 c inside)
      have parts : m ++ 'e' :: (sign ++ (k ++ after)) = (m ++ 'e' :: (sign ++ k)) ++ after := by
        simp
      rw [chars, parts] at nests
      exact Nests.append (nests_powerOfTen mantissa digits d) (ih (nests.drop plain) later)
  | case3 c rest no_digit letter ih =>
    obtain ⟨x, name?, y, others, first, later, rfl, -⟩ := contributions_cons_eq_ok contributed
    have word : ∀ d ∈ (takeWord (c :: rest)).1, isWordChar d := fun d member =>
      List.mem_takeWhile_imp member
    rw [← takeWord_append (c :: rest)] at nests
    have after := nests.drop fun d member => no_bracket_of_word (word d member)
    exact Nests.append (.of_plain (no_bracket_of_contribution word first)) (ih after later)
  | case4 c rest no_digit no_letter ih =>
    obtain ⟨x, name?, y, others, first, later, rfl, -⟩ := contributions_cons_eq_ok contributed
    obtain ⟨-, rfl, -⟩ := contribution_mark first
    cases nests with
    | opener nests => exact .opener (ih nests later)
    | closer nests => exact .closer (ih nests later)
    | other plain nests => exact .other plain (ih nests later)

theorem nests_residual {mode : AngleMode} {line : String} {equation : LineEquation}
    (accepted : LineEquation.ofLine mode line = .ok (some equation)) :
    Nests 0 equation.residual.toList 0 := by
  obtain ⟨text, residual, names, read, contributed, rfl⟩ := LineEquation.ofLine_eq_some accepted
  rw [String.toList_ofList]
  exact nests_contributions (nests_normal read) contributed

/-- Whatever is wrong with the residual of an accepted line, no bracket of it is reported. -/
theorem read_residual_error {mode : AngleMode} {line : String} {equation : LineEquation}
    (accepted : LineEquation.ofLine mode line = .ok (some equation)) {e : FormulaError}
    (failed : Formula.read equation.residual = .error e) : ¬e.IsUnmatched := by
  obtain ⟨ts, written, joined, -⟩ :=
    @exists_written_of_line (fun _ => True) False _ _ _ accepted nofun (by simp) (by simp)
  rw [← String.ofList_toList (s := equation.residual)] at failed
  exact Formula.read_error written joined.touches (nests_residual accepted) failed

end Line

end Simultaneous
