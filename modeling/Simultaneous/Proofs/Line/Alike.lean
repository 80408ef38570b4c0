import Simultaneous.Proofs.Line.Typed

/-!
Lines that differ only in the case of letters and in blanks. Every check of the character pass looks
at the lowered character, and a blank changes nothing, so two such lines state the same equation, are
both blank, or break the same rule. Only the text that is to blame for a missing equality sign is that
of the line.
-/

namespace Simultaneous.Line

open Text

/-- Texts with the same characters, but for the case of ASCII letters and for blanks put in or left
out anywhere. -/
inductive Alike : List Char → List Char → Prop where
  | nil : Alike [] []
  | char {c d : Char} {s t : List Char} : c.toLower = d.toLower → Alike s t →
      Alike (c :: s) (d :: t)
  | blank_left {c : Char} {s t : List Char} : isSpace c → Alike s t → Alike (c :: s) t
  | blank_right {d : Char} {s t : List Char} : isSpace d → Alike s t → Alike s (d :: t)

section Bare

variable {c d : Char} {s t : List Char}

theorem bare_blank (blank : isSpace c) (s : List Char) : bare (c :: s) = bare s := by
  simp [bare, blank]

theorem bare_visible (visible : isSpace c = false) (s : List Char) :
    bare (c :: s) = c.toLower :: bare s := by
  simp [bare, lower, visible]

theorem bare_eq_of_alike (alike : Alike s t) : bare s = bare t := by
  induction alike with
  | nil => rfl
  | @char c d s t same _ ih =>
    have blank : isSpace c = isSpace d := by
      rw [← isSpace_toLower c, same, isSpace_toLower]
    cases space : isSpace d with
    | true => rw [bare_blank (blank.trans space), bare_blank space, ih]
    | false => rw [bare_visible (blank.trans space), bare_visible space, same, ih]
  | blank_left blank _ ih => rw [bare_blank blank, ih]
  | blank_right blank _ ih => rw [bare_blank blank, ih]

theorem alike_blanks (none_left : bare t = []) : Alike [] t := by
  induction t with
  | nil => exact .nil
  | cons d t ih =>
    cases space : isSpace d with
    | true =>
      rw [bare_blank space] at none_left
      exact .blank_right space (ih none_left)
    | false =>
      rw [bare_visible space] at none_left
      cases none_left

theorem alike_cons (first : bare t = c.toLower :: bare s)
    (rest : ∀ u, bare s = bare u → Alike s u) : Alike (c :: s) t := by
  induction t with
  | nil => cases first
  | cons d t ih =>
    cases space : isSpace d with
    | true =>
      rw [bare_blank space] at first
      exact .blank_right space (ih first)
    | false =>
      rw [bare_visible space] at first
      obtain ⟨same, others⟩ := List.cons.inj first
      exact .char same.symm (rest t others.symm)

/-- Texts are alike just if they are the same in lower case and without blanks. -/
theorem alike_iff : Alike s t ↔ bare s = bare t := by
  refine ⟨bare_eq_of_alike, fun same => ?_⟩
  induction s generalizing t with
  | nil => exact alike_blanks same.symm
  | cons c s ih =>
    cases space : isSpace c with
    | true =>
      rw [bare_blank space] at same
      exact .blank_left space (ih same)
    | false =>
      rw [bare_visible space] at same
      exact alike_cons same.symm fun u => ih

instance decidableAlike (s t : List Char) : Decidable (Alike s t) :=
  decidable_of_iff (bare s = bare t) alike_iff.symm

end Bare

section Pass

variable {mode : AngleMode} {p : Pass} {c : Char} {s t : List Char}

theorem step_blank (blank : isSpace c) : step mode p c = .ok p := by
  have allowed : isAllowed c = true := by
    simp [isAllowed, blank]
  unfold step
  rw [allowed, blank]
  rfl

theorem step_toLower (mode : AngleMode) (p : Pass) (c : Char) :
    step mode p c.toLower = step mode p c := by
  by_cases upper : c.isUpper
  · have allowed : isAllowed c = true := by
      simp [isAllowed, isWordChar, Char.isAlphanum, Char.isAlpha, upper]
    unfold step
    rw [isAllowed_toLower allowed, allowed, isSpace_toLower, Char.toLower_toLower_eq_toLower]
    rfl
  · rw [Char.toLower_eq_of_not_isUpper upper]

theorem run_bare_eq (mode : AngleMode) (p : Pass) (s : List Char) :
    run mode p (bare s) = run mode p s := by
  induction s generalizing p with
  | nil => rfl
  | cons c s ih =>
    cases space : isSpace c with
    | true => rw [bare_blank space, ih, run, step_blank space]
    | false =>
      rw [bare_visible space, run, run, step_toLower]
      cases step mode p c with
      | error e => rfl
      | ok q => exact ih q

theorem run_eq_of_alike (alike : Alike s t) : run mode p s = run mode p t := by
  rw [← run_bare_eq, bare_eq_of_alike alike, run_bare_eq]

/-- How a pass ends depends on the line only for the text that blames a missing equality sign. -/
theorem finish_eq_or_missing (p : Pass) (s t : List Char) :
    p.finish s = p.finish t ∨
      ∀ u, p.finish u = .error ⟨.missingEquality, String.ofList (trim u)⟩ := by
  unfold Pass.finish
  split
  next => exact .inl rfl
  next last =>
    split
    next => exact .inl rfl
    next =>
      split
      next => exact .inl rfl
      next =>
        split
        next => exact .inr fun _ => rfl
        next => exact .inl rfl

end Pass

/-- Texts that are alike have the same normal text, but for the text that blames a missing equality
sign. -/
theorem normal_eq_or_missing {s t : List Char} (mode : AngleMode) (alike : Alike s t) :
    normal mode s = normal mode t ∨
      normal mode s = .error ⟨.missingEquality, String.ofList (trim s)⟩ ∧
        normal mode t = .error ⟨.missingEquality, String.ofList (trim t)⟩ := by
  unfold normal
  rw [run_eq_of_alike alike]
  cases run mode .start t with
  | error e => exact .inl rfl
  | ok p =>
    rcases finish_eq_or_missing p s t with same | missing
    · exact .inl same
    · exact .inr ⟨missing s, missing t⟩

variable {mode : AngleMode} {line line' : String}

/-- Lines that are alike state the same equation, are both blank, or break the same rule. -/
theorem alike_lines_come_to_the_same (alike : Alike line.toList line'.toList) :
    (LineEquation.ofLine mode line).mapError LineError.fault =
      (LineEquation.ofLine mode line').mapError LineError.fault := by
  unfold LineEquation.ofLine
  rcases normal_eq_or_missing mode alike with same | ⟨missing, missing'⟩
  · rw [same]
  · rw [missing, missing']
    rfl

theorem spaced_line_comes_to_the_same :
    Alike "Flow_Rate=2*SIN(t1)".toList " flow _ rate\t= 2 * sin( T1 )".toList ∧
    (LineEquation.ofLine .degrees "Flow_Rate=2*SIN(t1)").mapError LineError.fault =
      (LineEquation.ofLine .degrees " flow _ rate\t= 2 * sin( T1 )").mapError LineError.fault := by
  have alike : Alike "Flow_Rate=2*SIN(t1)".toList " flow _ rate\t= 2 * sin( T1 )".toList := by
    decide +kernel
  exact ⟨alike, alike_lines_come_to_the_same alike⟩

end Simultaneous.Line
