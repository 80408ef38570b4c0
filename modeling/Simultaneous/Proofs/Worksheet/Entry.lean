import Simultaneous.Proofs.Line.Sides
import Simultaneous.Proofs.Text.Cut
import Simultaneous.Proofs.Worksheet.Sound

/-!
What entering a line does to a worksheet. A line is read before anything is entered, so a line that
is refused changes nothing, and neither does a blank one. Any other line adds one differential
problem or one equation, and what was there stays. Main statement: just one of these four things
happens.
-/

namespace Simultaneous

/-! ### Blank lines -/

namespace Line

variable {mode : AngleMode}

theorem previous_step {p q : Pass} {raw : Char} (stepped : step mode p raw = .ok q) :
    q.previous = if isSpace raw then p.previous else some raw.toLower := by
  obtain ⟨-, ⟨space, rfl⟩ | ⟨visible, -, r, -, rfl⟩⟩ := step_eq_ok.1 stepped
  · rw [if_pos space]
  · rw [if_neg (Bool.not_eq_true _ ▸ visible)]

theorem previous_run {p q : Pass} {s : List Char} (ran : run mode p s = .ok q) :
    q.previous = none ↔ p.previous = none ∧ ∀ c ∈ s, isSpace c := by
  induction s generalizing p with
  | nil =>
    cases ran
    simp only [List.not_mem_nil, false_imp_iff, forall_true_iff, and_true]
  | cons c rest ih =>
    obtain ⟨r, stepped, ran⟩ := run_cons.1 ran
    rw [ih ran, previous_step stepped, List.forall_mem_cons]
    cases isSpace c with
    | true => simp only [if_true, true_and]
    | false => simp only [Bool.false_eq_true, if_false, reduceCtorEq, false_and, and_false]

theorem run_of_spaces (p : Pass) {s : List Char} (spaces : ∀ c ∈ s, isSpace c) :
    run mode p s = .ok p := by
  induction s with
  | nil => rfl
  | cons c rest ih =>
    obtain ⟨space, later⟩ := List.forall_mem_cons.1 spaces
    have allowed : isAllowed c := by
      rw [isAllowed, space, Bool.or_true]
    exact run_cons.2 ⟨p, step_eq_ok.2 ⟨allowed, .inl ⟨space, rfl⟩⟩, ih later⟩

theorem finish_eq_none {p : Pass} {line : List Char} :
    p.finish line = .ok none ↔ p.previous = none := by
  unfold Pass.finish
  cases p.previous with
  | none => simp only
  | some last =>
    simp only [reduceCtorEq, iff_false]
    split
    next => nofun
    next =>
      split
      next => nofun
      next => split <;> nofun

theorem normal_eq_none_iff (mode : AngleMode) (line : List Char) :
    normal mode line = .ok none ↔ ∀ c ∈ line, isSpace c := by
  unfold normal
  cases ran : run mode .start line with
  | error e =>
    simp only [reduceCtorEq, false_iff]
    intro spaces
    rw [run_of_spaces _ spaces] at ran
    cases ran
  | ok p =>
    rw [finish_eq_none, previous_run ran]
    exact and_iff_right rfl

end Line

theorem LineEquation.ofLine_eq_none_iff (mode : AngleMode) (line : String) :
    LineEquation.ofLine mode line = .ok none ↔ ∀ c ∈ line.toList, Line.isSpace c := by
  rw [← Line.normal_eq_none_iff mode]
  unfold LineEquation.ofLine
  cases Line.normal mode line.toList with
  | error e => simp only [reduceCtorEq]
  | ok text? =>
    cases text? with
    | none => simp only
    | some text =>
      simp only [Except.ok.injEq, reduceCtorEq, iff_false]
      split <;> nofun

theorem Differential.mem_of_ofLine? {line : String} {d : Differential}
    (found : Differential.ofLine? line = some d) : '=' ∈ line.toList := by
  obtain ⟨⟨target, rest⟩, cut, -⟩ := Option.bind_eq_some_iff.1 found
  rw [(Text.cutAt?_eq_some_iff.1 cut).2]
  exact List.mem_append_right _ List.mem_cons_self

namespace Statement

variable {mode : AngleMode} {line : String}

theorem ofLine_of_differential {d : Differential} (found : Differential.ofLine? line = some d) :
    ofLine mode line = .ok (.differential d) := by
  rw [ofLine, found]

theorem ofLine_of_none (absent : Differential.ofLine? line = none) :
    ofLine mode line =
      match LineEquation.ofLine mode line with
      | .error e => .error e
      | .ok none => .ok .blank
      | .ok (some e) => .ok (.equation e) := by
  cases read : LineEquation.ofLine mode line with
  | error e => simp only [ofLine, absent, read]
  | ok stated => cases stated <;> simp only [ofLine, absent, read]

theorem ofLine_eq_equation_iff {e : LineEquation} :
    ofLine mode line = .ok (.equation e) ↔
      Differential.ofLine? line = none ∧ LineEquation.ofLine mode line = .ok (some e) := by
  cases found : Differential.ofLine? line with
  | some d => simp only [ofLine_of_differential found, Except.ok.injEq, reduceCtorEq, false_and]
  | none =>
    rw [ofLine_of_none found]
    cases LineEquation.ofLine mode line with
    | error e => simp only [reduceCtorEq, and_false]
    | ok stated? => cases stated? <;> simp [eq_comm]

theorem ofLine_eq_differential_iff (mode : AngleMode) {d : Differential} :
    ofLine mode line = .ok (.differential d) ↔ Differential.ofLine? line = some d := by
  cases found : Differential.ofLine? line with
  | some d => simp only [ofLine_of_differential found, Except.ok.injEq, differential.injEq,
      Option.some.injEq]
  | none =>
    rw [ofLine_of_none found]
    cases LineEquation.ofLine mode line with
    | error e => simp only [reduceCtorEq]
    | ok stated? => cases stated? <;> simp

theorem ofLine_eq_blank_iff (mode : AngleMode) (line : String) :
    ofLine mode line = .ok .blank ↔ ∀ c ∈ line.toList, Line.isSpace c := by
  rw [← LineEquation.ofLine_eq_none_iff mode]
  cases found : Differential.ofLine? line with
  | some d =>
    simp only [ofLine_of_differential found, Except.ok.injEq, reduceCtorEq, false_iff,
      LineEquation.ofLine_eq_none_iff]
    exact fun spaces => absurd (spaces '=' (Differential.mem_of_ofLine? found)) (by decide)
  | none =>
    rw [ofLine_of_none found]
    cases LineEquation.ofLine mode line with
    | error e => simp only [reduceCtorEq]
    | ok stated? => cases stated? <;> simp

end Statement

/-! ### Entering a line -/

namespace Worksheet

variable {α : Type} (w : Worksheet α) {mode : AngleMode} {line : String}

inductive Effect where
  | refused
  | skipped
  | differential
  | equation

namespace Effect

def of : Except LineError Statement → Effect
  | .error _ => refused
  | .ok .blank => skipped
  | .ok (.differential _) => differential
  | .ok (.equation _) => equation

def Describes (w : Worksheet α) (entered : Worksheet α × Except LineError Unit) : Effect → Prop
  | refused => (∃ e, entered.2 = .error e) ∧ entered.1 = { w with lastLine := entered.1.lastLine }
  | skipped => entered.2 = .ok () ∧ entered.1 = { w with lastLine := entered.1.lastLine }
  | differential =>
    entered.2 = .ok () ∧ (∃ d, entered.1.differentials = w.differentials ++ [d]) ∧
      entered.1.equations = w.equations ∧ entered.1.unsolved = w.unsolved
  | equation =>
    entered.2 = .ok () ∧ (∃ e, entered.1.equations = w.equations ++ [e]) ∧
      entered.1.unsolved = w.unsolved ++ [w.equations.length] ∧
      entered.1.differentials = w.differentials

end Effect

theorem enterAt_of_error {e : LineError} (refused : Statement.ofLine mode line = .error e)
    (number : Nat) :
    w.enterAt mode line number = ({ w with lastLine := max w.lastLine number }, .error e) := by
  rw [enterAt, refused]

theorem enterAt_of_ok {statement : Statement} (accepted : Statement.ofLine mode line = .ok statement)
    (number : Nat) :
    w.enterAt mode line number =
      ({ w with lastLine := max w.lastLine number }.add line number statement, .ok ()) := by
  rw [enterAt, accepted]

namespace Effect

variable {w} {entered : Worksheet α × Except LineError Unit} {effect other : Effect}

theorem Describes.shows (described : effect.Describes w entered) :
    ((∃ e, entered.2 = .error e) ↔ effect = refused) ∧
      (entered.1.differentials.length ≠ w.differentials.length ↔ effect = differential) ∧
      (entered.1.equations.length ≠ w.equations.length ↔ effect = equation) := by
  cases effect with
  | refused =>
    obtain ⟨error, same⟩ := described
    rw [same]
    simp [error]
  | skipped =>
    obtain ⟨ok, same⟩ := described
    rw [same]
    simp [ok]
  | differential =>
    obtain ⟨ok, ⟨d, added⟩, equations, -⟩ := described
    simp [ok, added, equations]
  | equation =>
    obtain ⟨ok, ⟨e, added⟩, -, differentials⟩ := described
    simp [ok, added, differentials]

theorem Describes.unique (described : effect.Describes w entered)
    (other_described : other.Describes w entered) : other = effect := by
  obtain ⟨refusal, differential, equation⟩ := described.shows
  obtain ⟨other_refusal, other_differential, other_equation⟩ := other_described.shows
  rw [refusal] at other_refusal
  rw [differential] at other_differential
  rw [equation] at other_equation
  cases effect <;> cases other <;> simp_all

end Effect

theorem describes_enterAt (mode : AngleMode) (line : String) (number : Nat) :
    (Effect.of (Statement.ofLine mode line)).Describes w (w.enterAt mode line number) := by
  cases read : Statement.ofLine mode line with
  | error e =>
    rw [w.enterAt_of_error read]
    exact ⟨⟨e, rfl⟩, rfl⟩
  | ok statement =>
    rw [w.enterAt_of_ok read]
    cases statement with
    | blank => exact ⟨rfl, rfl⟩
    | differential d => exact ⟨rfl, ⟨d, rfl⟩, rfl, rfl⟩
    | equation e => exact ⟨rfl, ⟨_, rfl⟩, rfl, rfl⟩

structure Retains (w w' : Worksheet α) : Prop where
  equations : w.equations <+: w'.equations
  solved : w'.solved = w.solved
  values : w'.unknowns.solved = w.unknowns.solved
  initial : w'.initial = w.initial
  failed : w'.failed = w.failed
  timedOut : w'.timedOut = w.timedOut
  highResidual : w'.highResidual = w.highResidual

theorem Retains.refl (w : Worksheet α) : w.Retains w :=
  ⟨List.prefix_rfl, rfl, rfl, rfl, rfl, rfl, rfl⟩

theorem Retains.trans {w during w' : Worksheet α} (first : w.Retains during)
    (second : during.Retains w') : w.Retains w' where
  equations := first.equations.trans second.equations
  solved := second.solved.trans first.solved
  values := second.values.trans first.values
  initial := second.initial.trans first.initial
  failed := second.failed.trans first.failed
  timedOut := second.timedOut.trans first.timedOut
  highResidual := second.highResidual.trans first.highResidual

theorem retains_enterAt (mode : AngleMode) (line : String) (number : Nat) :
    w.Retains (w.enterAt mode line number).1 := by
  cases read : Statement.ofLine mode line with
  | error e =>
    rw [w.enterAt_of_error read]
    exact ⟨List.prefix_rfl, rfl, rfl, rfl, rfl, rfl, rfl⟩
  | ok statement =>
    rw [w.enterAt_of_ok read]
    cases statement with
    | blank => exact ⟨List.prefix_rfl, rfl, rfl, rfl, rfl, rfl, rfl⟩
    | differential d =>
      exact ⟨List.prefix_rfl, rfl, solved_addDifferential _ d, rfl, rfl, rfl, rfl⟩
    | equation e =>
      exact ⟨List.prefix_append _ _, rfl, solved_addEquation _ e line number, rfl, rfl, rfl, rfl⟩

/-- Entering a line has just one of four effects. The line is refused, and nothing but the count of
lines changes; or it is skipped, and nothing else changes either; or it adds one differential
problem; or it adds one equation, which has the next place and waits. A line is skipped just if it
is blank. Earlier equations, values, the solved equations, starting values and flags stay. -/
theorem enter_has_one_effect (w : Worksheet α) (mode : AngleMode) (line : String) :
    (∃! effect : Effect, effect.Describes w (w.enter mode line)) ∧
    (Effect.skipped.Describes w (w.enter mode line) ↔ ∀ c ∈ line.toList, Line.isSpace c) ∧
    (Effect.differential.Describes w (w.enter mode line) ↔ (Differential.ofLine? line).isSome) ∧
    w.Retains (w.enter mode line).1 := by
  have described := w.describes_enterAt mode line (w.lastLine + 1)
  have describes_iff (effect : Effect) :
      effect.Describes w (w.enter mode line) ↔ effect = .of (Statement.ofLine mode line) :=
    ⟨described.unique, fun same => same ▸ described⟩
  refine ⟨⟨_, described, fun _ other => described.unique other⟩, ?_, ?_,
    w.retains_enterAt mode line (w.lastLine + 1)⟩
  · rw [describes_iff, ← Statement.ofLine_eq_blank_iff mode]
    cases Statement.ofLine mode line with
    | error e => simp [Effect.of]
    | ok statement => cases statement <;> simp [Effect.of]
  · rw [describes_iff, Option.isSome_iff_exists]
    simp only [← Statement.ofLine_eq_differential_iff mode]
    cases Statement.ofLine mode line with
    | error e => simp [Effect.of]
    | ok statement => cases statement <;> simp [Effect.of]

end Worksheet

end Simultaneous
