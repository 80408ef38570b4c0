import Mathlib.Logic.Relation
import Simultaneous.Proofs.Worksheet.Reachable

/-!
The order in which worksheets come about: one operation after the other until the next clearing.
Equations, values and differential problems only ever grow at their ends.
-/

namespace Simultaneous.Worksheet

variable {α : Type} [Scalar α]

inductive Step : Worksheet α → Worksheet α → Prop where
  | enterAt (w : Worksheet α) (mode : AngleMode) (line : String) (number : Nat) :
      Step w (w.enterAt mode line number).1
  | addDifferential (w : Worksheet α) {line : String} {d : Differential} :
      Differential.ofLine? line = some d → Step w (w.addDifferential d)
  | spellAll (w : Worksheet α) (text : String) : Step w (w.spellAll text)
  | setInitial (w : Worksheet α) (spelling : String) (value : α) :
      Step w (w.setInitial spelling value)
  | solve (w : Worksheet α) {solver : BlockSolver α} :
      solver.IsComplete → Step w (w.solve solver).worksheet
  | review (w : Worksheet α) (precision : α) : Step w (w.review precision).1
  | fail (w : Worksheet α) : Step w { w with failed := true }

def Later : Worksheet α → Worksheet α → Prop := Relation.ReflTransGen Step

theorem Step.reachable {w w' : Worksheet α} (step : Step w w') (reachable : Reachable w) :
    Reachable w' := by
  cases step with
  | enterAt mode line number => exact .enterAt mode line number reachable
  | addDifferential found => exact .addDifferential found reachable
  | spellAll text => exact .spellAll text reachable
  | setInitial spelling value => exact .setInitial spelling value reachable
  | solve complete => exact .solve complete reachable
  | review precision => exact .review precision reachable
  | fail => exact .fail reachable

theorem Later.reachable {w w' : Worksheet α} (later : Later w w') (reachable : Reachable w) :
    Reachable w' := by
  induction later with
  | refl => exact reachable
  | tail _ step ih => exact step.reachable ih

theorem Reachable.later {w : Worksheet α} (reachable : Reachable w) : Later Worksheet.empty w := by
  induction reachable with
  | empty => exact .refl
  | enterAt mode line number _ ih => exact .tail ih (.enterAt _ mode line number)
  | addDifferential found _ ih => exact .tail ih (.addDifferential _ found)
  | spellAll text _ ih => exact .tail ih (.spellAll _ text)
  | setInitial spelling value _ ih => exact .tail ih (.setInitial _ spelling value)
  | solve complete _ ih => exact .tail ih (.solve _ complete)
  | review precision _ ih => exact .tail ih (.review _ precision)
  | fail _ ih => exact .tail ih (.fail _)

omit [Scalar α] in
theorem enterAt_cases (w : Worksheet α) (mode : AngleMode) (line : String) (number : Nat) :
    let counted := { w with lastLine := max w.lastLine number }
    (w.enterAt mode line number).1 = counted ∨
      (∃ d, (w.enterAt mode line number).1 = counted.addDifferential d) ∨
        ∃ e, (w.enterAt mode line number).1 = counted.addEquation e line number := by
  intro counted
  unfold enterAt
  split
  next => exact .inl rfl
  next statement read =>
    cases statement with
    | blank => exact .inl rfl
    | differential d => exact .inr (.inl ⟨d, rfl⟩)
    | equation e => exact .inr (.inr ⟨e, rfl⟩)

theorem review_eq (w : Worksheet α) (precision : α) :
    ∃ high failed, (w.review precision).1 = { w with highResidual := high, failed := failed } := by
  change ∃ high failed,
    (w.findings precision).foldl note w = { w with highResidual := high, failed := failed }
  generalize w.findings precision = all
  induction all generalizing w with
  | nil => exact ⟨w.highResidual, w.failed, rfl⟩
  | cons finding rest ih => cases finding <;> exact ih _

/-- What a worksheet keeps while it is not cleared. -/
structure Grows (w w' : Worksheet α) : Prop where
  equations : w.equations <+: w'.equations
  values : w.unknowns.solved <+: w'.unknowns.solved
  differentials : w.differentials <+: w'.differentials

omit [Scalar α] in
theorem grows_of_eq {w w' : Worksheet α} (equations : w'.equations = w.equations)
    (values : w'.unknowns.solved = w.unknowns.solved)
    (differentials : w'.differentials = w.differentials) : Grows w w' where
  equations := by rw [equations]
  values := by rw [values]
  differentials := by rw [differentials]

omit [Scalar α] in
theorem Grows.trans {w during w' : Worksheet α} (first : Grows w during)
    (second : Grows during w') : Grows w w' where
  equations := first.equations.trans second.equations
  values := first.values.trans second.values
  differentials := first.differentials.trans second.differentials

omit [Scalar α] in
theorem grows_addDifferential (w : Worksheet α) (d : Differential) :
    Grows w (w.addDifferential d) where
  equations := List.prefix_rfl
  values := by rw [solved_addDifferential]
  differentials := List.prefix_append _ _

omit [Scalar α] in
theorem grows_addEquation (w : Worksheet α) (e : LineEquation) (line : String) (number : Nat) :
    Grows w (w.addEquation e line number) where
  equations := List.prefix_append _ _
  values := by rw [solved_addEquation]
  differentials := List.prefix_rfl

omit [Scalar α] in
theorem Accounts.grows {w : Worksheet α} {r : Run α} (a : w.Accounts r) : Grows w r.worksheet where
  equations := by
    rw [a.worksheet_eq]
    exact List.prefix_rfl
  values := by
    rw [a.worksheet_eq]
    exact List.prefix_append _ _
  differentials := by
    rw [a.worksheet_eq]
    exact List.prefix_rfl

theorem Step.grows {w w' : Worksheet α} (step : Step w w') (s : w.Sound) : Grows w w' := by
  cases step with
  | enterAt mode line number =>
    have counted : Grows w { w with lastLine := max w.lastLine number } := grows_of_eq rfl rfl rfl
    obtain same | ⟨d, same⟩ | ⟨e, same⟩ := w.enterAt_cases mode line number
    · rwa [same]
    · rw [same]
      exact counted.trans (grows_addDifferential _ d)
    · rw [same]
      exact counted.trans (grows_addEquation _ e line number)
  | addDifferential _ => exact w.grows_addDifferential _
  | spellAll text => exact grows_of_eq rfl (w.solved_spellAll text) rfl
  | setInitial spelling value => exact grows_of_eq rfl rfl rfl
  | solve complete => exact (s.accounts_solve complete).grows
  | review precision =>
    obtain ⟨high, failed, same⟩ := w.review_eq precision
    rw [same]
    exact grows_of_eq rfl rfl rfl
  | fail => exact grows_of_eq rfl rfl rfl

theorem Later.grows {w w' : Worksheet α} (later : Later w w') (reachable : Reachable w) :
    Grows w w' := by
  induction later with
  | refl => exact grows_of_eq rfl rfl rfl
  | tail before step ih => exact ih.trans (step.grows (Later.reachable before reachable).sound)

end Simultaneous.Worksheet
