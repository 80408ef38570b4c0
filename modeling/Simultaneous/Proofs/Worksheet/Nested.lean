import Simultaneous.Proofs.Line.Nested
import Simultaneous.Proofs.Worksheet.Identifiers

/-!
The brackets of the residuals that a worksheet keeps. They are nested in every residual, so whatever a
block is refused for, it is not that a bracket of a residual has no other one.
-/

namespace Simultaneous.Worksheet

variable {α : Type} [Scalar α]

/-- The residual of a line that is accepted in either angle mode has round brackets only, and these
are nested; and no equation that is kept is refused for a bracket when it is read. -/
theorem residuals_are_nested (w : Worksheet α) :
    (∀ mode line equation, LineEquation.ofLine mode line = .ok (some equation) →
      Formula.IsNested equation.residual.toList) ∧
    (Reachable w → ∀ e ∈ w.equations, Formula.IsNested e.residual.toList ∧
      Formula.read e.residual ≠ .error .unmatchedOpener ∧
      Formula.read e.residual ≠ .error .unmatchedCloser) := by
  refine ⟨fun mode line equation accepted => (Line.nests_residual accepted).isNested,
    fun reachable e member => ?_⟩
  obtain ⟨mode, line, stated⟩ := reachable.stated e member
  exact ⟨(Line.nests_residual stated).isNested,
    fun failed => Line.read_residual_error stated failed (.inl rfl),
    fun failed => Line.read_residual_error stated failed (.inr rfl)⟩

section Example

def enclosed : Worksheet (Exact Interpretation.rational.arithmetic) :=
  ofLines .degrees ["[sin(x = 1e3)]"]

theorem equations_enclosed :
    enclosed.equations = [⟨"(Sin(Degree*(x-1*((1*10^(3))))))", ["x"], 1⟩] := by
  decide +kernel

end Example

theorem enclosed_is_nested :
    LineEquation.ofLine .degrees "[sin(x = 1e3)]" =
        .ok (some ⟨"(Sin(Degree*(x-1*((1*10^(3))))))", ["x"]⟩) ∧
      Reachable enclosed ∧ Formula.IsNested "(Sin(Degree*(x-1*((1*10^(3))))))".toList ∧
      Formula.read "(Sin(Degree*(x-1*((1*10^(3))))))" ≠ .error .unmatchedOpener ∧
      Formula.read "(Sin(Degree*(x-1*((1*10^(3))))))" ≠ .error .unmatchedCloser := by
  have reachable : Reachable enclosed := reachable_ofLines _ _
  have kept := (residuals_are_nested enclosed).2 reachable
  rw [equations_enclosed] at kept
  exact ⟨by cbv, reachable, kept _ List.mem_cons_self⟩

end Simultaneous.Worksheet
