import Simultaneous.Proofs.Failure
import Simultaneous.Proofs.Worksheet.Residuals
import Simultaneous.Proofs.Worksheet.Tried

/-!
Iterations are only started on square problems: a block with more equations than unknowns never
comes up, one with fewer is answered before an iteration is chosen, and the unknowns of a block are
distinct, so that the problem has as many of them as the block.
-/

namespace Simultaneous.Worksheet

section Example

def loose : Worksheet (Exact Interpretation.rational.arithmetic) :=
  ofLines .radians ["x^2 = 4", "a + b = x"]

theorem loose_open :
    ((loose.singles newton).2.map fun id =>
      (id, (loose.singles newton).1.worksheet.unsolvedIn id)) = [(1, ["a", "b"])] := by
  decide +kernel

theorem loose_planned : loose.planned newton = [⟨[1], ["b", "a"]⟩] := by
  rw [planned, decompose, loose_open]
  cbv

def looseBlock : SolvedBlock (Exact Interpretation.rational.arithmetic) :=
  ⟨[1], .failed ["b", "a"] (.underDetermined 1 2)⟩

theorem loose_run : (loose.solve newton).blocks = [squareBlock] ++ [looseBlock] := by
  rw [solve_eq, loose_planned]
  decide +kernel

end Example

/-- With the iterations that settings choose, none is ever started on a problem that is not square.
No planned block has more equations than unknowns. Whatever iteration were used, a block that is
tried comes to the same result or to the same task, on which it is run once: a block with fewer
equations than unknowns to the result that says so, and a task has one equation, one unknown and one
starting value for each equation of the block. No block fails because a method asks for a square
one. -/
theorem iterations_start_square {α : Type} [Scalar α] {w : Worksheet α} (reachable : Reachable w)
    (solver : BlockSolver α) (own : solver.override? = none) :
    (∀ b ∈ w.planned solver, b.equations.length ≤ b.unknowns.length) ∧
    ∀ earlier b later, (w.solve solver).blocks = earlier ++ b :: later →
      let during := w.after earlier
      let residuals := during.residualsOf b.equations
      let unknowns := b.result.unknowns
      let bindings := during.unknowns.solved
      let worker := solver.timing.worker b.equations
      let prepared := solver.prepare residuals unknowns bindings during.initial
      (b.result = solver.solve worker residuals unknowns bindings during.initial ∧
        ∀ k? : Option (Kernel α),
          ({ solver with override? := k? } : BlockSolver α).solve worker residuals unknowns bindings
              during.initial =
            match prepared with
            | .inl result => result
            | .inr t =>
              let chosen := t.method.kernel solver.linear solver.settings.kernelOptions
              let answer := (k?.getD chosen).run t.problem t.start false
              .ofAttempt unknowns (solver.attempt worker answer)) ∧
      (b.equations.length < unknowns.length →
        prepared = .inl (.failed unknowns (.underDetermined b.equations.length unknowns.length))) ∧
      (∀ t, prepared = .inr t →
        t.problem.equations = b.equations.length ∧ t.problem.unknowns = b.equations.length ∧
          t.start.length = b.equations.length) ∧
      ∀ m n, b.result.outcome ≠ .failed (.notSquare m n) := by
  have complete : solver.IsComplete := by
    intro k chosen
    rw [own] at chosen
    cases chosen
  have s := reachable.sound
  refine ⟨fun b => w.length_equations_le_of_planned solver, ?_⟩
  intro earlier b later parts during residuals unknowns bindings worker prepared
  have tried : during.Tried b := s.eachTried_solve complete earlier b later parts
  have sizes : residuals.length = b.equations.length := tried.length_residualsOf
  have distinct : unknowns.Nodup := tried.fits.unknowns_nodup
  have few : residuals.length ≤ unknowns.length := sizes ▸ tried.few
  have result : b.result = solver.solve worker residuals unknowns bindings during.initial :=
    congrArg SolvedBlock.result ((s.traced_solve complete).solved parts)
  refine ⟨⟨result, ?_⟩, ?_, ?_, ?_⟩
  · intro k?
    rw [← BlockSolver.finish_prepare, BlockSolver.prepare_congr]
    change BlockSolver.finish _ worker unknowns prepared = _
    cases prepared with
    | inl answer => rfl
    | inr t => rfl
  · intro fewer
    rw [← sizes] at fewer ⊢
    exact solver.prepare_of_lt fewer bindings during.initial
  · intro t task
    obtain ⟨many, equations_eq, unknowns_eq, start_eq⟩ := BlockSolver.prepare_sizes distinct task
    omega
  · rw [result]
    exact BlockSolver.solve_ne_notSquare own distinct few worker bindings during.initial

theorem loose_starts_square :
    Reachable loose ∧ newton.override? = none ∧
      (∀ b ∈ loose.planned newton, b.equations.length ≤ b.unknowns.length) ∧
      (∃ t, newton.prepare ((loose.after []).residualsOf [0]) ["x"]
          (loose.after []).unknowns.solved (loose.after []).initial = .inr t ∧
        t.problem.equations = 1 ∧ t.problem.unknowns = 1 ∧ t.start.length = 1) ∧
      newton.prepare ((loose.after [squareBlock]).residualsOf [1]) ["b", "a"]
          (loose.after [squareBlock]).unknowns.solved (loose.after [squareBlock]).initial =
        .inl (.failed ["b", "a"] (.underDetermined 1 2)) := by
  obtain ⟨planned, each⟩ := iterations_start_square (reachable_ofLines _ _ : Reachable loose)
    newton rfl
  obtain ⟨_, _, task, _⟩ := each [] squareBlock [looseBlock] loose_run
  obtain ⟨_, answered, _⟩ := each [squareBlock] looseBlock [] loose_run
  have started : (newton.prepare ((loose.after []).residualsOf [0]) ["x"]
      (loose.after []).unknowns.solved (loose.after []).initial).isRight = true := by
    decide +kernel
  obtain ⟨t, prepared⟩ := Sum.isRight_iff.1 started
  exact ⟨reachable_ofLines _ _, rfl, planned, ⟨t, prepared, task t prepared⟩, answered (by decide)⟩

end Simultaneous.Worksheet
