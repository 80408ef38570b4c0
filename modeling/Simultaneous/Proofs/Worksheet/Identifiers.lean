import Simultaneous.Proofs.Expr.Names
import Simultaneous.Proofs.Failure
import Simultaneous.Proofs.Line.Joined
import Simultaneous.Proofs.Worksheet.Residuals
import Simultaneous.Proofs.Worksheet.Tried

/-!
What the names in the residuals of a block stand for when it is tried: each is that of a function
before a bracket, a constant, an unknown of the block, or an unknown with a value. So no block fails
for a name that stands for nothing; and none fails for the number of arguments of a call if, in the
lines that its equations were stated by, each operator that joins two operands stands after one.
-/

namespace Simultaneous

open Formula (constantNames)

/-! ### Equations of lines -/

def EquationEntry.IsStatedBy (e : EquationEntry) (mode : AngleMode) (line : String) : Prop :=
  LineEquation.ofLine mode line = .ok (some ⟨e.residual, e.unknowns⟩)

/-- A line in which each operator that joins two operands stands after one states the equation. -/
def EquationEntry.IsOrderly (e : EquationEntry) : Prop :=
  ∃ mode line, e.IsStatedBy mode line ∧ Line.AllOperate none (Line.bare line.toList)

/-- Where the unknowns of an equation have expressions, its residual is not refused for a name, and
for the number of arguments of a call only if the equation is not orderly. -/
theorem EquationEntry.IsStatedBy.passes {α : Type} [Scalar α] {e : EquationEntry} {mode : AngleMode}
    {line : String} (stated : e.IsStatedBy mode line) {names : Names α}
    (meant : ∀ v ∈ e.unknowns, ∃ x, Expr.ofName names v = .ok x) {tree : Formula.Node}
    (read : Formula.read e.residual = .ok tree) {f : ConversionError}
    (failed : Expr.ofNode names tree = .error f) :
    ¬f.IsUnresolved ∧ (Line.AllOperate none (Line.bare line.toList) → ¬f.IsArity) := by
  have constants : ∀ n ∈ constantNames, n ∈ constantNames ∨ n ∈ e.unknowns := fun _ => .inl
  obtain ⟨ts, cut, joined, closes, -⟩ :=
    Line.exists_tokens_of_line stated id constants fun _ => .inr
  unfold Formula.read at read
  rw [cut] at read
  have known (s : String) (known : s ∈ constantNames ∨ s ∈ e.unknowns) :
      ∃ x, Expr.ofName names s = .ok x := by
    rcases known with constant | unknown
    · exact Expr.exists_ofName_of_bound (.inl constant)
    · exact meant s unknown
  have last : ∀ t ∈ ts.getLast?, t = .closer := fun t last => Option.some.inj (last.symm.trans closes)
  have all := Formula.all_of_ofTokens joined last read
  obtain ⟨resolved, counted⟩ := Expr.passes_of_ofNode known tree all failed
  exact ⟨resolved, fun holds => counted (Formula.isFull_of_ofTokens joined holds closes read)⟩

namespace Worksheet

variable {α : Type} [Scalar α] {w : Worksheet α}

theorem Reachable.stated (reachable : Reachable w) :
    ∀ e ∈ w.equations, ∃ mode line, e.IsStatedBy mode line := by
  induction reachable with
  | empty => exact fun e member => absurd member List.not_mem_nil
  | @enterAt w mode line number _ ih =>
    unfold Worksheet.enterAt Statement.ofLine
    split
    next => exact ih
    next statement read =>
      split at read
      next =>
        cases read
        exact ih
      next =>
        split at read
        next => cases read
        next =>
          cases read
          exact ih
        next e stated =>
          cases read
          intro f member
          rcases List.mem_append.1 member with earlier | last
          · exact ih f earlier
          · rw [List.mem_singleton.1 last]
            exact ⟨mode, line, stated⟩
  | addDifferential _ _ ih => exact ih
  | spellAll _ _ ih => exact ih
  | setInitial _ _ _ ih => exact ih
  | solve complete reachable ih =>
    rw [(reachable.sound.accounts_solve complete).worksheet_eq]
    exact ih
  | @review w precision _ ih =>
    obtain ⟨high, failed, same⟩ := w.review_eq precision
    rw [same]
    exact ih
  | fail _ ih => exact ih

omit [Scalar α] in
/-- An unknown of an equation of a block that is tried is one of the block, or has a value. -/
theorem Tried.unknown_or_solved {b : SolvedBlock α} (tried : w.Tried b) {id : Nat}
    (member : id ∈ b.equations) {e : EquationEntry} (entry : w.equations[id]? = some e) {v : String}
    (named : v ∈ e.unknowns) : v ∈ b.result.unknowns ∨ w.unknowns.isSolved v := by
  cases solved : w.unknowns.isSolved v with
  | true => exact .inr rfl
  | false =>
    exact .inl (tried.fits.covers id member v ((w.mem_unsolvedIn id v).2 ⟨e, entry, named, solved⟩))

omit [Scalar α] in
theorem mem_residualsOf {ids : List Nat} {text : String} :
    text ∈ w.residualsOf ids ↔ ∃ id ∈ ids, ∃ e, w.equations[id]? = some e ∧ e.residual = text := by
  simp [residualsOf, List.mem_filterMap]

section Example

def spelled : Worksheet (Exact Interpretation.rational.arithmetic) :=
  ofLines .radians ["y = 2", "true = abs(y)"]

def nameBlock : SolvedBlock (Exact Interpretation.rational.arithmetic) :=
  ⟨[0], ⟨["y"], [.of 2], .converged 0⟩⟩

def literalBlock : SolvedBlock (Exact Interpretation.rational.arithmetic) :=
  ⟨[1], .failed ["true"] (.equation (.conversion (.notNumeric (.truth true))))⟩

def literalEntry : EquationEntry := ⟨"true-1*(Abs(y))", ["true", "y"], 2⟩

theorem spelled_run : (spelled.solve newton).blocks = [nameBlock] ++ [literalBlock] := by
  decide +kernel

def plussed : Worksheet (Exact Interpretation.rational.arithmetic) :=
  ofLines .radians ["y = +abs(2)"]

end Example

/-- In a block that is tried, with any settings and any iteration that reads no text, each name of a
residual is that of a function before a bracket, or that of a constant, of an unknown of the block or
of one with a value. The block does not fail for a name; and it does not fail for the number of
arguments of a call if its equations are orderly. -/
theorem blocks_fail_for_no_name (reachable : Reachable w) {solver : BlockSolver α}
    (complete : solver.IsComplete) (reads : ∀ k, solver.override? = some k → k.ReadsNoText) :
    ∀ earlier b later, (w.solve solver).blocks = earlier ++ b :: later →
      let during := w.after earlier
      (∀ id ∈ b.equations, ∃ e ts, during.equations[id]? = some e ∧
        Formula.tokenize e.residual = .ok ts ∧ Formula.Resolved (fun n => n ∈ constantNames ∨
          n ∈ b.result.unknowns ∨ during.unknowns.isSolved n) ts) ∧
      ∀ f, b.result.outcome = .failed (.equation (.conversion f)) → ¬f.IsUnresolved ∧
        ((∀ id ∈ b.equations, ∀ e, during.equations[id]? = some e → e.IsOrderly) → ¬f.IsArity) := by
  intro earlier b later parts during
  have s := reachable.sound
  have tried : during.Tried b := s.eachTried_solve complete earlier b later parts
  have result : b.result = solver.solve (solver.timing.worker b.equations)
      (during.residualsOf b.equations) b.result.unknowns during.unknowns.solved during.initial :=
    congrArg SolvedBlock.result ((s.traced_solve complete).solved parts)
  have stated (e : EquationEntry) (id : Nat) (entry : during.equations[id]? = some e) :
      ∃ mode line, e.IsStatedBy mode line := reachable.stated e (List.mem_of_getElem? entry)
  constructor
  · intro id member
    have inside : id < during.equations.length := tried.lt_length member
    have entry : during.equations[id]? = some during.equations[id] :=
      List.getElem?_eq_getElem inside
    obtain ⟨mode, line, accepted⟩ := stated _ id entry
    have constants : ∀ n ∈ constantNames, n ∈ constantNames ∨ n ∈ b.result.unknowns ∨
        during.unknowns.isSolved n := fun _ => .inl
    obtain ⟨ts, cut, joined, closes, -⟩ := Line.exists_tokens_of_line accepted False.elim constants
      fun v named => .inr (tried.unknown_or_solved member entry named)
    exact ⟨_, ts, entry, cut, joined.resolved closes⟩
  · intro f failed
    rw [result] at failed
    have few : (during.residualsOf b.equations).length ≤ b.result.unknowns.length :=
      tried.length_residualsOf ▸ tried.few
    obtain ⟨text, member, tree, read, refused⟩ :=
      BlockSolver.exists_unconverted reads tried.fits.unknowns_nodup few failed
    obtain ⟨id, own, e, entry, rfl⟩ := mem_residualsOf.1 member
    -- what the block is tried for, or what has a value, is known to the conversion
    have meant : ∀ v ∈ e.unknowns, ∃ x,
        Expr.ofName (⟨b.result.unknowns, during.unknowns.solved⟩ : Names α) v = .ok x := by
      intro v named
      refine Expr.exists_ofName_of_bound (.inr ?_)
      refine (tried.unknown_or_solved own entry named).imp_right fun solved => ?_
      rwa [Unknowns.isSolved_eq, tried.sound.internal e (List.mem_of_getElem? entry) v named]
        at solved
    obtain ⟨mode, line, accepted⟩ := stated e id entry
    refine ⟨(accepted.passes meant read refused).1, fun orderly => ?_⟩
    obtain ⟨mode, line, accepted, operate⟩ := orderly id own e entry
    exact (accepted.passes meant read refused).2 operate

theorem literal_fails_for_no_name :
    Reachable spelled ∧ newton.IsComplete ∧ newton.override? = none ∧
      (spelled.solve newton).blocks = [nameBlock] ++ [literalBlock] ∧
      (∃ ts, Formula.tokenize "true-1*(Abs(y))" = .ok ts ∧ Formula.Resolved (fun n =>
        n ∈ constantNames ∨ n ∈ ["true"] ∨ (spelled.after [nameBlock]).unknowns.isSolved n) ts) ∧
      ¬(ConversionError.notNumeric (.truth true)).IsUnresolved ∧
      ¬(ConversionError.notNumeric (.truth true)).IsArity := by
  have reachable : Reachable spelled := reachable_ofLines _ _
  have complete : newton.IsComplete := by
    intro k chosen
    cases chosen
  have reads : ∀ k, newton.override? = some k → k.ReadsNoText := by
    intro k chosen
    cases chosen
  have entry : (spelled.after [nameBlock]).equations[1]? = some literalEntry := by decide +kernel
  have stated : literalEntry.IsStatedBy .radians "true = abs(y)" := by
    unfold EquationEntry.IsStatedBy
    cbv
  have orderly : literalEntry.IsOrderly := ⟨_, _, stated, by decide +kernel⟩
  obtain ⟨resolved, fails⟩ :=
    blocks_fail_for_no_name reachable complete reads [nameBlock] literalBlock [] spelled_run
  obtain ⟨e, ts, found, cut, names⟩ := resolved 1 (by decide)
  obtain rfl := Option.some.inj (entry.symm.trans found)
  obtain ⟨no_name, no_arity⟩ := fails _ rfl
  refine ⟨reachable, complete, rfl, spelled_run, ⟨ts, cut, names⟩, no_name, no_arity ?_⟩
  intro id member e found
  obtain rfl := List.mem_singleton.1 member
  obtain rfl := Option.some.inj (entry.symm.trans found)
  exact orderly

/-- A call after a plus for a sign is converted without its argument. -/
theorem call_after_plus_fails :
    LineEquation.ofLine .radians "y = +abs(2)" = .ok (some ⟨"y-1*(+Abs(2))", ["y"]⟩) ∧
      Reachable plussed ∧ newton.override? = none ∧
      (plussed.solve newton).blocks =
        [⟨[0], .failed ["y"] (.equation (.conversion (.arity "Abs" 0)))⟩] := by
  refine ⟨by cbv, reachable_ofLines _ _, rfl, ?_⟩
  decide +kernel

end Worksheet

end Simultaneous
