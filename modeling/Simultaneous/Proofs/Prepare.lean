import Simultaneous.Proofs.Build

/-!
How a block is prepared. The solve of a block is a result that needs no iteration, or a task that is
handed to one. What a block is prepared to is told by its size, by its texts, and by the slope of a
single residual; what holds of the results of blocks is shown by these cases.
-/

namespace Simultaneous

variable {α : Type}

variable [Scalar α]

/-! ### Tasks -/

structure Task (α : Type) where
  method : Method
  problem : Problem α
  start : List α

namespace BlockSolver

variable (b : BlockSolver α)

def prepareOne (names : Names α) (residual name : String) (x0 : α) : BlockResult α ⊕ Task α :=
  match Equation.ofText names residual with
  | .error e => .inl (.failed [name] (.equation e))
  | .ok e =>
    match direct? e name x0 with
    | some result => .inl result
    | none => .inr ⟨b.method 1 1, e.problem, [x0]⟩

def prepareMany (names : Names α) (residuals unknowns : List String) (x0 : List α) :
    BlockResult α ⊕ Task α :=
  let method := b.method residuals.length unknowns.length
  match compile method names residuals with
  | .error e => .inl (.failed unknowns (.equation e))
  | .ok c => .inr ⟨method, c.problem, x0⟩

def prepare (residuals unknowns : List String) (bindings initial : Assoc α) :
    BlockResult α ⊕ Task α :=
  if residuals.length < unknowns.length then
    .inl (.failed unknowns (.underDetermined residuals.length unknowns.length))
  else
    let names : Names α := ⟨unknowns, bindings⟩
    let x0 := b.start initial unknowns
    match residuals, unknowns, x0 with
    | [residual], [name], [x] => b.prepareOne names residual name x
    | _, _, _ => b.prepareMany names residuals unknowns x0

def finish (worker : Worker) (unknowns : List String) : BlockResult α ⊕ Task α → BlockResult α
  | .inl result => result
  | .inr t => b.dispatch worker t.method unknowns t.problem t.start

variable (worker : Worker)

theorem finish_prepareOne (names : Names α) (residual name : String) (x0 : α) :
    b.finish worker [name] (b.prepareOne names residual name x0) =
      b.solveOne worker names residual name x0 := by
  unfold prepareOne solveOne
  cases Equation.ofText names residual with
  | error e => rfl
  | ok e =>
    simp only
    cases direct? e name x0 with
    | some result => rfl
    | none => rfl

theorem finish_prepareMany (names : Names α) (residuals unknowns : List String) (x0 : List α) :
    b.finish worker unknowns (b.prepareMany names residuals unknowns x0) =
      b.solveMany worker names residuals unknowns x0 := by
  unfold prepareMany solveMany
  simp only
  cases compile (b.method residuals.length unknowns.length) names residuals with
  | error e => rfl
  | ok c => rfl

theorem finish_prepare (residuals unknowns : List String) (bindings initial : Assoc α) :
    b.finish worker unknowns (b.prepare residuals unknowns bindings initial) =
      b.solve worker residuals unknowns bindings initial := by
  unfold prepare solve
  split
  next => rfl
  next =>
    simp only
    generalize b.start initial unknowns = x0
    rcases residuals with _ | ⟨residual, _ | ⟨_, _⟩⟩
    case cons.nil =>
      rcases unknowns with _ | ⟨name, _ | ⟨_, _⟩⟩
      case cons.nil =>
        rcases x0 with _ | ⟨x, _ | ⟨_, _⟩⟩
        case cons.nil => exact b.finish_prepareOne worker _ _ _ _
        all_goals exact b.finish_prepareMany worker _ _ _ _
      all_goals exact b.finish_prepareMany worker _ _ _ _
    all_goals exact b.finish_prepareMany worker _ _ _ _

theorem prepare_congr (k? : Option (Kernel α)) (residuals unknowns : List String)
    (bindings initial : Assoc α) :
    ({ b with override? := k? } : BlockSolver α).prepare residuals unknowns bindings initial =
      b.prepare residuals unknowns bindings initial := rfl

variable {b} {residuals unknowns : List String} {bindings initial : Assoc α}

theorem prepare_of_lt (fewer : residuals.length < unknowns.length) (bindings initial : Assoc α) :
    b.prepare residuals unknowns bindings initial =
      .inl (.failed unknowns (.underDetermined residuals.length unknowns.length)) :=
  if_pos fewer

/-! ### What a block is prepared to -/

theorem direct?_eq_some {e : Equation α} {name : String} {x0 : α} {result : BlockResult α}
    (solved : direct? e name x0 = some result) :
    (∃ x, result = ⟨[name], [x], .converged 0⟩) ∨ result = .failed [name] (.nonFinite 0) := by
  unfold direct? at solved
  split at solved
  next slope r0 affine value =>
    cases solved
    split
    next => exact .inl ⟨_, rfl⟩
    next => exact .inr rfl
  next => cases solved

inductive Prepares (b : BlockSolver α) (bindings initial : Assoc α) :
    (residuals unknowns : List String) → BlockResult α ⊕ Task α → Prop
  | tooFew {residuals unknowns : List String} : residuals.length < unknowns.length →
      Prepares b bindings initial residuals unknowns
        (.inl (.failed unknowns (.underDetermined residuals.length unknowns.length)))
  | unread {residuals unknowns : List String} {text : String} {e : EquationError} :
      unknowns.length ≤ residuals.length → text ∈ residuals →
      Expr.ofResidual ⟨unknowns, bindings⟩ text = .error e →
      Prepares b bindings initial residuals unknowns (.inl (.failed unknowns (.equation e)))
  | direct {residual name : String} {x : α} {expr : Expr α} {result : BlockResult α} :
      b.start initial [name] = [x] → Expr.ofResidual ⟨[name], bindings⟩ residual = .ok expr →
      direct? (.ofExpr residual (lastOccurrences [name]) expr) name x = some result →
      Prepares b bindings initial [residual] [name] (.inl result)
  | single {residual name : String} {x : α} {expr : Expr α} :
      b.start initial [name] = [x] → Expr.ofResidual ⟨[name], bindings⟩ residual = .ok expr →
      direct? (.ofExpr residual (lastOccurrences [name]) expr) name x = none →
      Prepares b bindings initial [residual] [name]
        (.inr ⟨b.method 1 1, (Equation.ofExpr residual (lastOccurrences [name]) expr).problem, [x]⟩)
  | tooLarge {residuals unknowns : List String} {cause : BuildError} :
      unknowns.length ≤ residuals.length →
      compile (b.method residuals.length unknowns.length) ⟨unknowns, bindings⟩ residuals =
        .error (.build cause) →
      Prepares b bindings initial residuals unknowns
        (.inl (.failed unknowns (.equation (.build cause))))
  | several {residuals unknowns : List String} {exprs : List (Expr α)} {c : Coupled α} :
      unknowns.length ≤ residuals.length → ¬(residuals.length = 1 ∧ unknowns.length = 1) →
      residuals.mapM (Expr.ofResidual ⟨unknowns, bindings⟩) = .ok exprs →
      c.IsMadeOf residuals (lastOccurrences unknowns) exprs →
      Prepares b bindings initial residuals unknowns
        (.inr ⟨b.method residuals.length unknowns.length, c.problem, b.start initial unknowns⟩)

theorem prepares_one {residual name : String} {x : α} (starts : b.start initial [name] = [x]) :
    Prepares b bindings initial [residual] [name]
      (b.prepareOne ⟨[name], bindings⟩ residual name x) := by
  unfold prepareOne Equation.ofText
  cases made : Expr.ofResidual (⟨[name], bindings⟩ : Names α) residual with
  | error e => exact .unread (Nat.le_refl _) List.mem_cons_self made
  | ok expr =>
    simp only [Except.map]
    split
    next result solved => exact .direct starts made solved
    next none => exact .single starts made none

theorem prepares_many (enough : unknowns.length ≤ residuals.length)
    (no_single : ¬(residuals.length = 1 ∧ unknowns.length = 1)) :
    Prepares b bindings initial residuals unknowns
      (b.prepareMany ⟨unknowns, bindings⟩ residuals unknowns (b.start initial unknowns)) := by
  unfold prepareMany
  simp only
  split
  next e failed =>
    rcases compile_eq_error failed with ⟨text, member, unread⟩ | ⟨cause, rfl⟩
    · exact .unread enough member unread
    · exact .tooLarge enough failed
  next c built =>
    obtain ⟨exprs, read, made⟩ := isMadeOf_of_compile built
    exact .several enough no_single read made

theorem prepares_of_eq {prepared : BlockResult α ⊕ Task α}
    (eq : b.prepare residuals unknowns bindings initial = prepared) :
    Prepares b bindings initial residuals unknowns prepared := by
  rw [← eq]
  unfold prepare
  split
  next fewer => exact .tooFew fewer
  next no_fewer =>
    simp only
    split
    next residual name x starts => exact prepares_one starts
    next others =>
      refine prepares_many (Nat.le_of_not_lt no_fewer) fun single => ?_
      obtain ⟨residual, rfl⟩ := List.length_eq_one_iff.1 single.1
      obtain ⟨name, rfl⟩ := List.length_eq_one_iff.1 single.2
      exact others residual name _ rfl rfl rfl

theorem prepare_sizes (distinct : unknowns.Nodup) {t : Task α}
    (prepared : b.prepare residuals unknowns bindings initial = .inr t) :
    unknowns.length ≤ residuals.length ∧ t.problem.equations = residuals.length ∧
      t.problem.unknowns = unknowns.length ∧ t.start.length = unknowns.length := by
  cases prepares_of_eq prepared with
  | single => exact ⟨Nat.le_refl _, rfl, rfl, rfl⟩
  | several enough _ _ made =>
    refine ⟨enough, congrArg List.length made.residuals_eq, ?_, List.length_map _⟩
    have listed := congrArg List.length made.unknowns_eq
    rwa [lastOccurrences_of_nodup unknowns distinct] at listed

end BlockSolver

end Simultaneous
