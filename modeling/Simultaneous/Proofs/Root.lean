import Simultaneous.Proofs.Block
import Simultaneous.Proofs.Expr.Machine
import Simultaneous.Proofs.Expr.Places
import Simultaneous.Proofs.Linear.Magnitude

/-!
Blocks on which an iteration converged. The values that come with the result are an iterate whose
residuals, computed by compiled code, are all within the tolerance; so are the values of the
simplified expressions of all residuals of the block.
-/

namespace Simultaneous

section Problems

variable {α : Type} [Scalar α]

structure Problem.Poses (p : Problem α) (es : List (Expr α)) : Prop where
  equations_eq : p.equations = es.length
  residuals_eq : ∀ x : p.Point,
    p.residuals x.toArray = (es.map fun e => e.evaluate (pointOf x.toArray)).toArray

theorem Problem.Poses.mem_residual {p : Problem α} {es : List (Expr α)} (poses : p.Poses es)
    (x : p.Point) {e : Expr α} (member : e ∈ es) :
    e.evaluate (pointOf x.toArray) ∈ p.residual x := by
  obtain ⟨i, inside, rfl⟩ := List.getElem_of_mem member
  refine Vector.mem_iff_getElem.2 ⟨i, by rwa [poses.equations_eq], ?_⟩
  rw [Problem.residual, poses.residuals_eq x, Linear.vectorOf, Vector.getElem_ofFn]
  simp [inside]

def BlockSolver.solvesDirectly (b : BlockSolver α) (residuals unknowns : List String)
    (bindings initial : Assoc α) : Bool :=
  match residuals, unknowns, b.start initial unknowns with
  | [residual], [name], [x] =>
    match Equation.ofText ⟨[name], bindings⟩ residual with
    | .ok e => (direct? e name x).isSome
    | .error _ => false
  | _, _, _ => false

omit [Scalar α] in
theorem BlockResult.exists_of_converged {unknowns : List String} {attempt : Attempt α} {n : Nat}
    (converged : (ofAttempt unknowns attempt).outcome = .converged n) :
    ∃ r, attempt = .report r ∧ r.converged = true := by
  cases attempt with
  | report r =>
    refine ⟨r, rfl, ?_⟩
    by_contra not_converged
    rw [ofAttempt, if_neg not_converged] at converged
    cases converged
  | failed e => cases converged
  | stalled => cases converged
  | lost => cases converged

end Problems

variable {K : Type} [Field K] [LinearOrder K] {F : Interpretation K}

theorem KernelReport.IsOnIterate.bounded {r : KernelReport (Exact F.arithmetic)}
    {p : Problem (Exact F.arithmetic)} {options : KernelOptions (Exact F.arithmetic)}
    (on_iterate : r.IsOnIterate p options) (converged : r.converged = true) :
    ∃ q, options.precision = .of q ∧ 0 ≤ q ∧ ∃ x : p.Point, r.values = x.toList ∧
      ∀ c ∈ p.residual x, ∃ a, c = .of a ∧ |a| ≤ q := by
  obtain ⟨i, iterations, rfl⟩ := on_iterate
  have finite := i.residual_eq
  unfold Problem.finiteResidual? at finite
  simp only at finite
  split at finite
  next all =>
    have residual : p.residual i.point = i.residual := Option.some.inj finite
    rw [residual] at all
    obtain ⟨q, precision, nonneg, bounded⟩ := Linear.exists_bound_of_le_maxAbs all converged
    refine ⟨q, precision, nonneg, i.point, rfl, ?_⟩
    rwa [residual]
  next => cases finite

theorem Equation.problem_poses (residual : String) (unknowns : List String)
    {e : Expr (Exact F.arithmetic)} (near : e.IsNear) :
    (Equation.ofExpr residual unknowns e).problem.Poses [e] where
  equations_eq := rfl
  residuals_eq x := by
    have value := Compiled.value_ofExpr near (Nat.le_of_eq x.size_toArray.symm)
    rw [List.map_singleton, ← value]
    rfl

theorem Coupled.IsMadeOf.poses {residuals unknowns : List String}
    {es : List (Expr (Exact F.arithmetic))} {c : Coupled (Exact F.arithmetic)}
    (made : c.IsMadeOf residuals unknowns es) (lengths : es.length = residuals.length)
    (near : ∀ e ∈ es, e.IsNear) : c.problem.Poses es where
  equations_eq := (congrArg List.length made.residuals_eq).trans lengths.symm
  residuals_eq x := by
    refine CompiledList.values_ofExprs made.function_eq near (Nat.le_of_eq ?_)
    rw [← made.unknowns_eq]
    exact x.size_toArray.symm

theorem Expr.isNear_of_ofResidual {names : Names (Exact F.arithmetic)} {text : String}
    {e : Expr (Exact F.arithmetic)} (few : names.unknowns.length ≤ slotLimit)
    (read : Expr.ofResidual names text = .ok e) : e.IsNear :=
  (allVariables_ofResidual read).isNear few

namespace BlockSolver

variable {b : BlockSolver (Exact F.arithmetic)} {residuals unknowns : List String}
variable {bindings initial : Assoc (Exact F.arithmetic)} {n : Nat}

def IsRoot (b : BlockSolver (Exact F.arithmetic)) (names : Names (Exact F.arithmetic))
    (residuals : List String) (values : List (Exact F.arithmetic)) : Prop :=
  ∃ q, b.settings.precision = .of q ∧ 0 ≤ q ∧ ∀ t ∈ residuals, ∃ e a,
    Expr.ofResidual names t = .ok e ∧ e.evaluate (pointOf values.toArray) = .of a ∧ |a| ≤ q

theorem dispatch_of_builtin (builtin : b.override? = none) (worker : Worker) (method : Method)
    (p : Problem (Exact F.arithmetic)) (x0 : List (Exact F.arithmetic)) :
    b.dispatch worker method unknowns p x0 = .ofAttempt unknowns (b.attempt worker
      ((method.kernel b.linear b.settings.kernelOptions).run p x0 false)) := by
  rw [dispatch, builtin]
  rfl

theorem isRoot_dispatch (builtin : b.override? = none) {names : Names (Exact F.arithmetic)}
    {worker : Worker} {method : Method} {p : Problem (Exact F.arithmetic)}
    {x0 : List (Exact F.arithmetic)} {es : List (Expr (Exact F.arithmetic))} (poses : p.Poses es)
    (started : x0.length = p.unknowns)
    (read : ∀ t ∈ residuals, ∃ e ∈ es, Expr.ofResidual names t = .ok e)
    (converged : (b.dispatch worker method unknowns p x0).outcome = .converged n) :
    b.IsRoot names residuals (b.dispatch worker method unknowns p x0).values := by
  rw [dispatch_of_builtin builtin] at converged ⊢
  obtain ⟨r, reported, flag⟩ := BlockResult.exists_of_converged converged
  have ran := eq_of_attempt reported nofun nofun
  have on_iterate := method.kernel_isFaithful b.linear _ p x0 false r started ran
  obtain ⟨q, precision, nonneg, x, values, bounded⟩ := on_iterate.bounded flag
  refine ⟨q, precision, nonneg, fun t member => ?_⟩
  obtain ⟨e, listed, made⟩ := read t member
  obtain ⟨a, value, small⟩ := bounded _ (poses.mem_residual x listed)
  refine ⟨e, a, made, ?_, small⟩
  rw [reported, BlockResult.ofAttempt, values]
  exact value

theorem solvesDirectly_of_direct {residual name : String} {x : Exact F.arithmetic}
    {e : Expr (Exact F.arithmetic)} {result : BlockResult (Exact F.arithmetic)}
    (starts : b.start initial [name] = [x])
    (made : Expr.ofResidual ⟨[name], bindings⟩ residual = .ok e)
    (solved : direct? (.ofExpr residual (lastOccurrences [name]) e) name x = some result) :
    b.solvesDirectly [residual] [name] bindings initial = true := by
  simp only [solvesDirectly, starts, Equation.ofText, made, Except.map, solved, Option.isSome_some]

theorem isRoot_finish (builtin : b.override? = none) (distinct : unknowns.Nodup) {worker : Worker}
    {prepared : BlockResult (Exact F.arithmetic) ⊕ Task (Exact F.arithmetic)}
    (prepares : Prepares b bindings initial residuals unknowns prepared)
    (iterated : b.solvesDirectly residuals unknowns bindings initial = false)
    (converged : (b.finish worker unknowns prepared).outcome = .converged n) :
    b.IsRoot ⟨unknowns, bindings⟩ residuals (b.finish worker unknowns prepared).values := by
  cases prepares with
  | tooFew | unread | tooLarge => cases converged
  | direct starts made solved =>
    cases (solvesDirectly_of_direct starts made solved).symm.trans iterated
  | @single residual name x e _ made _ =>
    have few : [name].length ≤ slotLimit := Nat.le_of_ble_eq_true rfl
    have near : e.IsNear := Expr.isNear_of_ofResidual few made
    refine isRoot_dispatch builtin (Equation.problem_poses residual _ near) rfl ?_ converged
    intro t only
    rw [List.mem_singleton.1 only]
    exact ⟨e, List.mem_singleton_self e, made⟩
  | @several _ _ es c _ _ read made =>
    obtain ⟨lengths, each⟩ := exists_of_mapM read
    have listed := lastOccurrences_of_nodup unknowns distinct
    have started : (b.start initial unknowns).length = c.unknowns.length := by
      rw [made.unknowns_eq, listed]
      exact List.length_map _
    have near : ∀ e ∈ es, e.IsNear := by
      intro e member
      obtain ⟨text, _, own⟩ := exists_text_of_mapM read member
      refine Expr.isNear_of_ofResidual ?_ own
      have few := made.length_unknowns_le (List.ne_nil_of_mem member)
      rwa [listed] at few
    exact isRoot_dispatch builtin (made.poses lengths near) started each converged

/-- Where an iteration converged on a block, the values are a root of the block. -/
theorem isRoot_solve (builtin : b.override? = none) (distinct : unknowns.Nodup) {worker : Worker}
    (iterated : b.solvesDirectly residuals unknowns bindings initial = false)
    (converged :
      (b.solve worker residuals unknowns bindings initial).outcome = .converged n) :
    b.IsRoot ⟨unknowns, bindings⟩ residuals
      (b.solve worker residuals unknowns bindings initial).values := by
  rw [← b.finish_prepare] at converged ⊢
  exact isRoot_finish builtin distinct (prepares_of_eq rfl) iterated converged

end BlockSolver

end Simultaneous
