import Simultaneous.Proofs.Line.Value
import Simultaneous.Proofs.Root
import Simultaneous.Proofs.Worksheet.Later
import Simultaneous.Proofs.Worksheet.Trace

/-!
The review of equations whose block an iteration converged on. The iteration works on an expression
in the unknowns of the block, with earlier values as constants; the review takes the text anew with
all values as constants. Both expressions are simplified, and both have the value of the residual as
it is written, as long as no exponent leaves its range on the way.
-/

namespace Simultaneous

open Formula Scalar

section Definitions

variable {α : Type} [Scalar α]

/-- The value of the residual as it is written, with the values found so far. -/
def EquationEntry.valueAt (solved : Assoc α) (e : EquationEntry) : α :=
  match Formula.read e.residual with
  | .ok tree => tree.value (nameValue ⟨[], solved⟩ (pointOf #[]))
  | .error _ => undefined

def EquationEntry.ExponentsFit (names : Names α) (e : EquationEntry) : Prop :=
  ∀ tree, Formula.read e.residual = .ok tree → tree.ExponentsFit names ∧
    ∀ x, Expr.ofNode names tree = .ok x → Expr.ExponentsFit x

def Worksheet.solvesDirectly (w : Worksheet α) (solver : BlockSolver α) (b : SolvedBlock α) :
    Bool :=
  solver.solvesDirectly (w.residualsOf b.equations) b.result.unknowns w.unknowns.solved w.initial

end Definitions

/-! ### One residual, converted twice -/

section Conversion

variable {K : Type} [Field K] [LinearOrder K] {F : Interpretation K}
variable {solved : Assoc (Exact F.arithmetic)} {names : Names (Exact F.arithmetic)}
variable {point : Nat → Exact F.arithmetic} {e : EquationEntry} {v : K}

theorem tree_of_valueAt (value : e.valueAt solved = .of v) : ∃ tree,
    Formula.read e.residual = .ok tree ∧
      tree.value (nameValue ⟨[], solved⟩ (pointOf #[])) = .of v := by
  unfold EquationEntry.valueAt at value
  split at value
  next tree read => exact ⟨tree, read, value⟩
  next => exact absurd value.symm (Exact.of_ne_undefined v)

/-- What names stand for where an equation was solved is what they stand for among the values found:
a value known at that time, or one that the solve found. -/
theorem hasValue_ofName_of_grown {unknowns : List String} {values : List (Exact F.arithmetic)}
    {bindings : Assoc (Exact F.arithmetic)}
    (kept : ∀ s c, bindings.get? s = some c → solved.get? s = some c)
    (found : ∀ (i : Nat) (s : String), unknowns[i]? = some s →
      ∃ c, values[i]? = some c ∧ solved.get? s = some c)
    (s : String) (a : K) (x : Expr (Exact F.arithmetic))
    (value : nameValue ⟨[], solved⟩ (pointOf #[]) s = .of a)
    (made : Expr.ofName ⟨unknowns, bindings⟩ s = .ok x) :
    Expr.HasValue (pointOf values.toArray) x a := by
  have now {c : Exact F.arithmetic} (no_constant : (constant? s : Option (Exact F.arithmetic)) = none)
      (known : solved.get? s = some c) : c = .of a := by
    rw [nameValue, Expr.ofName, no_constant, lastPosition?, known] at value
    exact value
  unfold Expr.ofName at made
  split at made
  next c constant =>
    cases made
    rw [nameValue, Expr.ofName, constant] at value
    exact value
  next no_constant =>
    split at made
    next i position =>
      cases made
      obtain ⟨c, component, known⟩ := found i s (getElem?_lastPosition s unknowns i position)
      change pointOf values.toArray i = .of a
      rw [pointOf, List.getElem?_toArray, component, Option.getD_some]
      exact now no_constant known
    next =>
      split at made
      next c bound =>
        cases made
        exact now no_constant (kept s c bound)
      next => cases made

variable [IsStrictOrderedRing K]

/-- The simplified expression has the value of the residual as it is written. -/
theorem hasValue_ofResidual {x : Expr (Exact F.arithmetic)} (fits : e.ExponentsFit names)
    (value : e.valueAt solved = .of v)
    (agrees : ∀ s a x, nameValue ⟨[], solved⟩ (pointOf #[]) s = .of a →
      Expr.ofName names s = .ok x → Expr.HasValue point x a)
    (made : Expr.ofResidual names e.residual = .ok x) : Expr.HasValue point x v := by
  obtain ⟨tree, read, value⟩ := tree_of_valueAt value
  obtain ⟨tree_fits, fits⟩ := fits tree read
  rw [Expr.ofResidual, Expr.ofText, read] at made
  simp only at made
  cases converted : Expr.ofNode names tree with
  | error f =>
    rw [converted] at made
    cases made
  | ok y =>
    rw [converted] at made
    cases made
    exact Expr.hasValue_simplify (fits y converted) v
      (Expr.hasValue_ofNode tree_fits agrees v y value converted)

theorem Worksheet.residualAt?_of_value (complete : e.unknowns.all solved.contains = true)
    (fits : e.ExponentsFit ⟨[], solved⟩) (value : e.valueAt solved = .of v) :
    residualAt? solved e = some (.of v) := by
  obtain ⟨tree, read, tree_value⟩ := tree_of_valueAt value
  obtain ⟨y, converted⟩ := Expr.exists_ofNode (fits tree read).1
    (fun s a x => Expr.hasValue_ofName) (fun s a => Expr.exists_ofName) v tree_value
  have made : Expr.ofResidual ⟨[], solved⟩ e.residual = .ok y.simplify := by
    rw [Expr.ofResidual, Expr.ofText, read]
    simp only [converted]
    rfl
  have simplified : y.simplify.evaluate (pointOf #[]) = .of v :=
    hasValue_ofResidual fits value (fun s a x => Expr.hasValue_ofName) made
  rw [residualAt?, if_pos complete, made]
  exact congrArg some simplified

theorem Worksheet.finding_of_small {q : K} (nonneg : 0 ≤ q) (small : |v| ≤ q) :
    finding (.of q : Exact F.arithmetic) (some (.of v)) = .fine (.of v) := by
  have ten : (decimal 10 0 : Exact F.arithmetic) = .of 10 := by
    simp [decimal, ofNumeral, Exact.ofNumeral]
  have finite : isFinite (.of v : Exact F.arithmetic) = true := rfl
  have below : ¬q * 10 < |v| := by
    refine not_lt.2 (small.trans ?_)
    linarith
  have not_high : lt ((.of q : Exact F.arithmetic) * .of 10) (abs (.of v)) = false := by
    rw [Exact.of_mul_of, Exact.abs_of, Exact.lt_of]
    exact decide_eq_false below
  rw [finding, finite, ten, not_high]
  rfl

end Conversion

/-! ### Values after a run -/

theorem Assoc.get?_of_prefix {β : Type} {t s : Assoc β} (longer : t <+: s) {name : String} {c : β}
    (known : t.get? name = some c) : s.get? name = some c := by
  obtain ⟨more, rfl⟩ := longer
  rw [Assoc.get?_append, known, Option.some_or]

namespace Worksheet

section Runs

variable {α : Type} {w w' : Worksheet α} {r : Run α} {earlier later : List (SolvedBlock α)}
variable {b : SolvedBlock α}

theorem Accounts.known_later (a : w.Accounts r) (tried : r.blocks = earlier ++ b :: later)
    (grown : Grows r.worksheet w') (s : String) (c : α)
    (known : (w.after earlier).unknowns.solved.get? s = some c) :
    w'.unknowns.solved.get? s = some c := by
  refine Assoc.get?_of_prefix (List.IsPrefix.trans ?_ grown.values) known
  rw [a.worksheet_eq, tried, after, after, valuesWritten_append, ← List.append_assoc]
  exact List.prefix_append _ _

theorem Accounts.found_later (a : w.Accounts r) (member : b ∈ r.blocks)
    (values : b.result.outcome.hasValues = true) (grown : Grows r.worksheet w') (i : Nat)
    (s : String) (listed : b.result.unknowns[i]? = some s) :
    ∃ c, b.result.values[i]? = some c ∧ w'.unknowns.solved.get? s = some c := by
  obtain ⟨inside, rfl⟩ := List.getElem?_eq_some_iff.1 listed
  have length := a.filled b member values
  have filled : i < b.result.values.length := length ▸ inside
  have written : b.result.unknowns[i] ∈ namesWritten r.blocks :=
    List.mem_flatMap.2 ⟨b, List.mem_filter.2 ⟨member, values⟩, List.getElem_mem inside⟩
  have entry : (b.result.unknowns[i], b.result.values[i]) ∈
      b.result.unknowns.zip b.result.values := by
    have zipped : i < (b.result.unknowns.zip b.result.values).length := by
      rw [List.length_zip]
      exact lt_min inside filled
    rw [← List.getElem_zip (h := zipped)]
    exact List.getElem_mem zipped
  have known := a.value?_of_mem member values entry
  rw [Unknowns.value?, a.internal _ written] at known
  exact ⟨b.result.values[i], List.getElem?_eq_getElem filled, Assoc.get?_of_prefix grown.values known⟩

theorem Accounts.complete_later (a : w.Accounts r) (s : w.Sound) (grown : Grows r.worksheet w')
    {id : Nat} (written : id ∈ idsWritten r.blocks) {e : EquationEntry}
    (entry : w'.equations[id]? = some e) :
    w.equations[id]? = some e ∧ e.unknowns.all w'.unknowns.solved.contains = true := by
  have inside : id < w.equations.length := by
    have waiting := List.mem_append_right w.solved (a.ids_unsolved id written)
    exact List.mem_range.1 (s.partition.subset waiting)
  have same : r.worksheet.equations = w.equations := by rw [a.worksheet_eq, after]
  have first : w.equations[id]? = some e := by
    obtain ⟨more, longer⟩ := grown.equations
    rw [← longer, same, List.getElem?_append_left inside] at entry
    exact entry
  refine ⟨first, List.all_eq_true.2 fun v named => ?_⟩
  have solved : r.worksheet.unknowns.isSolved v = true := by
    by_contra fresh
    have open_ := (r.worksheet.mem_unsolvedIn id v).2
      ⟨e, same ▸ first, named, Bool.eq_false_iff.2 fresh⟩
    rw [a.settled id written] at open_
    cases open_
  rw [Unknowns.isSolved_eq, s.internal e (List.mem_of_getElem? first) v named] at solved
  obtain ⟨c, known⟩ := Option.isSome_iff_exists.1 solved
  rw [Assoc.contains, Assoc.get?_of_prefix grown.values known, Option.isSome_some]

end Runs

/-! ### The main statement -/

section Example

def newton : BlockSolver (Exact Interpretation.rational.arithmetic) := ⟨.standard, .direct, none, .prompt⟩

def square : Worksheet (Exact Interpretation.rational.arithmetic) := ofLines .radians ["x^2 = 4"]

def nearTwo : ℚ := 926510094425921 / 463255047212960

def squareBlock : SolvedBlock (Exact Interpretation.rational.arithmetic) :=
  ⟨[0], ⟨["x"], [.of nearTwo], .converged 5⟩⟩

def squareLater : Worksheet (Exact Interpretation.rational.arithmetic) :=
  ((square.solve newton).worksheet.enter .radians "y = x + 1").1

def squareEntry : EquationEntry := ⟨"x^2-1*(4)", ["x"], 1⟩

theorem square_run :
    (square.solve newton).blocks = [squareBlock] ∧
      (square.after []).solvesDirectly newton squareBlock = false ∧
      squareLater.equations[0]? = some squareEntry ∧
      squareLater.unknowns.solved = [("x", .of nearTwo)] ∧
      squareEntry.valueAt squareLater.unknowns.solved = .of (nearTwo ^ 2 - 4) := by
  decide +kernel

theorem square_accepted : LineEquation.ofLine .radians "x^2 = 4" =
    .ok (some ⟨"x^2-1*(4)", ["x"]⟩) := by
  cbv

theorem states_power : States .radians "x^2 ".toList
    (.binary .exp (.name "x") (.number (.ofNat 2))) := by
  have same : Line.bare "x^2 ".toList = ['x', '^', '2'] := by decide
  have typed : Line.Typed .radians .opener ['x', '^', '2']
      [.identifier "x", .hat, .number (.ofNat 2)] :=
    typed_letter rfl rfl (by decide) (by decide) (by decide)
      (.operator (by simp) (typed_digit rfl rfl (by decide) .nil))
  exact ⟨_, same ▸ typed, .lift .product (.lift .signed (.lift .power
    (.binary .exp (.lift .operand (.name "x")) (.lift .exponent (.number (.ofNat 2))))))⟩

theorem states_four : States .radians " 4".toList (.number (.ofNat 4)) :=
  states_digit '4' (by decide) rfl rfl

def squareReading : Reading :=
  .bracket (difference (.binary .exp (.name "x") (.number (.ofNat 2))) (.number (.ofNat 4)))

def squareExpr (x : Expr (Exact Interpretation.rational.arithmetic)) :
    Expr (Exact Interpretation.rational.arithmetic) :=
  .sub (.pow x 2) (.mul (.const (.of ((1 : Nat) : ℚ))) (.const (.of ((4 : Nat) : ℚ))))

section Square

variable {names : Names (Exact Interpretation.rational.arithmetic)}
variable {x : Expr (Exact Interpretation.rational.arithmetic)}

theorem ofNode_square (named : Expr.ofName names "x" = .ok x) :
    Expr.ofNode names squareReading.node = .ok (squareExpr x) := by
  have power : Expr.ofNode names (Reading.binary .exp (.name "x") (.number (.ofNat 2))).node = _ :=
    (Expr.ofNode_binary_eq_ok .exp).2
      ⟨_, _, (Expr.ofNode_read "x").trans named, ofNode_numeral 2, ofPower_two x⟩
  have once : Expr.ofNode names
      (Reading.binary .mul (.number (.ofNat 1)) (.bracket (.number (.ofNat 4)))).node = _ :=
    (Expr.ofNode_binary_eq_ok .mul).2
      ⟨_, _, ofNode_numeral 1, Expr.ofNode_bracket.trans (ofNode_numeral 4), rfl⟩
  exact Expr.ofNode_bracket.trans ((Expr.ofNode_binary_eq_ok .sub).2 ⟨_, _, power, once, rfl⟩)

theorem squareReading_fits : squareReading.ExponentsFit names := by
  refine ⟨⟨trivial, trivial, fun _ e made => ?_⟩,
    ⟨trivial, trivial, fun other => by cases other⟩, fun other => by cases other⟩
  rw [ofNode_numeral] at made
  cases made
  exact .const _

theorem squareExpr_fits (leaf : (∃ c, x = .const c) ∨ ∃ s i, x = .var s i) :
    Expr.ExponentsFit (squareExpr x) := by
  have power : Expr.ExponentsFit (.pow x 2) := by
    obtain ⟨c, rfl⟩ | ⟨s, i, rfl⟩ := leaf
    · exact Expr.exponentsFit_power_const c 2
    · exact Expr.exponentsFit_power_var (by decide) (by decide)
  exact .sub power (Expr.exponentsFit_mul_const _ _)
    fun f rule => absurd rule (Expr.subRule_ne_again _ _ _)

theorem squareEntry_fits (leaf : (∃ c, x = .const c) ∨ ∃ s i, x = .var s i)
    (named : Expr.ofName names "x" = .ok x) : squareEntry.ExponentsFit names := by
  intro tree read
  obtain rfl := Except.ok.inj
    ((read_residual square_accepted rfl states_power states_four).symm.trans read)
  refine ⟨squareReading_fits.node, fun e made => ?_⟩
  obtain rfl := Except.ok.inj ((ofNode_square named).symm.trans made)
  exact squareExpr_fits leaf

end Square

/-- A power that is one after simplification, whatever `x` is, and zero for `x = 0` as it is
written. -/
def wrapped : Worksheet (Exact Interpretation.rational.arithmetic) :=
  ((empty.setInitial "x" (.of 0)).enter .radians "(((x^65536)^65536)^65536)^65536 = 1").1

def wrappedBlock : SolvedBlock (Exact Interpretation.rational.arithmetic) :=
  ⟨[0], ⟨["x"], [.of 0], .converged 0⟩⟩

def wrappedEntry : EquationEntry := ⟨"(((x^65536)^65536)^65536)^65536-1*(1)", ["x"], 1⟩

theorem wrapped_run :
    (wrapped.solve newton).blocks = [wrappedBlock] ∧
      (wrapped.after []).solvesDirectly newton wrappedBlock = false ∧
      (wrapped.solve newton).worksheet.equations[0]? = some wrappedEntry ∧
      wrappedEntry.valueAt (wrapped.solve newton).worksheet.unknowns.solved = .of (-1) ∧
      (wrapped.solve newton).worksheet.findings newton.settings.precision =
        [.high (.of (-1))] := by
  decide +kernel

end Example

section Main

variable {K : Type} [Field K] [LinearOrder K] [IsStrictOrderedRing K] {F : Interpretation K}
variable {solver : BlockSolver (Exact F.arithmetic)} {w w' : Worksheet (Exact F.arithmetic)}

/-- An equation of a block on which a kernel of the settings converged is fine in every review before
the next clearing, with a residual within the tolerance: as long as its residual as it is written
has a value at the values found, and no exponent leaves its range while it is simplified, neither
for the solve nor for the review. -/
theorem converged_equations_are_fine (builtin : solver.override? = none) (reachable : Reachable w)
    {earlier later : List (SolvedBlock (Exact F.arithmetic))}
    {b : SolvedBlock (Exact F.arithmetic)}
    (tried : (w.solve solver).blocks = earlier ++ b :: later)
    (iterated : (w.after earlier).solvesDirectly solver b = false) {n : Nat}
    (converged : b.result.outcome = .converged n) (since : Later (w.solve solver).worksheet w')
    {id : Nat} (member : id ∈ b.equations) {e : EquationEntry}
    (entry : w'.equations[id]? = some e) {v : K} (value : e.valueAt w'.unknowns.solved = .of v)
    (fits_then : e.ExponentsFit ⟨b.result.unknowns, (w.after earlier).unknowns.solved⟩)
    (fits_now : e.ExponentsFit ⟨[], w'.unknowns.solved⟩) :
    ∃ p, solver.settings.precision = .of p ∧ |v| ≤ p ∧
      (w'.findings solver.settings.precision)[id]? = some (.fine (.of v)) := by
  have complete : solver.IsComplete := by
    intro k chosen
    rw [builtin] at chosen
    cases chosen
  have a := reachable.sound.accounts_solve complete
  have grown := since.grows (.solve complete reachable)
  have values : b.result.outcome.hasValues = true := by rw [converged]; rfl
  have in_run : b ∈ (w.solve solver).blocks := by
    rw [tried]
    exact List.mem_append_right _ List.mem_cons_self
  have kept : b ∈ written (w.solve solver).blocks := List.mem_filter.2 ⟨in_run, values⟩
  have distinct : b.result.unknowns.Nodup := (List.nodup_flatMap.1 a.names_nodup).1 b kept
  obtain ⟨first, known⟩ := a.complete_later reachable.sound grown
    (List.mem_flatMap.2 ⟨b, kept, member⟩) entry
  have result : b.result = solver.solve (solver.timing.worker b.equations)
      ((w.after earlier).residualsOf b.equations) b.result.unknowns
      (w.after earlier).unknowns.solved (w.after earlier).initial :=
    congrArg SolvedBlock.result ((reachable.sound.traced_solve complete).solved tried)
  have root := BlockSolver.isRoot_solve builtin distinct iterated (result ▸ converged)
  rw [← result] at root
  obtain ⟨q, precision, nonneg, bounded⟩ := root
  have listed : e.residual ∈ (w.after earlier).residualsOf b.equations :=
    List.mem_filterMap.2 ⟨id, member, by rw [after, first]; rfl⟩
  obtain ⟨x, c, made, found, small⟩ := bounded e.residual listed
  have there := hasValue_ofResidual fits_then value
    (hasValue_ofName_of_grown (a.known_later tried grown) (a.found_later in_run values grown)) made
  obtain rfl := Exact.of_inj.1 (found.symm.trans there)
  refine ⟨q, precision, small, ?_⟩
  rw [findings, List.getElem?_map, entry, Option.map_some, precision,
    residualAt?_of_value known fits_now value, finding_of_small nonneg small]

end Main

theorem square_is_fine :
    (square.solve newton).blocks = [squareBlock] ∧
      ∃ p, newton.settings.precision = .of p ∧ |nearTwo ^ 2 - 4| ≤ p ∧
        (squareLater.findings newton.settings.precision)[0]? =
          some (.fine (.of (nearTwo ^ 2 - 4))) := by
  obtain ⟨blocks, iterated, entry, solved, value⟩ := square_run
  have reachable : Reachable square := reachable_ofLines .radians ["x^2 = 4"]
  have since : Later (square.solve newton).worksheet squareLater :=
    .single (.enterAt _ .radians "y = x + 1" _)
  have fits_then : squareEntry.ExponentsFit ⟨["x"], (square.after []).unknowns.solved⟩ :=
    squareEntry_fits (.inr ⟨"x", 0, rfl⟩) rfl
  have fits_now : squareEntry.ExponentsFit ⟨[], squareLater.unknowns.solved⟩ := by
    rw [solved]
    exact squareEntry_fits (.inl ⟨.of nearTwo, rfl⟩) rfl
  exact ⟨blocks, converged_equations_are_fine rfl reachable blocks iterated rfl since
    List.mem_cons_self entry value fits_then fits_now⟩

/-- Without a condition on exponents the statement is wrong: an equation whose exponents leave their
range on the way is solved by an iteration that converges, and its residual is high. -/
theorem converged_equation_may_be_high :
    ¬∀ {w w' : Worksheet (Exact Interpretation.rational.arithmetic)}
        {earlier later : List (SolvedBlock (Exact Interpretation.rational.arithmetic))}
        {b : SolvedBlock (Exact Interpretation.rational.arithmetic)} {n id : Nat}
        {e : EquationEntry} {v : ℚ},
      Reachable w → (w.solve newton).blocks = earlier ++ b :: later →
      (w.after earlier).solvesDirectly newton b = false → b.result.outcome = .converged n →
      Later (w.solve newton).worksheet w' → id ∈ b.equations → w'.equations[id]? = some e →
      e.valueAt w'.unknowns.solved = .of v →
      (w'.findings newton.settings.precision)[id]? = some (.fine (.of v)) := by
  intro fine
  obtain ⟨blocks, iterated, entry, value, findings⟩ := wrapped_run
  have reachable : Reachable wrapped := .enterAt _ _ _ (.setInitial _ _ .empty)
  have shown := fine reachable blocks iterated rfl .refl List.mem_cons_self entry value
  rw [findings] at shown
  cases shown

end Worksheet

end Simultaneous
