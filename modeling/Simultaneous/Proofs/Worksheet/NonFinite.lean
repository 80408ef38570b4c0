import Simultaneous.Proofs.Expr.Surface
import Simultaneous.Proofs.Expr.Written
import Simultaneous.Proofs.Worksheet.Residuals

/-!
The review of equations whose residual has no value at the values found. The review simplifies the
residual first, with all values as constants, and some rules take a value from operands of which one
has none. Where no rule does, the review reports the equation and raises the flag.
-/

namespace Simultaneous

open Formula Scalar

section Clear

variable {K : Type} [Field K] [LinearOrder K] {F : Interpretation K}
variable {solved : Assoc (Exact F.arithmetic)} {e : EquationEntry}

/-- A residual converts, every exponent in it has a value, and its expression is clear with the
values found so far. -/
def EquationEntry.ClearAt (solved : Assoc (Exact F.arithmetic)) (e : EquationEntry) : Prop :=
  ∃ tree x, Formula.read e.residual = .ok tree ∧
    tree.Proper (nameValue ⟨[], solved⟩ (pointOf #[])) ∧
    Expr.ofNode ⟨[], solved⟩ tree = .ok x ∧ x.Clear (pointOf #[])

theorem evaluate_ofName_constant (s : String) (x : Expr (Exact F.arithmetic))
    (made : Expr.ofName ⟨[], solved⟩ s = .ok x) :
    x.evaluate (pointOf #[]) = nameValue ⟨[], solved⟩ (pointOf #[]) s := by
  rw [nameValue, made]

variable [IsStrictOrderedRing K]

theorem Worksheet.residualAt?_of_clear (domains : F.HasDomains)
    (complete : e.unknowns.all solved.contains = true) (clear : e.ClearAt solved)
    (fits : e.ExponentsFit ⟨[], solved⟩) : residualAt? solved e = some (e.valueAt solved) := by
  obtain ⟨tree, x, read, proper, converted, clear⟩ := clear
  obtain ⟨tree_fits, fits⟩ := fits tree read
  have made : Expr.ofResidual ⟨[], solved⟩ e.residual = .ok x.simplify := by
    rw [Expr.ofResidual, Expr.ofText, read]
    simp only [converted]
    rfl
  have simplified := Expr.evaluate_simplify domains (fun _ => rfl) (fits x converted) clear
  have written := Expr.evaluate_ofNode proper evaluate_ofName_constant tree_fits x converted
  rw [residualAt?, if_pos complete, made, EquationEntry.valueAt, read]
  exact congrArg some (simplified.trans written)

end Clear

namespace Worksheet

section Flag

variable {α : Type} (w : Worksheet α)

theorem failed_foldl_note_iff (findings : List (Finding α)) :
    (findings.foldl note w).failed = true ↔ w.failed = true ∨ ∃ r, .nonFinite r ∈ findings := by
  induction findings generalizing w with
  | nil => simp
  | cons f later ih =>
    rw [List.foldl_cons, ih]
    cases f <;> simp [note]

theorem failed_review_iff [Scalar α] (precision : α) :
    (w.review precision).1.failed = true ↔
      w.failed = true ∨ ∃ r, .nonFinite r ∈ (w.review precision).2 :=
  w.failed_foldl_note_iff _

end Flag

/-! ### The main statement -/

section Main

variable {K : Type} [Field K] [LinearOrder K] [IsStrictOrderedRing K] {F : Interpretation K}
variable {w : Worksheet (Exact F.arithmetic)}

/-- An equation that is clear at the values found, and has values for all its unknowns but none for
its residual, is reported as such and raises the flag. -/
theorem undefined_residual_is_flagged (domains : F.HasDomains) (reachable : Reachable w)
    (precision : Exact F.arithmetic) {id : Nat} {e : EquationEntry}
    (entry : w.equations[id]? = some e)
    (complete : ∀ v ∈ e.unknowns, w.unknowns.isSolved v = true)
    (undefined : e.valueAt w.unknowns.solved = .undefined) (clear : e.ClearAt w.unknowns.solved)
    (fits : e.ExponentsFit ⟨[], w.unknowns.solved⟩) :
    (w.review precision).2[id]? = some (.nonFinite .undefined) ∧
      (w.review precision).1.failed = true := by
  have known : e.unknowns.all w.unknowns.solved.contains = true := by
    refine List.all_eq_true.2 fun v named => ?_
    have solved := complete v named
    rwa [Unknowns.isSolved_eq, reachable.sound.internal e (List.mem_of_getElem? entry) v named]
      at solved
  have found : (w.findings precision)[id]? = some (.nonFinite .undefined) := by
    rw [findings, List.getElem?_map, entry, Option.map_some,
      residualAt?_of_clear domains known clear fits, undefined]
    rfl
  exact ⟨found, (w.failed_review_iff precision).2 (.inr ⟨_, List.mem_of_getElem? found⟩)⟩

end Main

section Example

def grounded : Worksheet (Exact Interpretation.rational.arithmetic) :=
  ((ofLines .radians ["x = 0"]).solve newton).worksheet

theorem reachable_grounded : Reachable grounded := by
  refine .solve (fun k chosen => ?_) (reachable_ofLines .radians ["x = 0"])
  cases chosen

def inverse : Worksheet (Exact Interpretation.rational.arithmetic) :=
  (grounded.enter .radians "1/x=1").1

def inverseEntry : EquationEntry := ⟨"1/x-1*(1)", ["x"], 2⟩

theorem inverse_run :
    inverse.equations[1]? = some inverseEntry ∧ inverse.unknowns.solved = [("x", .of 0)] ∧
      inverseEntry.valueAt inverse.unknowns.solved = .undefined := by
  decide +kernel

def masked : Worksheet (Exact Interpretation.rational.arithmetic) :=
  (grounded.enter .radians "x/x=0").1

def maskedEntry : EquationEntry := ⟨"x/x-1*(0)", ["x"], 2⟩

theorem masked_run :
    masked.equations[1]? = some maskedEntry ∧ masked.unknowns.isSolved "x" = true ∧
      maskedEntry.valueAt masked.unknowns.solved = .undefined ∧
      (masked.review newton.settings.precision).2[1]? = some (.fine (.of 0)) := by
  decide +kernel

theorem inverse_accepted : LineEquation.ofLine .radians "1/x=1" =
    .ok (some ⟨"1/x-1*(1)", ["x"]⟩) := by
  cbv

theorem states_inverse : States .radians "1/x".toList
    (.binary .div (.number (.ofNat 1)) (.name "x")) := by
  have same : Line.bare "1/x".toList = ['1', '/', 'x'] := by decide
  have typed : Line.Typed .radians .opener ['1', '/', 'x']
      [.number (.ofNat 1), .slash, .identifier "x"] :=
    typed_digit rfl rfl (by decide)
      (.operator (by simp) (typed_letter rfl rfl (by decide) (by decide) (by decide) .nil))
  exact ⟨_, same ▸ typed, .lift .product (.binary .div
    (.lift .signed (.lift .power (.lift .operand (.number (.ofNat 1)))))
    (.lift .power (.lift .operand (.name "x"))))⟩

theorem states_one : States .radians "1".toList (.number (.ofNat 1)) :=
  states_digit '1' (by decide) rfl rfl

def inverseReading : Reading :=
  .bracket (difference (.binary .div (.number (.ofNat 1)) (.name "x")) (.number (.ofNat 1)))

def inverseExpr : Expr (Exact Interpretation.rational.arithmetic) :=
  .sub (.div (.const (.of ((1 : Nat) : ℚ))) (.const (.of 0)))
    (.mul (.const (.of ((1 : Nat) : ℚ))) (.const (.of ((1 : Nat) : ℚ))))

section Inverse

variable {names : Names (Exact Interpretation.rational.arithmetic)}
variable {point : Nat → Exact Interpretation.rational.arithmetic}

theorem ofNode_inverse (named : Expr.ofName names "x" = .ok (.const (.of 0))) :
    Expr.ofNode names inverseReading.node = .ok inverseExpr := by
  have quotient : Expr.ofNode names
      (Reading.binary .div (.number (.ofNat 1)) (.name "x")).node = _ :=
    (Expr.ofNode_binary_eq_ok .div).2
      ⟨_, _, ofNode_numeral 1, (Expr.ofNode_read "x").trans named, rfl⟩
  have once : Expr.ofNode names
      (Reading.binary .mul (.number (.ofNat 1)) (.bracket (.number (.ofNat 1)))).node = _ :=
    (Expr.ofNode_binary_eq_ok .mul).2
      ⟨_, _, ofNode_numeral 1, Expr.ofNode_bracket.trans (ofNode_numeral 1), rfl⟩
  exact Expr.ofNode_bracket.trans ((Expr.ofNode_binary_eq_ok .sub).2 ⟨_, _, quotient, once, rfl⟩)

theorem inverseReading_fits : inverseReading.ExponentsFit names :=
  ⟨⟨trivial, trivial, nofun⟩, ⟨trivial, trivial, nofun⟩, nofun⟩

theorem inverseReading_hasExponents : inverseReading.HasExponents names point :=
  ⟨⟨trivial, trivial, nofun⟩, ⟨trivial, trivial, nofun⟩, nofun⟩

theorem inverseExpr_clear : inverseExpr.Clear point := by
  have fine (a : ℚ) : Expr.faults point (.const (.of a)) = ∅ := Expr.faults_const_of a
  have product : Expr.faults point (.mul (.const (.of ((1 : Nat) : ℚ)))
      (.const (.of ((1 : Nat) : ℚ)))) = ∅ := by
    rw [Expr.faults_mul, fine, Set.union_empty]
  refine ⟨⟨trivial, trivial, fun _ => fine _, fun zero => ?_⟩,
    ⟨trivial, trivial, fun _ => fine _, fun _ => fine _, fun _ => fine _⟩,
    fun same => same.trans product⟩
  cases Exact.of_inj.1 zero

theorem inverseExpr_fits : Expr.ExponentsFit inverseExpr := by
  refine .sub (.div (.const _) (.const _) fun e rule => ?_) (Expr.exponentsFit_mul_const _ _)
    fun e rule => absurd rule (Expr.subRule_ne_again _ _ _)
  rw [Expr.simplify_const, Expr.simplify_const] at rule
  cases rule

end Inverse

theorem inverse_is_flagged :
    (inverse.review newton.settings.precision).2[1]? = some (.nonFinite .undefined) ∧
      (inverse.review newton.settings.precision).1.failed = true := by
  obtain ⟨entry, known, undefined⟩ := inverse_run
  have read := read_residual inverse_accepted rfl states_inverse states_one
  have converted :
      Expr.ofNode ⟨[], inverse.unknowns.solved⟩ inverseReading.node = .ok inverseExpr :=
    ofNode_inverse (by rw [known]; rfl)
  have complete : ∀ v ∈ inverseEntry.unknowns, inverse.unknowns.isSolved v = true := by
    decide +kernel
  refine undefined_residual_is_flagged Interpretation.rational_hasDomains
    (.enterAt _ _ _ reachable_grounded) _ entry complete undefined
    ⟨_, _, read, inverseReading_hasExponents.proper, converted, inverseExpr_clear⟩ ?_
  intro tree read'
  obtain rfl := Except.ok.inj (read.symm.trans read')
  refine ⟨inverseReading_fits.node, fun x made => ?_⟩
  obtain rfl := Except.ok.inj (converted.symm.trans made)
  exact inverseExpr_fits

/-- Not every equation is reported whose residual has no value: of `x / x` no zero is left. -/
theorem not_every_undefined_residual_is_flagged :
    ¬∀ {w : Worksheet (Exact Interpretation.rational.arithmetic)}, Reachable w →
      ∀ {id : Nat} {e : EquationEntry}, w.equations[id]? = some e →
      (∀ v ∈ e.unknowns, w.unknowns.isSolved v = true) →
      e.valueAt w.unknowns.solved = .undefined →
      (w.review newton.settings.precision).2[id]? = some (.nonFinite .undefined) ∧
        (w.review newton.settings.precision).1.failed = true := by
  intro always
  obtain ⟨entry, known, undefined, fine⟩ := masked_run
  have complete : ∀ v ∈ maskedEntry.unknowns, masked.unknowns.isSolved v = true := by
    intro v named
    rwa [List.mem_singleton.1 named]
  have flagged := (always (.enterAt _ _ _ reachable_grounded) entry complete undefined).1
  cases fine.symm.trans flagged

end Example

end Worksheet

end Simultaneous
