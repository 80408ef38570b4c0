import Simultaneous.Proofs.Line.Value

/-!
Names that are bound to values. Where a name is bound, its value stands in the expression from the
start; other exponents are constants then, and other rules simplify the expression. Where the names
are unknowns and the point has their values, the expression looks different, but both have the value
of the tree as it is written, as long as no exponent leaves its range on the way.
-/

namespace Simultaneous

open Formula Scalar

section Definitions

variable {α : Type} [Scalar α]

/-- The value of a name as it is written: a canonical constant means itself, any other name what is
given for it. -/
def Formula.writtenValue (value : String → α) (s : String) : α := (constant? s).getD (value s)

/-- No integer exponent leaves its range while a tree is converted and its expression simplified. -/
def Formula.Node.ConversionFits (names : Names α) (tree : Node) : Prop :=
  tree.ExponentsFit names ∧ ∀ e, Expr.ofNode names tree = .ok e → Expr.ExponentsFit e

end Definitions

namespace Expr

section Agreement

variable {K : Type} [Field K] [LinearOrder K] {F : Interpretation K}
variable {unknowns : List String} {bindings : Assoc (Exact F.arithmetic)}
variable {value : String → Exact F.arithmetic}

/-- What a name becomes has the value of the name: at the position of an unknown or as a constant. -/
theorem hasValue_ofName_of_written (bound : ∀ s c, bindings.get? s = some c → c = value s)
    (s : String) (a : K) (x : Expr (Exact F.arithmetic)) (written : writtenValue value s = .of a)
    (made : ofName ⟨unknowns, bindings⟩ s = .ok x) :
    HasValue (pointOf (unknowns.map value).toArray) x a := by
  unfold writtenValue at written
  unfold ofName at made
  split at made
  next c constant =>
    cases made
    rw [constant] at written
    exact written
  next no_constant =>
    rw [no_constant] at written
    split at made
    next i position =>
      cases made
      have listed := getElem?_lastPosition s unknowns i position
      change pointOf (unknowns.map value).toArray i = .of a
      rw [pointOf, List.getElem?_toArray, List.getElem?_map, listed]
      exact written
    next =>
      split at made
      next c found =>
        cases made
        exact (bound s c found).trans written
      next => cases made

variable [IsStrictOrderedRing K]

/-- A simplified expression has the value of the tree as it is written, whichever names are bound. -/
theorem hasValue_simplify_ofNode (bound : ∀ s c, bindings.get? s = some c → c = value s)
    {tree : Node} (fits : tree.ConversionFits ⟨unknowns, bindings⟩) {e : Expr (Exact F.arithmetic)}
    (made : ofNode ⟨unknowns, bindings⟩ tree = .ok e) {v : K}
    (written : tree.value (writtenValue value) = .of v) :
    HasValue (pointOf (unknowns.map value).toArray) e.simplify v :=
  hasValue_simplify (fits.2 e made) v
    (hasValue_ofNode fits.1 (hasValue_ofName_of_written bound) v e written made)

/-- Converted with some names bound to values and converted with all names as variables, a tree has
the same value at the same values, that of the tree as it is written. -/
theorem bound_value_eq_free_value (tree : Node) (unknowns free : List String)
    (bindings : Assoc (Exact F.arithmetic)) (value : String → Exact F.arithmetic)
    (bound : ∀ s c, bindings.get? s = some c → c = value s) {e f : Expr (Exact F.arithmetic)}
    (partly : ofNode ⟨unknowns, bindings⟩ tree = .ok e)
    (freely : ofNode ⟨free, []⟩ tree = .ok f)
    (partly_fits : tree.ConversionFits ⟨unknowns, bindings⟩)
    (freely_fits : tree.ConversionFits (⟨free, []⟩ : Names (Exact F.arithmetic))) {v : K}
    (written : tree.value (writtenValue value) = .of v) :
    e.simplify.evaluate (pointOf (unknowns.map value).toArray) = .of v ∧
      f.simplify.evaluate (pointOf (free.map value).toArray) = .of v :=
  ⟨hasValue_simplify_ofNode bound partly_fits partly written,
    hasValue_simplify_ofNode (by simp [Assoc.get?_nil]) freely_fits freely written⟩

end Agreement

section Example

variable {K : Type} [Field K] [LinearOrder K] {F : Interpretation K}

def powerTree (base exponent : Node) : Node := .mk .exp [exponent, base]

def nameToName : Node := powerTree (.leaf (.read "x")) (.leaf (.read "y"))

theorem leaf_fits {α : Type} [Scalar α] (names : Names α) (op : Operator) (other : op ≠ .exp) :
    (Node.leaf op).ExponentsFit names :=
  .mk (by simp) fun power => absurd power other

theorem nameToName_fits {names : Names (Exact Interpretation.rational.arithmetic)}
    {e f : Expr (Exact Interpretation.rational.arithmetic)}
    (exponent : ofName names "y" = .ok e) (simple : ExponentsFit e)
    (made : ofNode names nameToName = .ok f) (fits : ExponentsFit f) :
    nameToName.ConversionFits names := by
  refine ⟨.mk ?_ fun _ n first x converted => ?_, fun x converted => ?_⟩
  · intro n member
    rcases List.mem_pair.1 member with rfl | rfl
    · exact leaf_fits names (.read "y") nofun
    · exact leaf_fits names (.read "x") nofun
  · cases first
    rw [ofNode_read, exponent] at converted
    cases converted
    exact simple
  · rw [made] at converted
    cases converted
    exact fits

theorem power_bound_and_free :
    (pow (var "x" 0) 2 : Expr (Exact Interpretation.rational.arithmetic)).simplify.evaluate
        (pointOf #[.of 3]) = .of 9 ∧
      (powExpr (var "x" 0) (var "y" 1) :
        Expr (Exact Interpretation.rational.arithmetic)).simplify.evaluate
        (pointOf #[.of 3, .of 2]) = .of 9 := by
  have partly : ofNode ⟨["x"], [("y", .of 2)]⟩ nameToName =
      .ok (pow (var "x" 0) 2 : Expr (Exact Interpretation.rational.arithmetic)) :=
    (ofNode_binary_eq_ok .exp).2 ⟨_, _, ofNode_read "x", ofNode_read "y", ofPower_two _⟩
  have freely : ofNode ⟨["x", "y"], []⟩ nameToName = .ok (powExpr (var "x" 0) (var "y" 1) :
      Expr (Exact Interpretation.rational.arithmetic)) := by
    refine (ofNode_binary_eq_ok .exp).2 ⟨_, _, ofNode_read "x", ofNode_read "y", ?_⟩
    change ofPower (var "x" 0) (var "y" 1) = _
    rw [ofPower, simplify_var]
    rfl
  refine bound_value_eq_free_value nameToName ["x"] ["x", "y"] [("y", .of 2)]
    (fun s => .of (if s = "x" then 3 else 2)) ?_ partly freely ?_ ?_ ?_
  · intro s c found
    rw [Assoc.get?_cons] at found
    split at found
    next same =>
      cases found
      cases same
      rfl
    next => cases found
  · refine nameToName_fits (e := const (.of 2)) rfl (.const _) partly
      (exponentsFit_power_var (by decide) (by decide))
  · refine nameToName_fits (e := var "y" 1) rfl (.var _ _) freely (.powExpr (.var _ _) (.var _ _) ?_)
    intro f rule
    rw [simplify_var, simplify_var] at rule
    cases rule
  · decide +kernel

def raisedTree (base : Node) : Node := powerTree base (.leaf (.constant (.number (.ofNat 65536))))

/-- The tree of `(((x^65536)^65536)^65536)^65536`. -/
def wrappingTree : Node := raisedTree (raisedTree (raisedTree (raisedTree (.leaf (.read "x")))))

def wrappingPower {α : Type} (x : Expr α) : Expr α :=
  pow (pow (pow (pow x 65536) 65536) 65536) 65536

theorem ofNode_raisedTree {names : Names (Exact F.arithmetic)} {base : Node}
    {b : Expr (Exact F.arithmetic)} (made : ofNode names base = .ok b) :
    ofNode names (raisedTree base) = .ok (pow b 65536) :=
  (ofNode_binary_eq_ok .exp).2
    ⟨_, _, made, ofNode_numeral 65536, ofPower_natural b (by decide)⟩

theorem ofNode_wrappingTree {names : Names (Exact F.arithmetic)} {x : Expr (Exact F.arithmetic)}
    (named : ofName names "x" = .ok x) : ofNode names wrappingTree = .ok (wrappingPower x) :=
  ofNode_raisedTree (ofNode_raisedTree (ofNode_raisedTree (ofNode_raisedTree
    ((ofNode_read "x").trans named))))

/-- Without a condition on exponents the statement is wrong. The exponent of a power of powers of a
variable becomes zero on the way, and the power one; with the variable bound to zero each power is
zero, as it is written. -/
theorem bound_value_may_differ :
    ¬∀ (tree : Node) (unknowns free : List String)
        (bindings : Assoc (Exact Interpretation.rational.arithmetic))
        (value : String → Exact Interpretation.rational.arithmetic)
        (e f : Expr (Exact Interpretation.rational.arithmetic)) (v : ℚ),
      (∀ s c, bindings.get? s = some c → c = value s) →
      ofNode ⟨unknowns, bindings⟩ tree = .ok e → ofNode ⟨free, []⟩ tree = .ok f →
      tree.value (writtenValue value) = .of v →
      e.simplify.evaluate (pointOf (unknowns.map value).toArray) =
        f.simplify.evaluate (pointOf (free.map value).toArray) := by
  intro agree
  have bound (s : String) (c : Exact Interpretation.rational.arithmetic)
      (found : Assoc.get? [("x", .of 0)] s = some c) : c = .of 0 := by
    rw [Assoc.get?_cons] at found
    split at found
    next =>
      cases found
      rfl
    next => cases found
  have same := agree wrappingTree [] ["x"] [("x", .of 0)] (fun _ => .of 0) _ _ 0 bound
    (ofNode_wrappingTree rfl) (ofNode_wrappingTree rfl) (by decide +kernel)
  have bound_zero : (wrappingPower (const (.of 0)) :
      Expr (Exact Interpretation.rational.arithmetic)).simplify.evaluate
        (pointOf (([] : List String).map fun _ => .of 0).toArray) = .of 0 := by
    decide +kernel
  have free_one : (wrappingPower (var "x" 0) :
      Expr (Exact Interpretation.rational.arithmetic)).simplify.evaluate
        (pointOf (["x"].map fun _ => .of 0).toArray) = .of 1 := by
    decide +kernel
  rw [bound_zero, free_one, Exact.of_inj] at same
  exact absurd same (by norm_num)

end Example

end Expr

end Simultaneous
