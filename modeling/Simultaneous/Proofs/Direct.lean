import Simultaneous.Proofs.Expr.Affine
import Simultaneous.Proofs.Expr.Bound
import Simultaneous.Proofs.Root

/-!
Residuals that are solved by their slope, without an iteration. A rational residual in one unknown
whose slope is found is a straight line wherever it has a value, so the root that is computed from a
start is the same from any other, and the slope of every linear residual that is not constant is
found. Powers of powers may wrap around in simplification, so no exponent may leave its range.
-/

namespace Simultaneous

open Scalar

variable {K : Type} [Field K] [LinearOrder K] {F : Interpretation K}
variable {text name : String} {e : Expr (Exact F.arithmetic)} {s : Exact F.arithmetic} {a : K}

/-- No exponent leaves its range while a residual and its slope are simplified. -/
structure Expr.SlopeFits (name : String) (e : Expr (Exact F.arithmetic)) : Prop where
  residual : ExponentsFit e
  predecessors : e.simplify.HasPredecessors
  derivative : ExponentsFit (e.simplify.derivative name)

namespace Equation

theorem affineSlope?_eq_some : (ofExpr text [name] e).affineSlope? name = some s ↔
    ∃ a, s = .of a ∧ a ≠ 0 ∧ e.slope name = .const (.of a) := by
  have nonzero (a : K) : (Exact.of a == (zero : Exact F.arithmetic)) = false ↔ a ≠ 0 := by
    rw [Exact.zero_eq]
    exact decide_eq_false_iff_not
  unfold affineSlope?
  simp only
  constructor
  · intro affine
    split at affine
    next first _ =>
      split at affine
      next found =>
        cases affine
        simp only [Bool.and_eq_true, Bool.not_eq_true'] at found
        obtain ⟨⟨other, finite⟩, -⟩ := found
        obtain ⟨a, rfl⟩ := Exact.isFinite_iff.1 finite
        exact ⟨a, rfl, (nonzero a).1 other, first⟩
      next => cases affine
    next => cases affine
  · rintro ⟨a, rfl, other, first⟩
    have second : (Expr.const (.of a) : Expr (Exact F.arithmetic)).slope name = .const zero :=
      Expr.simplify_const zero
    have vanishes : ((zero : Exact F.arithmetic) == zero) = true :=
      Exact.beq_eq_true.2 ⟨0, Exact.zero_eq, Exact.zero_eq⟩
    have finite : Scalar.isFinite (.of a : Exact F.arithmetic) = true := Exact.isFinite_iff.2 ⟨a, rfl⟩
    have own : (ofExpr text [name] e).expr.slope name = .const (.of a) := first
    rw [own, second]
    simp only [(nonzero a).2 other, finite, vanishes, Bool.not_false, Bool.and_self, if_true]

theorem value_of_takes {u v : K} (near : e.IsNear) (has : e.Takes u v) :
    (ofExpr text [name] e).value #[.of u] = .ok (.of v) := by
  have size : (#[.of u] : Array (Exact F.arithmetic)).size =
      (ofExpr text [name] e).unknowns.length := rfl
  have compiled := Compiled.value_ofExpr near (Nat.le_of_eq size.symm)
  rw [value, if_pos size]
  exact congrArg Except.ok (compiled.trans has)

theorem direct?_of_takes {u v : K} (nonzero : a ≠ 0) (slope : e.slope name = .const (.of a))
    (near : e.IsNear) (has : e.Takes u v) : BlockSolver.direct? (ofExpr text [name] e) name (.of u) =
      some ⟨[name], [.of (u - v / a)], .converged 0⟩ := by
  have affine : (ofExpr text [name] e).affineSlope? name = some (.of a) :=
    affineSlope?_eq_some.2 ⟨a, rfl, nonzero, slope⟩
  have root : (Exact.of u - Exact.of v / Exact.of a : Exact F.arithmetic) = .of (u - v / a) :=
    Exact.sub_eq_of.2 ⟨_, _, rfl,
      Exact.div_eq_of.2 ⟨v, a, rfl, rfl, F.div_eq_some.2 ⟨nonzero, rfl⟩⟩, rfl⟩
  have finite : Scalar.isFinite (.of (u - v / a) : Exact F.arithmetic) = true :=
    Exact.isFinite_iff.2 ⟨_, rfl⟩
  rw [BlockSolver.direct?, affine, value_of_takes near has]
  simp only [root, finite, if_true]

variable [IsStrictOrderedRing K]

theorem exists_line_of_slope (plain : e.Plain (Expr.IsOnly name) fun _ => True)
    (fits : e.SlopeFits name) (slope : e.simplify.slope name = .const (.of a)) :
    ∃ b, ∀ u v, e.Takes u v → e.simplify.Takes u v ∧ v = a * u + b := by
  have simple := Expr.plain_simplify e plain
  obtain ⟨b, line⟩ := Expr.exists_line simple fits.predecessors fun u d derived => by
    have simplified := Expr.hasValue_simplify fits.derivative d derived
    have constant : Expr.HasValue (pointOf #[.of u]) (e.simplify.slope name) d := simplified
    rw [slope] at constant
    exact (Exact.of_inj.1 constant).symm
  refine ⟨b, fun u v has => ?_⟩
  have kept : e.simplify.Takes u v := Expr.hasValue_simplify fits.residual v has
  exact ⟨kept, line u v kept⟩

/-- If a slope is found for a rational residual in one unknown, its values differ by the slope times
the difference of the places, and from each place where it has a value the same root is computed, at
which it is zero if it has a value there. A slope is found for each linear residual that is not
constant, and it is the slope of the residual. -/
theorem affine_residual_is_solved_directly (F : Interpretation K) (text name : String)
    (e : Expr (Exact F.arithmetic)) :
    (∀ s, e.Plain (Expr.IsOnly name) (fun _ => True) → e.SlopeFits name →
      (ofExpr text [name] e.simplify).affineSlope? name = some s →
      ∃ a, s = .of a ∧ a ≠ 0 ∧
        (∀ u v p q, e.Takes u p → e.Takes v q → p - q = a * (u - v)) ∧
        ∃ root, (∀ u p, e.Takes u p → root = u - p / a ∧
            BlockSolver.direct? (ofExpr text [name] e.simplify) name (.of u) =
              some ⟨[name], [.of root], .converged 0⟩) ∧
          ∀ p, e.Takes root p → p = 0) ∧
      ∀ a, Expr.IsLinear Expr.AmountsTo name e a → a ≠ 0 →
        (ofExpr text [name] e.simplify).affineSlope? name = some (.of a) := by
  constructor
  · intro s plain fits affine
    obtain ⟨a, rfl, nonzero, slope⟩ := affineSlope?_eq_some.1 affine
    obtain ⟨b, line⟩ := exists_line_of_slope plain fits slope
    have near : e.simplify.IsNear := (Expr.plain_simplify e plain).allVariables.imp
      (fun _ i only => only.2 ▸ Nat.le_of_ble_eq_true rfl) fun _ kept => kept
    refine ⟨a, rfl, nonzero, fun u v p q at_u at_v => ?_, -b / a, fun u p has => ?_, fun p has => ?_⟩
    · rw [(line u p at_u).2, (line v q at_v).2]
      ring
    · obtain ⟨kept, rfl⟩ := line u p has
      have root : -b / a = u - (a * u + b) / a := by
        field_simp
        ring
      rw [root]
      exact ⟨rfl, direct?_of_takes nonzero slope near kept⟩
    · rw [(line _ p has).2]
      field_simp
      ring
  · intro a linear nonzero
    exact affineSlope?_eq_some.2
      ⟨a, rfl, nonzero, Expr.slope_of_isFolded (Expr.isFolded_simplify linear)⟩

section Example

def doubled : Expr (Exact Interpretation.rational.arithmetic) :=
  .sub (.mul (.const (.of 2)) (.var "x" 0)) (.const (.of 6))

theorem mulRule_doubled : Expr.mulRule (.const (.of 2)) (.var "x" 0) =
    .done (.mul (.const (.of 2)) (.var "x" 0) : Expr (Exact Interpretation.rational.arithmetic)) :=
  rfl

theorem simplify_doubled : doubled.simplify = doubled := by
  rw [doubled, Expr.simplify_sub, Expr.simplify_mul, Expr.simplify_const, Expr.simplify_var,
    Expr.simplify_const, mulRule_doubled]
  rfl

theorem slopeFits_doubled : doubled.SlopeFits "x" where
  residual := by
    refine .sub (.mul (.const _) (.var _ _) ?_ fun e rule => ?_) (.const _)
      fun f rule => absurd rule (Expr.subRule_ne_again _ _ f)
    · rw [Expr.simplify_const]
      trivial
    · rw [Expr.simplify_const, Expr.simplify_var, mulRule_doubled] at rule
      cases rule
  predecessors := by
    rw [simplify_doubled]
    exact ⟨⟨trivial, trivial⟩, trivial⟩
  derivative := by
    have slope : doubled.derivative "x" = .sub (.add (.mul (.const (.of 2)) (.const one))
        (.mul (.var "x" 0) (.const zero))) (.const zero) := rfl
    rw [simplify_doubled, slope]
    refine .sub (.add (Expr.exponentsFit_mul_const _ _)
      (.mul (.var _ _) (.const _) ?_ fun e rule => ?_) fun e rule => ?_) (.const _)
      fun f rule => absurd rule (Expr.subRule_ne_again _ _ f)
    · rw [Expr.simplify_var]
      trivial
    · rw [Expr.simplify_const, Expr.simplify_var] at rule
      cases rule
    · rw [Expr.simplify_mul, Expr.simplify_mul, Expr.simplify_const, Expr.simplify_const,
        Expr.simplify_const, Expr.simplify_var] at rule
      cases rule

theorem isLinear_doubled : Expr.IsLinear Expr.AmountsTo "x" doubled 2 := by
  have linear : Expr.IsLinear Expr.AmountsTo "x" doubled (2 * 1 - 0) :=
    .sub (.multiple (Expr.amountsTo_const 2) .unknown) (.constant (Expr.amountsTo_const 6))
  rwa [mul_one, sub_zero] at linear

theorem takes_doubled (u : ℚ) : doubled.Takes u (2 * u - 6) :=
  Expr.hasValue_sub.2 ⟨_, _, Expr.hasValue_mul.2 ⟨_, _, rfl, rfl, rfl⟩, rfl, rfl⟩

theorem doubled_is_solved_directly :
    (ofExpr "2*x-6" ["x"] doubled.simplify).affineSlope? "x" = some (.of 2) ∧
      ∀ u, BlockSolver.direct? (ofExpr "2*x-6" ["x"] doubled.simplify) "x" (.of u) =
        some ⟨["x"], [.of 3], .converged 0⟩ := by
  obtain ⟨sound, complete⟩ :=
    affine_residual_is_solved_directly Interpretation.rational "2*x-6" "x" doubled
  have affine := complete 2 isLinear_doubled two_ne_zero
  obtain ⟨a, same, -, -, root, solved, -⟩ :=
    sound _ ⟨⟨trivial, rfl, rfl⟩, trivial⟩ slopeFits_doubled affine
  obtain rfl := Exact.of_inj.1 same
  refine ⟨affine, fun u => ?_⟩
  obtain ⟨rfl, direct⟩ := solved u _ (takes_doubled u)
  rw [direct]
  have three : u - (2 * u - 6) / 2 = 3 := by ring
  rw [three]

/-- `x ^ (2 ^ 64) + x - 1`, the first power in four steps. -/
def wrapping : Expr (Exact Interpretation.rational.arithmetic) :=
  .sub (.add (Expr.wrappingPower (.var "x" 0)) (.var "x" 0))
    (.mul (.const (.of 1)) (.const (.of 1)))

/-- Without a condition on exponents a slope may be found that is not that of the residual: the power
becomes one on the way, and a slope of one is found where the values at zero and one differ by
two. -/
theorem slope_may_be_wrong :
    ¬∀ (text name : String) (e : Expr (Exact Interpretation.rational.arithmetic)) (a u v p q : ℚ),
      e.Plain (Expr.IsOnly name) (fun _ => True) →
      (ofExpr text [name] e.simplify).affineSlope? name = some (.of a) →
      e.Takes u p → e.Takes v q → p - q = a * (u - v) := by
  intro straight
  have plain : wrapping.Plain (Expr.IsOnly "x") fun _ => True := by
    have unknown : Expr.IsOnly "x" "x" 0 := ⟨rfl, rfl⟩
    exact ⟨⟨⟨⟨⟨⟨unknown, trivial⟩, trivial⟩, trivial⟩, trivial⟩, unknown⟩, trivial, trivial⟩
  have affine : (ofExpr "" ["x"] wrapping.simplify).affineSlope? "x" = some (.of 1) := by
    decide +kernel
  have at_one : wrapping.Takes 1 1 := by
    unfold Expr.Takes Expr.HasValue
    decide +kernel
  have at_zero : wrapping.Takes 0 (-1) := by
    unfold Expr.Takes Expr.HasValue
    decide +kernel
  have wrong := straight "" "x" wrapping 1 1 0 1 (-1) plain affine at_one at_zero
  norm_num at wrong

end Example

end Equation

end Simultaneous
