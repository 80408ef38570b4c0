import Simultaneous.Proofs.Expr.Code
import Simultaneous.Proofs.Scalar.Interpretation

/-!
In exact arithmetic the code of an expression computes its value however long the integer exponents
in it are, also where there is no value.
-/

namespace Simultaneous

section Expressions

variable {K : Type} [Field K] [LinearOrder K] {F : Interpretation K}

namespace Exact

theorem one_mul_self {V : Type} [CommRing V] [DecidableEq V] {A : Arithmetic V} (x : Exact A) :
    Scalar.one * x = x := by
  obtain rfl | ⟨a, rfl⟩ := x.eq_undefined_or_of
  · rfl
  · rw [one_eq]
    exact congrArg of (one_mul a)

/-- A power by any integer but zero is a product of equal factors, or one divided by it. -/
theorem intPower_eq_product (x : Exact F.arithmetic) {n : Int64} (nonzero : n ≠ 0) :
    Scalar.intPower x n =
      if n.toInt < 0 then Scalar.one / Scalar.multiplyPower Scalar.one x n.toInt.natAbs
      else Scalar.multiplyPower Scalar.one x n.toInt.natAbs := by
  have factors : 0 < n.toInt.natAbs := by
    rw [Int.natAbs_pos, ← Int64.toInt_zero]
    exact fun same => nonzero (Int64.toInt_inj.1 same)
  obtain rfl | ⟨a, rfl⟩ := x.eq_undefined_or_of
  · rw [intPower_undefined nonzero, multiplyPower_undefined _ factors]
    split <;> rfl
  · rw [intPower_of, F.intPower?_eq, F.integerPower?_eq_product, one_eq, multiplyPower_of, one_mul]
    split <;> rfl

end Exact

namespace Code

open Exact

theorem value_ofExpr (memory : Memory (Exact F.arithmetic)) (e : Expr (Exact F.arithmetic)) :
    (ofExpr e).value memory = e.evaluate fun i => memory.read (loadOffset i) := by
  have powers (n : Int64) (base : Code (Exact F.arithmetic)) (x : Exact F.arithmetic) (_ : True)
      (computes : ∀ stack, base.execute memory stack = x :: stack)
      (stack : List (Exact F.arithmetic)) :
      (intPower base n).execute memory stack = Scalar.intPower x n :: stack := by
    rw [execute_intPower one_mul_self computes]
    by_cases zero : n = 0
    · have one : Scalar.intPower x n = .of 1 := intPower_eq_of.2 (.inl ⟨zero, rfl⟩)
      have product : Scalar.multiplyPower Scalar.one x 0 = Scalar.one := by
        rw [Scalar.multiplyPower]
        rfl
      rw [one, zero, Int64.toInt_zero, if_neg (Int.lt_irrefl 0), Int.natAbs_zero, product, one_eq]
    · rw [intPower_eq_product x zero]
  have runs := execute_ofExpr_of_powers powers
    (e.all_of_forall (fun _ _ => trivial) fun _ => trivial) []
  rw [value, runs]
  rfl

end Code

end Expressions

/-! ### Positions at distances of 32 bits -/

def Expr.IsNear {α : Type} (e : Expr α) : Prop := e.All (fun _ i => i < slotLimit) fun _ => True

section Compiled

variable {K : Type} [Field K] [LinearOrder K] {F : Interpretation K}
variable {point : Array (Exact F.arithmetic)} {inputs : Nat}

theorem Expr.IsNear.value_eq {e : Expr (Exact F.arithmetic)} (near : e.IsNear) :
    (Code.ofExpr e).value (memoryOf point) = e.evaluate (pointOf point) := by
  rw [Code.value_ofExpr]
  exact near.evaluate_loaded fun _ i below => ⟨below, rfl⟩

theorem Compiled.value_ofExpr {e : Expr (Exact F.arithmetic)} (near : e.IsNear)
    (enough : inputs ≤ point.size) :
    (Compiled.ofExpr inputs e).value point = e.evaluate (pointOf point) := by
  have room : ¬point.size < (Compiled.ofExpr inputs e).inputs := Nat.not_lt.2 enough
  rw [Compiled.value, if_neg room]
  exact near.value_eq

theorem CompiledList.values_ofExprs {es : List (Expr (Exact F.arithmetic))}
    {f : CompiledList (Exact F.arithmetic)} (built : ofExprs inputs es = .ok f)
    (near : ∀ e ∈ es, e.IsNear) (enough : inputs ≤ point.size) :
    f.values point = (es.map fun e => e.evaluate (pointOf point)).toArray := by
  obtain ⟨-, rfl⟩ := ofExprs_eq_ok.1 built
  have values : (es.map Code.ofExpr).map (Code.value · (memoryOf point)) =
      es.map fun e => e.evaluate (pointOf point) := by
    rw [List.map_map]
    exact List.map_congr_left fun e member => (near e member).value_eq
  rw [CompiledList.values, CompiledList.fill, if_neg, values]
  · simp [outputs]
  · rw [Bool.or_eq_true, decide_eq_true_eq, decide_eq_true_eq, Array.size_replicate]
    exact fun short => short.elim (Nat.not_lt.2 enough) (Nat.lt_irrefl _)

end Compiled

end Simultaneous
