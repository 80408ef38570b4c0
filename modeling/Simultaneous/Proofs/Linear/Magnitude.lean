import Simultaneous.Linear.Grid
import Simultaneous.Proofs.Scalar.Order

/-!
The largest magnitude of an entry. In exact arithmetic, where all entries of a vector have values,
the largest magnitude is within a tolerance only if every entry is.
-/

namespace Simultaneous

open Scalar

def IsLargestMagnitude {α : Type} [Scalar α] (m : α) (xs : List α) : Prop :=
  (m = zero ∨ ∃ x ∈ xs, m = Scalar.abs x) ∧ le zero m = true ∧
    ∀ x ∈ xs, le (Scalar.abs x) m = true

namespace Linear

theorem isLargestMagnitude_maxAbs {α : Type} [Scalar α] [LawfulOrder α] {n : Nat} {x : Vector α n}
    (finite : isFinite x = true) : IsLargestMagnitude (maxAbs x) x.toList := by
  rw [maxAbs, ← Vector.foldl_toList]
  refine LawfulOrder.foldl_max_abs (fun c member => ?_) LawfulOrder.isFinite_zero
  exact Vector.all_eq_true_iff_forall_mem.1 finite c (Vector.mem_toList_iff.1 member)

open Exact

variable {K : Type} [Field K] [LinearOrder K] {F : Interpretation K}

theorem exists_bound_of_le_maxAbs {n : Nat} {x : Vector (Exact F.arithmetic) n}
    (finite : isFinite x = true) {tolerance : Exact F.arithmetic}
    (within : Scalar.le (maxAbs x) tolerance = true) :
    ∃ p, tolerance = of p ∧ 0 ≤ p ∧ ∀ c ∈ x, ∃ a, c = of a ∧ |a| ≤ p := by
  obtain ⟨-, from_zero, from_entries⟩ := isLargestMagnitude_maxAbs finite
  obtain ⟨a, p, none, rfl, nonneg⟩ := le_eq_true.1 (LawfulOrder.le_trans from_zero within)
  rw [zero_eq] at none
  obtain rfl := of_inj.1 none
  refine ⟨p, rfl, nonneg, fun c member => ?_⟩
  have small := LawfulOrder.le_trans (from_entries c (Vector.mem_toList_iff.2 member)) within
  obtain ⟨m, q, magnitude, same, le⟩ := le_eq_true.1 small
  obtain rfl := of_inj.1 same
  obtain ⟨b, rfl, value⟩ := abs_eq_of.1 magnitude
  obtain rfl : |b| = m := Option.some.inj value
  exact ⟨b, rfl, le⟩

end Linear

end Simultaneous
