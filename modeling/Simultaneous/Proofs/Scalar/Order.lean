import Simultaneous.Proofs.Scalar.Interpretation

/-!
Comparing finite numbers. Of an arithmetic only this is asked for: its finite numbers are in a linear
order, and zero and the magnitudes of finite numbers are among them. So it is with floating-point
numbers, and with exact ones.
-/

namespace Simultaneous

open Scalar

/-- Finite numbers are compared as the elements of a linear order. -/
class LawfulOrder (α : Type) [Scalar α] : Prop where
  isFinite_zero : isFinite (zero : α) = true
  isFinite_abs {x : α} : isFinite x = true → isFinite (Scalar.abs x) = true
  beq_self {x : α} : isFinite x = true → (x == x) = true
  lt_eq {x y : α} : isFinite x = true → isFinite y = true → lt x y = !le y x
  le_total {x y : α} : isFinite x = true → isFinite y = true → le x y = true ∨ le y x = true
  le_trans {x y z : α} : le x y = true → le y z = true → le x z = true

namespace LawfulOrder

variable {α : Type} [Scalar α] [LawfulOrder α] {x y : α}

theorem le_refl (finite : isFinite x = true) : le x x = true :=
  (le_total finite finite).elim id id

theorem max_spec (left : isFinite x = true) (right : isFinite y = true) :
    (Scalar.max x y = x ∨ Scalar.max x y = y) ∧
      le x (Scalar.max x y) = true ∧ le y (Scalar.max x y) = true := by
  have chosen : Scalar.max x y = if lt x y then y else x := by
    rw [Scalar.max, beq_self left, beq_self right]
    rfl
  rw [chosen, lt_eq left right]
  cases below : le y x with
  | true => exact ⟨.inl rfl, le_refl left, below⟩
  | false =>
    have above := (le_total left right).resolve_right (by rw [below]; exact Bool.false_ne_true)
    exact ⟨.inr rfl, above, le_refl right⟩

/-- Looking for the largest magnitude ends with the first number or with a magnitude, and with
nothing below the others. -/
theorem foldl_max_abs {xs : List α} (finite : ∀ x ∈ xs, isFinite x = true) {first : α}
    (start : isFinite first = true) :
    let m := xs.foldl (fun largest c => Scalar.max largest (Scalar.abs c)) first
    (m = first ∨ ∃ x ∈ xs, m = Scalar.abs x) ∧ le first m = true ∧
      ∀ x ∈ xs, le (Scalar.abs x) m = true := by
  induction xs generalizing first with
  | nil => exact ⟨.inl rfl, le_refl start, fun _ member => (List.not_mem_nil member).elim⟩
  | cons x rest ih =>
    have magnitude := isFinite_abs (finite x List.mem_cons_self)
    obtain ⟨either, from_first, from_own⟩ := max_spec start magnitude
    have larger : isFinite (Scalar.max first (Scalar.abs x)) = true := by
      rcases either with same | same <;> rwa [same]
    obtain ⟨reached, above, others⟩ :=
      ih (fun y member => finite y (List.mem_cons_of_mem _ member)) larger
    refine ⟨?_, le_trans from_first above, fun y member => ?_⟩
    · rcases reached with same | ⟨y, member, same⟩
      · rcases either with first_wins | own_wins
        · exact .inl (same.trans first_wins)
        · exact .inr ⟨x, List.mem_cons_self, same.trans own_wins⟩
      · exact .inr ⟨y, List.mem_cons_of_mem _ member, same⟩
    · rcases List.mem_cons.1 member with rfl | later
      · exact le_trans from_own above
      · exact others y later

end LawfulOrder

namespace Exact

variable {K : Type} [Field K] [LinearOrder K] {F : Interpretation K}

theorem isFinite_iff {x : Exact F.arithmetic} : Scalar.isFinite x ↔ ∃ a, x = of a := by
  obtain rfl | ⟨a, rfl⟩ := x.eq_undefined_or_of
  · simp [Scalar.isFinite, Scalar.special?, undefined, of]
  · simp [Scalar.isFinite, Scalar.special?, of]

theorem abs_of (a : K) : Scalar.abs (of a : Exact F.arithmetic) = of |a| := rfl

theorem lt_of (a b : K) : Scalar.lt (of a : Exact F.arithmetic) (of b) = decide (a < b) := rfl

theorem le_of (a b : K) : Scalar.le (of a : Exact F.arithmetic) (of b) = decide (a ≤ b) := rfl

theorem le_eq_true {x y : Exact F.arithmetic} :
    Scalar.le x y = true ↔ ∃ a b, x = of a ∧ y = of b ∧ a ≤ b := by
  refine compare_eq_true.trans ?_
  simp only [Interpretation.arithmetic, decide_eq_true_eq]

theorem lt_eq_true {x y : Exact F.arithmetic} :
    Scalar.lt x y = true ↔ ∃ a b, x = of a ∧ y = of b ∧ a < b := by
  refine compare_eq_true.trans ?_
  simp only [Interpretation.arithmetic, decide_eq_true_eq]

theorem max_of (a b : K) : Scalar.max (of a : Exact F.arithmetic) (of b) = of (Max.max a b) := by
  have first : ((of a : Exact F.arithmetic) == of a) = true := beq_eq_true.2 ⟨a, rfl, rfl⟩
  have second : ((of b : Exact F.arithmetic) == of b) = true := beq_eq_true.2 ⟨b, rfl, rfl⟩
  rw [Scalar.max, first, second, lt_of]
  by_cases below : a < b
  · simp [below, max_eq_right below.le]
  · simp [below, max_eq_left (not_lt.1 below)]

theorem min_of (a b : K) : Scalar.min (of a : Exact F.arithmetic) (of b) = of (Min.min a b) := by
  have first : ((of a : Exact F.arithmetic) == of a) = true := beq_eq_true.2 ⟨a, rfl, rfl⟩
  have second : ((of b : Exact F.arithmetic) == of b) = true := beq_eq_true.2 ⟨b, rfl, rfl⟩
  rw [Scalar.min, first, second, lt_of]
  by_cases below : b < a
  · simp [below, min_eq_right below.le]
  · simp [below, min_eq_left (not_lt.1 below)]

instance : LawfulOrder (Exact F.arithmetic) where
  isFinite_zero := rfl
  isFinite_abs finite := by
    obtain ⟨a, rfl⟩ := isFinite_iff.1 finite
    rfl
  beq_self finite := by
    obtain ⟨a, rfl⟩ := isFinite_iff.1 finite
    exact beq_eq_true.2 ⟨a, rfl, rfl⟩
  lt_eq left right := by
    obtain ⟨a, rfl⟩ := isFinite_iff.1 left
    obtain ⟨b, rfl⟩ := isFinite_iff.1 right
    rw [lt_of, le_of, ← decide_not, decide_eq_decide]
    exact not_le.symm
  le_total left right := by
    obtain ⟨a, rfl⟩ := isFinite_iff.1 left
    obtain ⟨b, rfl⟩ := isFinite_iff.1 right
    rw [le_of, le_of, decide_eq_true_eq, decide_eq_true_eq]
    exact LinearOrder.le_total a b
  le_trans first second := by
    obtain ⟨a, b, rfl, rfl, le⟩ := le_eq_true.1 first
    obtain ⟨c, d, same, rfl, le'⟩ := le_eq_true.1 second
    obtain rfl := of_inj.1 same
    exact le_eq_true.2 ⟨a, d, rfl, rfl, le.trans le'⟩

end Exact

end Simultaneous
