import Mathlib.Data.List.Forall2
import Simultaneous.Block
import Simultaneous.Proofs.Expr.Code

/-!
What is built of the texts of a block. Coupled residuals are made of the simplified expressions of
their texts; if they cannot be built, a text is no expression, or there are too many outputs.
-/

namespace Simultaneous

/-! ### Steps that may fail -/

section Steps

variable {β γ ε δ : Type}

theorem bind_eq_ok {x : Except ε β} {f : β → Except ε γ} {z : γ} :
    (x >>= f) = .ok z ↔ ∃ y, x = .ok y ∧ f y = .ok z := by
  cases x <;> simp [bind, Except.bind]

theorem bind_eq_error {x : Except ε β} {f : β → Except ε γ} {e : ε} :
    (x >>= f) = .error e ↔ x = .error e ∨ ∃ y, x = .ok y ∧ f y = .error e := by
  cases x <;> simp [bind, Except.bind]

theorem mapError_eq_ok {x : Except ε β} {f : ε → δ} {y : β} :
    x.mapError f = .ok y ↔ x = .ok y := by
  cases x <;> simp [Except.mapError]

theorem mapError_eq_error {x : Except ε β} {f : ε → δ} {d : δ} :
    x.mapError f = .error d ↔ ∃ e, x = .error e ∧ f e = d := by
  cases x <;> simp [Except.mapError]

theorem forall₂_of_mapM {f : β → Except ε γ} {xs : List β} {ys : List γ}
    (converted : xs.mapM f = .ok ys) : List.Forall₂ (fun x y => f x = .ok y) xs ys := by
  induction xs generalizing ys with
  | nil =>
    cases converted
    exact .nil
  | cons x rest ih =>
    rw [List.mapM_cons] at converted
    obtain ⟨y, own, later⟩ := bind_eq_ok.1 converted
    obtain ⟨zs, others, same⟩ := bind_eq_ok.1 later
    cases same
    exact .cons own (ih others)

theorem exists_of_forall₂ {R : β → γ → Prop} {xs : List β} {ys : List γ}
    (pairs : List.Forall₂ R xs ys) {x : β} (member : x ∈ xs) : ∃ y ∈ ys, R x y := by
  induction pairs with
  | nil => cases member
  | @cons first y rest zs own _ ih =>
    rcases List.mem_cons.1 member with rfl | later
    · exact ⟨y, List.mem_cons_self, own⟩
    · obtain ⟨z, listed, related⟩ := ih later
      exact ⟨z, List.mem_cons_of_mem _ listed, related⟩

theorem exists_of_mapM {f : β → Except ε γ} {xs : List β} {ys : List γ}
    (converted : xs.mapM f = .ok ys) :
    ys.length = xs.length ∧ ∀ x ∈ xs, ∃ y ∈ ys, f x = .ok y :=
  have pairs := forall₂_of_mapM converted
  ⟨pairs.length_eq.symm, fun _ => exists_of_forall₂ pairs⟩

theorem exists_text_of_mapM {f : β → Except ε γ} {xs : List β} {ys : List γ}
    (converted : xs.mapM f = .ok ys) {y : γ} (member : y ∈ ys) : ∃ x ∈ xs, f x = .ok y :=
  exists_of_forall₂ (forall₂_of_mapM converted).flip member

theorem exists_error_of_mapM {f : β → Except ε γ} {xs : List β} {e : ε}
    (failed : xs.mapM f = .error e) : ∃ x ∈ xs, f x = .error e := by
  induction xs with
  | nil => cases failed
  | cons x rest ih =>
    rw [List.mapM_cons] at failed
    rcases bind_eq_error.1 failed with own | ⟨y, _, later⟩
    · exact ⟨x, List.mem_cons_self, own⟩
    · rcases bind_eq_error.1 later with others | ⟨_, _, none⟩
      · obtain ⟨z, member, fails⟩ := ih others
        exact ⟨z, List.mem_cons_of_mem x member, fails⟩
      · cases none

theorem mapM_eq_ok_of_forall {f : β → Except ε γ} {g : β → γ} {xs : List β}
    (each : ∀ x ∈ xs, f x = .ok (g x)) : xs.mapM f = .ok (xs.map g) := by
  induction xs with
  | nil => rfl
  | cons x rest ih =>
    rw [List.mapM_cons, each x List.mem_cons_self,
      ih fun y member => each y (List.mem_cons_of_mem x member)]
    rfl

end Steps

namespace Coupled

variable {α : Type} [Scalar α] {residuals unknowns : List String} {es : List (Expr α)}
variable {names : Names α} {s t : Coupled α} {e : EquationError}

structure IsMadeOf (s : Coupled α) (residuals unknowns : List String) (es : List (Expr α)) :
    Prop where
  residuals_eq : s.residuals = residuals
  unknowns_eq : s.unknowns = unknowns
  exprs_eq : s.exprs = es
  function_eq : CompiledList.ofExprs unknowns.length es = .ok s.function
  jacobian_eq : CompiledList.ofRows unknowns.length (es.map fun e => unknowns.map e.slope) =
    .ok s.jacobian

theorem isMadeOf_of_ofExprs (built : ofExprs residuals unknowns es = .ok s) :
    s.IsMadeOf residuals unknowns es := by
  obtain ⟨function, values, later⟩ := bind_eq_ok.1 built
  obtain ⟨jacobian, slopes, same⟩ := bind_eq_ok.1 later
  cases same
  exact ⟨rfl, rfl, rfl, values, slopes⟩

theorem withHessians_eq_ok : s.withHessians = .ok t ↔
    ∃ hessians, s.exprs.mapM (hessianOf s.unknowns) = .ok hessians ∧
      t = { s with hessians? := some hessians } := by
  unfold withHessians
  simp only [bind_eq_ok, mapError_eq_ok]
  exact exists_congr fun _ => and_congr_right fun _ =>
    ⟨fun same => (Except.ok.inj same).symm, fun same => congrArg _ same.symm⟩

theorem IsMadeOf.withHessians (made : s.IsMadeOf residuals unknowns es)
    (built : s.withHessians = .ok t) : t.IsMadeOf residuals unknowns es := by
  obtain ⟨hessians, -, rfl⟩ := withHessians_eq_ok.1 built
  exact ⟨made.residuals_eq, made.unknowns_eq, made.exprs_eq, made.function_eq, made.jacobian_eq⟩

theorem isMadeOf_of_ofTexts (read : ofTexts names residuals = .ok s) :
    ∃ es, residuals.mapM (Expr.ofResidual names) = .ok es ∧
      s.IsMadeOf residuals (lastOccurrences names.unknowns) es := by
  obtain ⟨es, texts, built⟩ := bind_eq_ok.1 read
  exact ⟨es, texts, isMadeOf_of_ofExprs (mapError_eq_ok.1 built)⟩

theorem ofTexts_eq_error (failed : ofTexts names residuals = .error e) :
    (∃ text ∈ residuals, Expr.ofResidual names text = .error e) ∨ ∃ cause, e = .build cause := by
  rcases bind_eq_error.1 failed with unread | ⟨es, _, unbuilt⟩
  · exact .inl (exists_error_of_mapM unread)
  · obtain ⟨cause, -, rfl⟩ := mapError_eq_error.1 unbuilt
    exact .inr ⟨cause, rfl⟩

theorem withHessians_eq_error (failed : s.withHessians = .error e) : ∃ cause, e = .build cause := by
  rcases bind_eq_error.1 failed with unbuilt | ⟨_, _, none⟩
  · obtain ⟨cause, -, rfl⟩ := mapError_eq_error.1 unbuilt
    exact ⟨cause, rfl⟩
  · cases none

/-- Where there are residuals, the unknowns are at distances of 32 bits, for their derivatives are
stored at such distances. -/
theorem IsMadeOf.length_unknowns_le (made : s.IsMadeOf residuals unknowns es) (some : es ≠ []) :
    unknowns.length ≤ slotLimit := by
  have fits := (CompiledList.ofExprs_eq_ok.1 made.jacobian_eq).1
  obtain ⟨e, rest, rfl⟩ := List.exists_cons_of_ne_nil some
  rw [List.map_cons, List.flatten_cons, List.length_append, List.length_map] at fits
  exact Nat.le_trans (Nat.le_add_right _ _) fits

end Coupled

namespace BlockSolver

variable {α : Type} [Scalar α] {method : Method} {names : Names α} {residuals : List String}

theorem isMadeOf_of_compile {c : Coupled α} (built : compile method names residuals = .ok c) :
    ∃ es, residuals.mapM (Expr.ofResidual names) = .ok es ∧
      c.IsMadeOf residuals (lastOccurrences names.unknowns) es := by
  obtain ⟨s, read, later⟩ := bind_eq_ok.1 built
  obtain ⟨es, texts, made⟩ := Coupled.isMadeOf_of_ofTexts read
  refine ⟨es, texts, ?_⟩
  split at later
  next =>
    cases later
    exact made
  next => exact made.withHessians later

theorem compile_eq_error {e : EquationError} (failed : compile method names residuals = .error e) :
    (∃ text ∈ residuals, Expr.ofResidual names text = .error e) ∨ ∃ cause, e = .build cause := by
  rcases bind_eq_error.1 failed with unread | ⟨s, _, later⟩
  · exact Coupled.ofTexts_eq_error unread
  · split at later
    next => cases later
    next => exact .inr (Coupled.withHessians_eq_error later)

end BlockSolver

end Simultaneous
