import Simultaneous.Expr.Simplify

/-!
Simplification as a recursion. Simplifying an expression means to simplify its operands, and then
perhaps the expression that a rule makes of them, which need not be smaller: the negation of a
product with a constant becomes such a product, and a power by a constant one by an integer. Main
statement: the recursion ends for every expression, at a depth of at most twice its nodes, and its
result has no more nodes than the expression.
-/

namespace Simultaneous

open Scalar

variable {α : Type}

def Reduct.proceed (next : Expr α → Option (Expr α)) : Reduct α → Option (Expr α)
  | .done e => some e
  | .again e => next e

namespace Expr

def simplifyUnary (next : Expr α → Option (Expr α)) (rule : Expr α → Reduct α) (e : Expr α) :
    Option (Expr α) :=
  (next e).bind fun e' => (rule e').proceed next

def simplifyBinary (next : Expr α → Option (Expr α)) (rule : Expr α → Expr α → Reduct α)
    (l r : Expr α) : Option (Expr α) :=
  (next l).bind fun l' => (next r).bind fun r' => (rule l' r').proceed next

variable [Scalar α]

def negStep (e : Expr α) : Reduct α :=
  match e with
  | const a => .done (const (-a))
  | neg inner => .done inner
  | mul (const c) x => .again (mul (neg (const c)) x)
  | e => .done (neg e)

def powConstStep (p : α) (b : Expr α) : Reduct α :=
  match shortInteger? p with
  | some n => .again (pow b n)
  | none => powConstRule b p

def simplifyUsing (next : Expr α → Option (Expr α)) : Expr α → Option (Expr α)
  | const c => some (const c)
  | var name i => some (var name i)
  | add l r => simplifyBinary next addRule l r
  | sub l r => simplifyBinary next subRule l r
  | mul l r => simplifyBinary next mulRule l r
  | div l r => simplifyBinary next divRule l r
  | powExpr b e => simplifyBinary next powExprRule b e
  | abs e => simplifyUnary next absRule e
  | pow b n => simplifyUnary next (powRule · n) b
  | powConst b p => simplifyUnary next (powConstStep p) b
  | call f a => simplifyUnary next (callRule f) a
  | neg e => simplifyUnary next negStep e

/-- The recursion, as far as it goes down to a depth; nothing where it goes further. -/
def simplifyWithin : Nat → Expr α → Option (Expr α)
  | 0 => fun _ => none
  | depth + 1 => simplifyUsing (simplifyWithin depth)

/-! ### The two steps that keep the number of nodes -/

theorem simplify_neg_step (e : Expr α) : (neg e).simplify = Reduct.result (negStep e.simplify) := by
  rw [simplify_neg]
  cases e.simplify with
  | mul l x =>
    cases l with
    | const c =>
      -- the negated constant is folded before the product is looked at
      change (mul (const (-c)) x).simplify = (mul (neg (const c)) x).simplify
      rw [simplify_mul, simplify_mul, simplify_neg, simplify_const, simplify_const]
      rfl
    | _ => rfl
  | _ => rfl

theorem simplify_powConst_step (b : Expr α) (p : α) :
    (powConst b p).simplify = Reduct.result (powConstStep p b.simplify) := by
  rw [simplify_powConst, powConstStep]
  cases shortInteger? p with
  | none => rfl
  | some n => exact (simplify_pow b.simplify n).symm

/-! ### What the depth depends on -/

omit [Scalar α] in
/-- Twice the nodes, less one for a node whose rules leave only smaller expressions. -/
def rank : Expr α → Nat
  | neg e => 2 * (neg e).size
  | powConst b p => 2 * (powConst b p).size
  | e => 2 * e.size - 1

omit [Scalar α] in
theorem rank_bounds (e : Expr α) : 2 * e.size - 1 ≤ e.rank ∧ e.rank ≤ 2 * e.size := by
  unfold rank
  split <;> omega

omit [Scalar α] in
theorem rank_lt_of_size_lt {e f : Expr α} (less : f.size < e.size) : f.rank < e.rank := by
  have upper := f.rank_bounds
  have lower := e.rank_bounds
  omega

structure IsUnary (e : Expr α) (rule : Expr α → Reduct α) (b : Expr α) : Prop where
  using_eq : ∀ next, simplifyUsing next e = simplifyUnary next rule b
  simplify_eq : e.simplify = Reduct.result (rule b.simplify)
  operand : b.rank < e.rank
  again : ∀ f, rule b.simplify = .again f → f.rank < e.rank

structure IsBinary (e : Expr α) (rule : Expr α → Expr α → Reduct α) (l r : Expr α) : Prop where
  using_eq : ∀ next, simplifyUsing next e = simplifyBinary next rule l r
  simplify_eq : e.simplify = Reduct.result (rule l.simplify r.simplify)
  left : l.rank < e.rank
  right : r.rank < e.rank
  again : ∀ f, rule l.simplify r.simplify = .again f → f.rank < e.rank

omit [Scalar α] in
theorem rank_lt_of_within {w : Reduct α} {n : Nat} {e f : Expr α} (within : w.Within n)
    (le : n ≤ e.size) (again : w = .again f) : f.rank < e.rank := by
  rw [again] at within
  exact rank_lt_of_size_lt (Nat.lt_of_lt_of_le within le)

theorem isUnary_of_within {e b : Expr α} {rule : Expr α → Reduct α}
    (using_eq : ∀ next, simplifyUsing next e = simplifyUnary next rule b)
    (simplify_eq : e.simplify = Reduct.result (rule b.simplify)) (nodes : e.size = b.size + 1)
    (within : (rule b.simplify).Within (b.simplify.size + 1)) : IsUnary e rule b := by
  have shrinks := b.size_simplify_le
  refine ⟨using_eq, simplify_eq, rank_lt_of_size_lt (by omega), fun f => ?_⟩
  exact rank_lt_of_within within (by omega)

theorem isBinary_of_within {e l r : Expr α} {rule : Expr α → Expr α → Reduct α}
    (using_eq : ∀ next, simplifyUsing next e = simplifyBinary next rule l r)
    (simplify_eq : e.simplify = Reduct.result (rule l.simplify r.simplify))
    (nodes : e.size = l.size + r.size + 1)
    (within : (rule l.simplify r.simplify).Within (l.simplify.size + r.simplify.size + 1)) :
    IsBinary e rule l r := by
  have left_shrinks := l.size_simplify_le
  have right_shrinks := r.size_simplify_le
  refine ⟨using_eq, simplify_eq, rank_lt_of_size_lt (by omega), rank_lt_of_size_lt (by omega),
    fun f => ?_⟩
  exact rank_lt_of_within within (by omega)

theorem isUnary_neg (e : Expr α) : IsUnary (neg e) negStep e := by
  have shrinks := e.size_simplify_le
  refine ⟨fun _ => rfl, simplify_neg_step e, rank_lt_of_size_lt (Nat.lt_succ_self _), ?_⟩
  intro f again
  unfold negStep at again
  split at again
  next => cases again
  next => cases again
  next c x product =>
    cases again
    rw [product] at shrinks
    simp only [rank, size] at shrinks ⊢
    omega
  next => cases again

theorem isUnary_powConst (b : Expr α) (p : α) : IsUnary (powConst b p) (powConstStep p) b := by
  have shrinks := b.size_simplify_le
  refine ⟨fun _ => rfl, simplify_powConst_step b p, rank_lt_of_size_lt (Nat.lt_succ_self _), ?_⟩
  intro f again
  unfold powConstStep at again
  split at again
  next n integer =>
    cases again
    simp only [rank, size]
    omega
  next no_integer =>
    exact rank_lt_of_within (powConstRule_within _ _) (Nat.succ_le_succ shrinks) again

theorem simplify_cases (e : Expr α) :
    (e.simplify = e ∧ ∀ next, simplifyUsing next e = some e) ∨
    (∃ rule b, IsUnary e rule b) ∨ ∃ rule l r, IsBinary e rule l r := by
  cases e with
  | const c => exact .inl ⟨simplify_const c, fun _ => rfl⟩
  | var name i => exact .inl ⟨simplify_var name i, fun _ => rfl⟩
  | add l r =>
    exact .inr (.inr ⟨_, l, r, isBinary_of_within (fun _ => rfl) (simplify_add l r) rfl
      (addRule_within _ _)⟩)
  | sub l r =>
    exact .inr (.inr ⟨_, l, r, isBinary_of_within (fun _ => rfl) (simplify_sub l r) rfl
      (subRule_within _ _)⟩)
  | mul l r =>
    exact .inr (.inr ⟨_, l, r, isBinary_of_within (fun _ => rfl) (simplify_mul l r) rfl
      (mulRule_within _ _)⟩)
  | div l r =>
    exact .inr (.inr ⟨_, l, r, isBinary_of_within (fun _ => rfl) (simplify_div l r) rfl
      (divRule_within _ _)⟩)
  | powExpr b e =>
    exact .inr (.inr ⟨_, b, e, isBinary_of_within (fun _ => rfl) (simplify_powExpr b e) rfl
      (powExprRule_within _ _)⟩)
  | abs e =>
    exact .inr (.inl ⟨_, e, isUnary_of_within (fun _ => rfl) (simplify_abs e) rfl
      (absRule_within _)⟩)
  | pow b n =>
    exact .inr (.inl ⟨(powRule · n), b, isUnary_of_within (fun _ => rfl) (simplify_pow b n) rfl
      (powRule_within _ _)⟩)
  | powConst b p => exact .inr (.inl ⟨_, b, isUnary_powConst b p⟩)
  | call f a =>
    exact .inr (.inl ⟨_, a, isUnary_of_within (fun _ => rfl) (simplify_call f a) rfl
      (callRule_within f _)⟩)
  | neg e => exact .inr (.inl ⟨_, e, isUnary_neg e⟩)

/-! ### The recursion -/

section Recursion

variable {next : Expr α → Option (Expr α)} {e f : Expr α}

theorem proceed_eq_some {w : Reduct α} (answers : ∀ g, w = .again g → next g = some g.simplify) :
    w.proceed next = some (Reduct.result w) := by
  cases w with
  | done g => rfl
  | again g => exact answers g rfl

theorem eq_of_proceed {w : Reduct α} (sound : ∀ g h, next g = some h → h = g.simplify)
    (ends : w.proceed next = some f) : f = Reduct.result w := by
  cases w with
  | done g => exact (Option.some.inj ends).symm
  | again g => exact sound g f ends

/-- A step ends if it can simplify whatever ranks lower. -/
theorem simplifyUsing_eq_some (answers : ∀ g, g.rank < e.rank → next g = some g.simplify) :
    simplifyUsing next e = some e.simplify := by
  rcases e.simplify_cases with ⟨same, ends⟩ | ⟨rule, b, unary⟩ | ⟨rule, l, r, binary⟩
  · rw [ends, same]
  · rw [unary.using_eq, unary.simplify_eq, simplifyUnary, answers b unary.operand]
    exact proceed_eq_some fun g again => answers g (unary.again g again)
  · rw [binary.using_eq, binary.simplify_eq, simplifyBinary, answers l binary.left,
      answers r binary.right]
    exact proceed_eq_some fun g again => answers g (binary.again g again)

theorem eq_of_simplifyUsing (sound : ∀ g h, next g = some h → h = g.simplify)
    (ends : simplifyUsing next e = some f) : f = e.simplify := by
  rcases e.simplify_cases with ⟨same, leaf⟩ | ⟨rule, b, unary⟩ | ⟨rule, l, r, binary⟩
  · rw [leaf] at ends
    rw [same]
    exact (Option.some.inj ends).symm
  · rw [unary.using_eq] at ends
    obtain ⟨b', operand, proceeds⟩ := Option.bind_eq_some_iff.1 ends
    rw [unary.simplify_eq, ← sound b b' operand]
    exact eq_of_proceed sound proceeds
  · rw [binary.using_eq] at ends
    obtain ⟨l', left, ends⟩ := Option.bind_eq_some_iff.1 ends
    obtain ⟨r', right, proceeds⟩ := Option.bind_eq_some_iff.1 ends
    rw [binary.simplify_eq, ← sound l l' left, ← sound r r' right]
    exact eq_of_proceed sound proceeds

theorem simplifyWithin_of_rank {depth : Nat} (enough : e.rank ≤ depth) :
    simplifyWithin depth e = some e.simplify := by
  induction depth generalizing e with
  | zero =>
    have nodes := e.size_pos
    have lower := e.rank_bounds
    omega
  | succ depth ih =>
    apply simplifyUsing_eq_some
    intro g lower
    exact ih (by omega)

theorem eq_of_simplifyWithin {depth : Nat} (ends : simplifyWithin depth e = some f) :
    f = e.simplify := by
  induction depth generalizing e f with
  | zero => cases ends
  | succ depth ih => exact eq_of_simplifyUsing (fun g h => ih) ends

end Recursion

/-- Simplification ends for every expression. From a depth of twice its nodes on the recursion gives
the simplified expression, at no depth it gives anything else, and the simplified expression has no
more nodes than the expression. -/
theorem simplify_ends (e : Expr α) :
    (∀ spare, simplifyWithin (2 * e.size + spare) e = some e.simplify) ∧
    (∀ f, (∃ depth, simplifyWithin depth e = some f) ↔ f = e.simplify) ∧
    e.simplify.size ≤ e.size := by
  have ends (spare : Nat) : simplifyWithin (2 * e.size + spare) e = some e.simplify := by
    have upper := e.rank_bounds
    exact simplifyWithin_of_rank (by omega)
  refine ⟨ends, fun f => ?_, e.size_simplify_le⟩
  constructor
  · intro ⟨depth, found⟩
    exact eq_of_simplifyWithin found
  · intro same
    rw [same]
    exact ⟨_, ends 0⟩

end Expr

end Simultaneous
