import Simultaneous.Expr.Basic

/-!
Simplification: constants are folded, neutral elements vanish, equal operands cancel or combine.
Each kind of node has one rule for operands that are simple already. A rule either gives the result
or a smaller expression to be simplified in turn; no step adds nodes, so the process ends and the
result is never larger than what it came from.
-/

namespace Simultaneous

open Scalar

inductive Reduct (α : Type) where
  | done (e : Expr α)
  | again (e : Expr α)

namespace Reduct

variable {α : Type}

/-- A result has at most `n` nodes, and what is still to be simplified has fewer. -/
def Within (n : Nat) : Reduct α → Prop
  | done e => e.size ≤ n
  | again e => e.size < n

theorem Within.mono {m n : Nat} {w : Reduct α} (h : w.Within m) (le : m ≤ n) : w.Within n := by
  cases w <;> simp only [Within] at * <;> omega

end Reduct

namespace Elementary

variable {α : Type} [Scalar α]

/-- Arguments at which a function of a constant is folded; elsewhere it is undefined. -/
def folds (f : Elementary) (x : α) : Bool :=
  match f with
  | .ln => lt zero x
  | .sqrt => le zero x
  | .arcsin | .arccos => le (ofInt (-1)) x && le x one
  | _ => true

end Elementary

namespace Expr

variable {α : Type} [Scalar α]

def isConst (n : Int) : Expr α → Bool
  | const c => c == ofInt n
  | _ => false

def addRule (l r : Expr α) : Reduct α :=
  match l, r with
  | const a, const b => .done (const (a + b))
  | l, r =>
    if isConst 0 r then .done l
    else if isConst 0 l then .done r
    else match r with
      | neg inner => .again (sub l inner)
      | r => .done (add l r)

def subRule (l r : Expr α) : Reduct α :=
  match l, r with
  | const a, const b => .done (const (a - b))
  | l, r =>
    if isConst 0 r then .done l
    else if isConst 0 l then .done (neg r)
    else if same l r then .done (const zero)
    else .done (sub l r)

/-- Products of operands of which neither is a neutral or absorbing constant. A constant stands on
the left and takes up the constant of a product beside it; equal bases add their exponents. -/
def productRule (l r : Expr α) : Reduct α :=
  match l, r with
  | const a, mul (const b) x => .done (mul (const (a * b)) x)
  | const a, mul l' x => .done (mul (const a) (mul l' x))
  | pow b m, pow c n =>
    if same b c then .again (pow b (m + n)) else .done (mul (pow b m) (pow c n))
  | l, const c => .done (mul (const c) l)
  | l, r => if same l r then .done (pow l 2) else .done (mul l r)

def mulRule (l r : Expr α) : Reduct α :=
  match l, r with
  | const a, const b => .done (const (a * b))
  | l, r =>
    if isConst 0 r || isConst 0 l then .done (const zero)
    else if isConst 1 r then .done l
    else if isConst 1 l then .done r
    else if isConst (-1) r then .again (neg l)
    else if isConst (-1) l then .again (neg r)
    else productRule l r

def divRule (l r : Expr α) : Reduct α :=
  let others : Reduct α :=
    if isConst 0 l then .done (const zero)
    else if isConst 1 r then .done l
    else if isConst (-1) r then .done (neg l)
    else if same l r then .done (const one)
    else .done (div l r)
  match l, r with
  | const a, const b => if b == zero then others else .done (const (a / b))
  | _, _ => others

def absRule (e : Expr α) : Reduct α :=
  match e with
  | const a => .done (const (Scalar.abs a))
  | abs inner => .done (abs inner)
  | neg inner => .done (abs inner)
  | pow b n => if n % 2 = 0 then .done (pow b n) else .done (abs (pow b n))
  | e => .done (abs e)

def powRule (b : Expr α) (n : Int64) : Reduct α :=
  if n = 0 then .done (const one)
  else match b with
    | const a => .done (const (intPower a n))
    | pow inner m => if n = 1 then .done (pow inner m) else .again (pow inner (m * n))
    | b => if n = 1 then .done b else .done (pow b n)

def shortInteger? (p : α) : Option Int64 :=
  (integral? p).bind fun n => if n.natAbs < Nat.pow 2 31 - 1 then some (Int64.ofInt n) else none

def powConstRule (b : Expr α) (p : α) : Reduct α :=
  match b with
  | const a => .done (const (power a p))
  | b => .done (powConst b p)

def powExprRule (b e : Expr α) : Reduct α :=
  match b, e with
  | const a, const p => .done (const (power a p))
  | b, const p => .again (powConst b p)
  | b, e => .done (powExpr b e)

def callRule (f : Elementary) (a : Expr α) : Reduct α :=
  match a with
  | const c => if f.folds c then .done (const (apply f c)) else .done (call f (const c))
  | call g inner => if f = .exp ∧ g = .ln then .done inner else .done (call f (call g inner))
  | a => .done (call f a)

def negRule (e : Expr α) : Reduct α :=
  match e with
  | const a => .done (const (-a))
  | neg inner => .done inner
  | mul (const c) x => .again (mul (const (-c)) x)
  | e => .done (neg e)

theorem addRule_within (l r : Expr α) : (addRule l r).Within (l.size + r.size + 1) := by
  have := l.size_pos
  have := r.size_pos
  unfold addRule
  split
  · simp [Reduct.Within, size]
  · split
    · simp only [Reduct.Within]; omega
    · split
      · simp only [Reduct.Within]; omega
      · split <;> simp only [Reduct.Within, size] <;> omega

theorem subRule_within (l r : Expr α) : (subRule l r).Within (l.size + r.size + 1) := by
  have := l.size_pos
  have := r.size_pos
  unfold subRule
  split
  · simp [Reduct.Within, size]
  · repeat' split
    all_goals simp only [Reduct.Within, size]
    all_goals omega

theorem productRule_within (l r : Expr α) : (productRule l r).Within (l.size + r.size + 1) := by
  have := l.size_pos
  have := r.size_pos
  unfold productRule
  repeat' split
  all_goals simp only [Reduct.Within, size] at *
  all_goals omega

theorem mulRule_within (l r : Expr α) : (mulRule l r).Within (l.size + r.size + 1) := by
  have := l.size_pos
  have := r.size_pos
  unfold mulRule
  split
  · simp [Reduct.Within, size]
  · have product := productRule_within l r
    have left (h : isConst (-1) r) : r.size = 1 := by cases r <;> simp_all [isConst, size]
    repeat' split
    all_goals first
      | exact product
      | (simp only [Reduct.Within, size]; omega)

theorem divRule_within (l r : Expr α) : (divRule l r).Within (l.size + r.size + 1) := by
  have := l.size_pos
  have := r.size_pos
  unfold divRule
  simp only
  repeat' split
  all_goals simp only [Reduct.Within, size] at *
  all_goals omega

theorem absRule_within (e : Expr α) : (absRule e).Within (e.size + 1) := by
  unfold absRule
  repeat' split
  all_goals simp only [Reduct.Within, size]
  all_goals omega

theorem powRule_within (b : Expr α) (n : Int64) : (powRule b n).Within (b.size + 1) := by
  have := b.size_pos
  unfold powRule
  repeat' split
  all_goals simp only [Reduct.Within, size] at *
  all_goals omega

theorem powConstRule_within (b : Expr α) (p : α) : (powConstRule b p).Within (b.size + 1) := by
  unfold powConstRule
  split <;> simp [Reduct.Within, size]

theorem powExprRule_within (b e : Expr α) : (powExprRule b e).Within (b.size + e.size + 1) := by
  unfold powExprRule
  split <;> simp [Reduct.Within, size]

theorem callRule_within (f : Elementary) (a : Expr α) : (callRule f a).Within (a.size + 1) := by
  unfold callRule
  repeat' split
  all_goals simp only [Reduct.Within, size]
  all_goals omega

theorem negRule_within (e : Expr α) : (negRule e).Within (e.size + 1) := by
  unfold negRule
  split <;> simp only [Reduct.Within, size] <;> omega

abbrev Bounded (α : Type) (n : Nat) : Type := { e : Expr α // e.size ≤ n }

omit [Scalar α] in
/-- Carries out what a rule says, given how to simplify expressions with fewer than `n` nodes. -/
def settle {n : Nat} (w : Reduct α) (within : w.Within n)
    (simpler : (e : Expr α) → e.size < n → Bounded α e.size) : Bounded α n :=
  match w, within with
  | .done e, h => ⟨e, h⟩
  | .again e, h =>
    let result := simpler e h
    ⟨result.1, Nat.le_trans result.2 (Nat.le_of_lt h)⟩

def simplifyBounded (e : Expr α) : Bounded α e.size :=
  match e with
  | const c => ⟨const c, Nat.le_refl _⟩
  | var name i => ⟨var name i, Nat.le_refl _⟩
  | add l r =>
    let l' := simplifyBounded l
    let r' := simplifyBounded r
    settle (addRule l'.1 r'.1)
      ((addRule_within l'.1 r'.1).mono (Nat.succ_le_succ (Nat.add_le_add l'.2 r'.2)))
      fun e _ => simplifyBounded e
  | sub l r =>
    let l' := simplifyBounded l
    let r' := simplifyBounded r
    settle (subRule l'.1 r'.1)
      ((subRule_within l'.1 r'.1).mono (Nat.succ_le_succ (Nat.add_le_add l'.2 r'.2)))
      fun e _ => simplifyBounded e
  | mul l r =>
    let l' := simplifyBounded l
    let r' := simplifyBounded r
    settle (mulRule l'.1 r'.1)
      ((mulRule_within l'.1 r'.1).mono (Nat.succ_le_succ (Nat.add_le_add l'.2 r'.2)))
      fun e _ => simplifyBounded e
  | div l r =>
    let l' := simplifyBounded l
    let r' := simplifyBounded r
    settle (divRule l'.1 r'.1)
      ((divRule_within l'.1 r'.1).mono (Nat.succ_le_succ (Nat.add_le_add l'.2 r'.2)))
      fun e _ => simplifyBounded e
  | abs e =>
    let e' := simplifyBounded e
    settle (absRule e'.1)
      ((absRule_within e'.1).mono (Nat.succ_le_succ e'.2))
      fun e _ => simplifyBounded e
  | pow b n =>
    let b' := simplifyBounded b
    settle (powRule b'.1 n)
      ((powRule_within b'.1 n).mono (Nat.succ_le_succ b'.2))
      fun e _ => simplifyBounded e
  | powConst b p =>
    let b' := simplifyBounded b
    match shortInteger? p with
    | some n =>
      let b'' := simplifyBounded b'.1
      settle (powRule b''.1 n)
        ((powRule_within b''.1 n).mono (Nat.succ_le_succ (Nat.le_trans b''.2 b'.2)))
        fun e _ => simplifyBounded e
    | none =>
      settle (powConstRule b'.1 p)
        ((powConstRule_within b'.1 p).mono (Nat.succ_le_succ b'.2))
        fun e _ => simplifyBounded e
  | powExpr b e =>
    let b' := simplifyBounded b
    let e' := simplifyBounded e
    settle (powExprRule b'.1 e'.1)
      ((powExprRule_within b'.1 e'.1).mono (Nat.succ_le_succ (Nat.add_le_add b'.2 e'.2)))
      fun e _ => simplifyBounded e
  | call f a =>
    let a' := simplifyBounded a
    settle (callRule f a'.1)
      ((callRule_within f a'.1).mono (Nat.succ_le_succ a'.2))
      fun e _ => simplifyBounded e
  | neg e =>
    let e' := simplifyBounded e
    settle (negRule e'.1)
      ((negRule_within e'.1).mono (Nat.succ_le_succ e'.2))
      fun e _ => simplifyBounded e
termination_by e.size
decreasing_by
  all_goals first
    | assumption
    | (simp only [size]; omega)
    | exact Nat.lt_succ_of_le (@Subtype.property _ (fun e : Expr α => e.size ≤ b.size) _)

def simplify (e : Expr α) : Expr α := (simplifyBounded e).1

theorem size_simplify_le (e : Expr α) : e.simplify.size ≤ e.size := (simplifyBounded e).2

def Reduct.result : Reduct α → Expr α
  | .done e => e
  | .again e => e.simplify

theorem settle_val {n : Nat} (w : Reduct α) (within : w.Within n) :
    (settle w within fun e _ => simplifyBounded e).1 = Reduct.result w := by
  cases w <;> rfl

/-- Simplifying a node is applying its rule to its simplified operands. -/
theorem simplify_eq (e : Expr α) : e.simplify = match e with
    | const c => const c
    | var name i => var name i
    | add l r => Reduct.result (addRule l.simplify r.simplify)
    | sub l r => Reduct.result (subRule l.simplify r.simplify)
    | mul l r => Reduct.result (mulRule l.simplify r.simplify)
    | div l r => Reduct.result (divRule l.simplify r.simplify)
    | abs e => Reduct.result (absRule e.simplify)
    | pow b n => Reduct.result (powRule b.simplify n)
    | powConst b p => match shortInteger? p with
      | some n => Reduct.result (powRule b.simplify.simplify n)
      | none => Reduct.result (powConstRule b.simplify p)
    | powExpr b e => Reduct.result (powExprRule b.simplify e.simplify)
    | call f a => Reduct.result (callRule f a.simplify)
    | neg e => Reduct.result (negRule e.simplify) := by
  cases e with
  | const c => simp [simplify, simplifyBounded]
  | var name i => simp [simplify, simplifyBounded]
  | powConst b p =>
    rw [simplify, simplifyBounded]
    simp only
    cases shortInteger? p with
    | none => exact settle_val _ _
    | some n => exact settle_val _ _
  | _ =>
    rw [simplify, simplifyBounded, settle_val]
    rfl

theorem simplify_const (c : α) : (const c).simplify = const c := simplify_eq _

theorem simplify_var (name : String) (i : Nat) :
    (var name i : Expr α).simplify = var name i := simplify_eq _

theorem simplify_add (l r : Expr α) :
    (add l r).simplify = Reduct.result (addRule l.simplify r.simplify) := simplify_eq _

theorem simplify_sub (l r : Expr α) :
    (sub l r).simplify = Reduct.result (subRule l.simplify r.simplify) := simplify_eq _

theorem simplify_mul (l r : Expr α) :
    (mul l r).simplify = Reduct.result (mulRule l.simplify r.simplify) := simplify_eq _

theorem simplify_div (l r : Expr α) :
    (div l r).simplify = Reduct.result (divRule l.simplify r.simplify) := simplify_eq _

theorem simplify_abs (e : Expr α) :
    (abs e).simplify = Reduct.result (absRule e.simplify) := simplify_eq _

theorem simplify_pow (b : Expr α) (n : Int64) :
    (pow b n).simplify = Reduct.result (powRule b.simplify n) := simplify_eq _

theorem simplify_powConst (b : Expr α) (p : α) :
    (powConst b p).simplify = match shortInteger? p with
      | some n => Reduct.result (powRule b.simplify.simplify n)
      | none => Reduct.result (powConstRule b.simplify p) := simplify_eq _

theorem simplify_powExpr (b e : Expr α) :
    (powExpr b e).simplify = Reduct.result (powExprRule b.simplify e.simplify) := simplify_eq _

theorem simplify_call (f : Elementary) (a : Expr α) :
    (call f a).simplify = Reduct.result (callRule f a.simplify) := simplify_eq _

theorem simplify_neg (e : Expr α) :
    (neg e).simplify = Reduct.result (negRule e.simplify) := simplify_eq _

end Expr

end Simultaneous
