import Simultaneous.Proofs.Expr.Bound
import Simultaneous.Proofs.Expr.Derivative
import Simultaneous.Proofs.Expr.Rules

/-!
How large integer exponents become. Exponents of nested powers are multiplied and those of products
added, so a bound for all exponents that may come of an expression can be read off it: its reach. No
rule of simplification raises the reach, exponents that wrap around included, and a derivative raises
it by a factor that depends on the height of the expression only. An expression of small reach never
leaves the range of exponents, neither while it is simplified nor while its slopes are made.
-/

namespace Simultaneous

open Formula Scalar

namespace Expr

variable {α : Type}

/-- What an exponent counts for: its magnitude, and at least two, the exponent of a product of equal
factors. -/
def weight (n : Int64) : Nat := max 2 n.toInt.natAbs

/-- A bound for the integer exponents that may come of an expression. Constant exponents that turn
out to be integers are below `2 ^ 31`. -/
def reach : Expr α → Nat
  | const _ | var _ _ => 1
  | add l r | sub l r | div l r => max l.reach r.reach
  | mul l r => l.reach + r.reach
  | abs e | call _ e | neg e => e.reach
  | pow b n => b.reach * weight n
  | powConst b _ => b.reach * 2 ^ 31
  | powExpr b e => max (b.reach * 2 ^ 31) e.reach

def height : Expr α → Nat
  | const _ | var _ _ => 1
  | add l r | sub l r | mul l r | div l r | powExpr l r => max l.height r.height + 1
  | abs e | pow e _ | powConst e _ | call _ e | neg e => e.height + 1

attribute [local simp] reach height

structure Shrinks (e f : Expr α) : Prop where
  reach : e.reach ≤ f.reach
  height : e.height ≤ f.height

/-! ### Exponents -/

theorem natAbs_bmod_le (x : Int) : (Int.bmod x (2 ^ 64)).natAbs ≤ x.natAbs := by
  rw [Int.bmod_def]
  split <;> omega

theorem two_le_weight (n : Int64) : 2 ≤ weight n := Nat.le_max_left _ _

theorem natAbs_le_weight (n : Int64) : n.toInt.natAbs ≤ weight n := Nat.le_max_right _ _

theorem weight_two : weight 2 = 2 := by decide

/-- A sum that wraps around is smaller than the sum. -/
theorem weight_add_le (m n : Int64) : weight (m + n) ≤ weight m + weight n := by
  have sum := natAbs_bmod_le (m.toInt + n.toInt)
  rw [← Int64.toInt_add] at sum
  have apart := Int.natAbs_add_le m.toInt n.toInt
  unfold weight
  omega

theorem weight_mul_le (m n : Int64) : weight (m * n) ≤ weight m * weight n := by
  have product := natAbs_bmod_le (m.toInt * n.toInt)
  rw [← Int64.toInt_mul, Int.natAbs_mul] at product
  have larger := Nat.mul_le_mul (natAbs_le_weight m) (natAbs_le_weight n)
  have four := Nat.mul_le_mul (two_le_weight m) (two_le_weight n)
  exact Nat.max_le.2 ⟨by omega, by omega⟩

theorem weight_pred_le (n : Int64) : weight (n - 1) ≤ weight n + 1 := by
  have difference := natAbs_bmod_le (n.toInt - (1 : Int64).toInt)
  rw [← Int64.toInt_sub] at difference
  have one : (1 : Int64).toInt = 1 := by decide
  unfold weight
  omega

theorem weight_of_shortInteger [Scalar α] {p : α} {n : Int64} (short : shortInteger? p = some n) :
    weight n ≤ 2 ^ 31 := by
  unfold shortInteger? at short
  obtain ⟨k, -, within⟩ := Option.bind_eq_some_iff.1 short
  split at within
  next small =>
    cases within
    have size : (Int64.ofInt k).toInt.natAbs ≤ k.natAbs := by
      rw [Int64.toInt_ofInt]
      exact natAbs_bmod_le k
    have bound : Nat.pow 2 31 = 2147483648 := by decide
    unfold weight
    omega
  next => cases within

theorem one_le_reach (e : Expr α) : 1 ≤ e.reach := by
  induction e with
  | const | var => exact Nat.le_refl 1
  | add l r left right | sub l r left right | div l r left right | mul l r left right =>
    simp only [reach]
    omega
  | abs e inner | call f e inner | neg e inner => exact inner
  | pow b n base => exact Nat.mul_pos base (Nat.lt_of_lt_of_le two_pos (two_le_weight n))
  | powConst b p base => exact Nat.mul_pos base (by decide)
  | powExpr b e base exponent => exact exponent.trans (Nat.le_max_right _ _)

theorem one_le_height (e : Expr α) : 1 ≤ e.height := by
  cases e <;> simp

theorem reach_of_same [BEq α] {e f : Expr α} (equal : same e f) : e.reach = f.reach := by
  fun_induction same e f <;> simp_all

/-! ### Rules -/

namespace Shrinks

variable {e e' f g l l' r r' : Expr α}

theorem refl (e : Expr α) : Shrinks e e := ⟨Nat.le_refl _, Nat.le_refl _⟩

theorem trans (first : Shrinks e f) (second : Shrinks f g) : Shrinks e g :=
  ⟨first.reach.trans second.reach, first.height.trans second.height⟩

theorem const (c : α) (e : Expr α) : Shrinks (.const c) e := ⟨e.one_le_reach, e.one_le_height⟩

end Shrinks

section Rules

variable [Scalar α]

omit [Scalar α] in
theorem shrinks_base (b : Expr α) (n : Int64) : Shrinks b (pow b n) :=
  ⟨Nat.le_mul_of_pos_right _ (Nat.lt_of_lt_of_le two_pos (two_le_weight n)), Nat.le_succ _⟩

omit [Scalar α] in
theorem shrinks_powers {b c : Expr α} [BEq α] (equal : same b c) (m n : Int64) :
    Shrinks (pow b (m + n)) (mul (pow b m) (pow c n)) := by
  have bases := reach_of_same equal
  have sum := Nat.mul_le_mul_left b.reach (weight_add_le m n)
  rw [Nat.mul_add] at sum
  constructor
  · rwa [reach, reach, reach, reach, ← bases]
  · simp only [height]
    omega

omit [Scalar α] in
theorem shrinks_square {l r : Expr α} [BEq α] (equal : same l r) :
    Shrinks (pow l 2) (mul l r) := by
  have factors := reach_of_same equal
  constructor <;> simp only [reach, height, weight_two] <;> omega

omit [Scalar α] in
theorem shrinks_raised (b : Expr α) (m n : Int64) :
    Shrinks (pow b (m * n)) (pow (pow b m) n) := by
  have product := Nat.mul_le_mul_left b.reach (weight_mul_le m n)
  rw [← Nat.mul_assoc] at product
  exact ⟨product, Nat.le_succ _⟩

theorem Rewrites.shrinks {e : Expr α} {w : Reduct α} (step : Rewrites e w) :
    Shrinks w.expr e := by
  cases step with
  | addFold | subFold | subSame | mulFold | mulZero | zeroMul | divFold | zeroDiv | divSame
  | absFold | powZero | powFold | powConstFold | powExprFold | callFold | negFold =>
    exact Shrinks.const _ _
  | addKeep | subKeep | mulKeep | divKeep | absKeep | powKeep | powConstKeep | powExprKeep
  | callUndefined | callKeep | negKeep => exact Shrinks.refl _
  | addZero | zeroAdd | addNeg | subZero | zeroSub | mulOne | oneMul | mulMinusOne | minusOneMul
  | mulConstants | mulConst | divOne | divMinusOne | absAbs | absNeg | absEven | expLn | negNeg
  | negMul =>
    constructor
    all_goals simp only [Reduct.expr, reach, height]
    all_goals omega
  | mulPowers equal => exact shrinks_powers equal _ _
  | mulSame _ equal => exact shrinks_square equal
  | powOne => exact shrinks_base _ 1
  | powPow => exact shrinks_raised _ _ _
  | powExprConst => exact ⟨Nat.le_max_left _ _, Nat.succ_le_succ (Nat.le_max_left _ _)⟩

omit [Scalar α] in
theorem reach_base_le (b : Expr α) : b.reach ≤ b.reach * 2 ^ 31 :=
  Nat.le_mul_of_pos_right _ (by decide)

theorem shrinks_of_short (b : Expr α) {p : α} {n : Int64} (short : shortInteger? p = some n) :
    Shrinks (pow b n) (powConst b p) :=
  ⟨Nat.mul_le_mul_left _ (weight_of_shortInteger short), Nat.le_refl _⟩

theorem keptByRules_shrinks : KeptByRules (Shrinks : Expr α → Expr α → Prop) where
  refl := Shrinks.refl
  trans := Shrinks.trans
  add left right := ⟨max_le_max left.reach right.reach,
    Nat.succ_le_succ (max_le_max left.height right.height)⟩
  sub left right := ⟨max_le_max left.reach right.reach,
    Nat.succ_le_succ (max_le_max left.height right.height)⟩
  mul left right := ⟨Nat.add_le_add left.reach right.reach,
    Nat.succ_le_succ (max_le_max left.height right.height)⟩
  div left right := ⟨max_le_max left.reach right.reach,
    Nat.succ_le_succ (max_le_max left.height right.height)⟩
  powExpr base exponent := ⟨max_le_max (Nat.mul_le_mul_right _ base.reach) exponent.reach,
    Nat.succ_le_succ (max_le_max base.height exponent.height)⟩
  abs inner := ⟨inner.reach, Nat.succ_le_succ inner.height⟩
  pow _ base := ⟨Nat.mul_le_mul_right _ base.reach, Nat.succ_le_succ base.height⟩
  powConst _ base := ⟨Nat.mul_le_mul_right _ base.reach, Nat.succ_le_succ base.height⟩
  call _ inner := ⟨inner.reach, Nat.succ_le_succ inner.height⟩
  neg inner := ⟨inner.reach, Nat.succ_le_succ inner.height⟩
  addRule _ _ := (rewrites_addRule _ _).shrinks
  subRule _ _ := (rewrites_subRule _ _).shrinks
  mulRule _ _ := (rewrites_mulRule _ _).shrinks
  divRule _ _ := (rewrites_divRule _ _).shrinks
  absRule _ := (rewrites_absRule _).shrinks
  powRule _ _ := (rewrites_powRule _ _).shrinks
  shortRule b _ n short := (rewrites_powRule b n).shrinks.trans (shrinks_of_short b short)
  powConstRule _ _ := (rewrites_powConstRule _ _).shrinks
  powExprRule _ _ := (rewrites_powExprRule _ _).shrinks
  callRule _ _ := (rewrites_callRule _ _).shrinks
  negRule _ := (rewrites_negRule _).shrinks

/-- Simplifying an expression raises neither its reach nor its height. -/
theorem shrinks_simplify (e : Expr α) : Shrinks e.simplify e := keptByRules_shrinks.simplify e

end Rules

/-! ### Simplifying within the range -/

section Fits

variable [Scalar α]

theorem isExponent_of_natAbs_lt {n : Int} (small : n.natAbs < 2 ^ 63) : IsExponent n :=
  ⟨by omega, by omega⟩

theorem sumFits_of_reach {l r : Expr α} (small : l.reach + r.reach < 2 ^ 63) : SumFits l r := by
  unfold SumFits
  split
  next b m c n =>
    intro equal
    have left := Nat.mul_le_mul (one_le_reach b) (natAbs_le_weight m)
    have right := Nat.mul_le_mul (one_le_reach c) (natAbs_le_weight n)
    have sum := Int.natAbs_add_le m.toInt n.toInt
    simp only [reach] at small
    exact isExponent_of_natAbs_lt (by omega)
  next => trivial

omit [Scalar α] in
theorem productFits_of_reach {b : Expr α} {n : Int64} (small : b.reach * weight n < 2 ^ 63) :
    ProductFits b n := by
  unfold ProductFits
  split
  next c m =>
    intro _ _
    have inner := Nat.mul_le_mul (one_le_reach c) (natAbs_le_weight m)
    have product := Nat.mul_le_mul inner (natAbs_le_weight n)
    rw [Nat.one_mul, ← Int.natAbs_mul] at product
    exact isExponent_of_natAbs_lt (product.trans_lt small)
  next => trivial

/-- What the rule of a node leaves to be simplified has no larger reach than the expression. -/
theorem exponentsFit_of_again {e node : Expr α} {w : Reduct α} (step : Rewrites node w)
    (operands : Shrinks node e) (small : e.reach < 2 ^ 63)
    (rest : ∀ f, w = .again f → f.reach < 2 ^ 63 → ExponentsFit f) :
    ∀ f, w = .again f → ExponentsFit f := by
  rintro f rfl
  exact rest f rfl ((step.shrinks.trans operands).reach.trans_lt small)

/-- An expression of small reach is simplified without an exponent leaving its range. -/
theorem exponentsFit_of_reach {e : Expr α} (small : e.reach < 2 ^ 63) : ExponentsFit e := by
  have kept := keptByRules_shrinks (α := α)
  induction e using simplify_induction with
  | const c => exact .const c
  | var name i => exact .var name i
  | add l r left right rest =>
    have node := kept.add (shrinks_simplify l) (shrinks_simplify r)
    have fits := max_lt_iff.1 small
    exact .add (left fits.1) (right fits.2)
      (exponentsFit_of_again (rewrites_addRule _ _) node small rest)
  | sub l r left right rest =>
    have node := kept.sub (shrinks_simplify l) (shrinks_simplify r)
    have fits := max_lt_iff.1 small
    exact .sub (left fits.1) (right fits.2)
      (exponentsFit_of_again (rewrites_subRule _ _) node small rest)
  | mul l r left right rest =>
    have node := kept.mul (shrinks_simplify l) (shrinks_simplify r)
    exact .mul (left ((Nat.le_add_right _ _).trans_lt small))
      (right ((Nat.le_add_left _ _).trans_lt small))
      (sumFits_of_reach (node.reach.trans_lt small))
      (exponentsFit_of_again (rewrites_mulRule _ _) node small rest)
  | div l r left right rest =>
    have node := kept.div (shrinks_simplify l) (shrinks_simplify r)
    have fits := max_lt_iff.1 small
    exact .div (left fits.1) (right fits.2)
      (exponentsFit_of_again (rewrites_divRule _ _) node small rest)
  | powExpr b e base exponent rest =>
    have node := kept.powExpr (shrinks_simplify b) (shrinks_simplify e)
    obtain ⟨of_base, of_exponent⟩ := max_lt_iff.1 small
    exact .powExpr (base ((reach_base_le b).trans_lt of_base)) (exponent of_exponent)
      (exponentsFit_of_again (rewrites_powExprRule _ _) node small rest)
  | abs e inner rest =>
    have node := kept.abs (shrinks_simplify e)
    exact .abs (inner small) (exponentsFit_of_again (rewrites_absRule _) node small rest)
  | pow b n base rest =>
    have node := kept.pow n (shrinks_simplify b)
    exact .pow (base ((shrinks_base b n).reach.trans_lt small))
      (productFits_of_reach (node.reach.trans_lt small))
      (exponentsFit_of_again (rewrites_powRule _ _) node small rest)
  | powInteger b p n short base further rest =>
    have once := shrinks_simplify b
    have twice := (shrinks_simplify b.simplify).trans once
    have node := (kept.pow n twice).trans (shrinks_of_short b short)
    exact .powInteger short (base ((reach_base_le b).trans_lt small))
      (further ((once.reach.trans (reach_base_le b)).trans_lt small))
      (productFits_of_reach (node.reach.trans_lt small))
      (exponentsFit_of_again (rewrites_powRule _ _) node small rest)
  | powConst b p long base rest =>
    have node := kept.powConst p (shrinks_simplify b)
    exact .powConst long (base ((reach_base_le b).trans_lt small))
      (exponentsFit_of_again (rewrites_powConstRule _ _) node small rest)
  | call f e inner rest =>
    have node := kept.call f (shrinks_simplify e)
    exact .call (inner small) (exponentsFit_of_again (rewrites_callRule _ _) node small rest)
  | neg e inner rest =>
    have node := kept.neg (shrinks_simplify e)
    exact .neg (inner small) (exponentsFit_of_again (rewrites_negRule _) node small rest)

omit [Scalar α] in
/-- In an expression of small reach no exponent is the least one. -/
theorem hasPredecessors_of_reach {e : Expr α} (small : e.reach < 2 ^ 63) : e.HasPredecessors := by
  induction e with
  | const | var => trivial
  | add l r left right | sub l r left right | mul l r left right | div l r left right
  | powExpr l r left right =>
    simp only [reach] at small
    exact ⟨left (by omega), right (by omega)⟩
  | abs e inner | call f e inner | neg e inner => exact inner small
  | pow b n base =>
    have positive := Nat.mul_le_mul (one_le_reach b) (natAbs_le_weight n)
    have larger := Nat.mul_le_mul_left b.reach ((Nat.le_succ 1).trans (two_le_weight n))
    simp only [reach] at small
    refine ⟨base (by omega), ?_⟩
    rintro rfl
    have least : Int64.minValue.toInt.natAbs = 2 ^ 63 := by decide
    omega
  | powConst b p base =>
    simp only [reach] at small
    exact base (by omega)

end Fits

/-! ### Derivatives -/

section Derivatives

variable [Scalar α]

theorem reach_elementary_derivative_le (f : Elementary) (a : Expr α) :
    (f.derivative a).reach ≤ 2 * a.reach := by
  have positive := one_le_reach a
  cases f <;> simp only [Elementary.derivative, reach, weight_two] <;> omega

theorem height_elementary_derivative_le (f : Elementary) (a : Expr α) :
    (f.derivative a).height ≤ a.height + 5 := by
  have positive := one_le_height a
  cases f <;> simp only [Elementary.derivative, height] <;> omega

theorem height_derivative_le (name : String) (e : Expr α) :
    (e.derivative name).height ≤ 4 * e.height + 1 := by
  induction e with
  | const | var => simp only [derivative, height]; omega
  | add l r left right | sub l r left right | mul l r left right | div l r left right
  | powExpr l r left right =>
    simp only [derivative, height]
    omega
  | abs e inner | pow b n inner | powConst b p inner | neg e inner =>
    simp only [derivative, height]
    omega
  | call f e inner =>
    have outer := height_elementary_derivative_le f e
    have positive := one_le_height e
    simp only [derivative, height]
    omega

/-- Each node on the way down adds at most three times the reach. -/
theorem reach_derivative_le (name : String) (e : Expr α) :
    (e.derivative name).reach ≤ 3 * e.height * e.reach := by
  have above {d h r H R : Nat} (bound : d ≤ 3 * h * r) (height_le : h ≤ H) (reach_le : r ≤ R) :
      d ≤ 3 * H * R :=
    bound.trans (Nat.mul_le_mul (Nat.mul_le_mul_left 3 height_le) reach_le)
  have expand (H R : Nat) : 3 * (H + 1) * R = 3 * H * R + 3 * R := by ring
  induction e with
  | const | var => exact Nat.le_add_left 1 2
  | add l r left right | sub l r left right =>
    have left := above left (Nat.le_max_left _ r.height) (Nat.le_max_left _ r.reach)
    have right := above right (Nat.le_max_right l.height _) (Nat.le_max_right l.reach _)
    rw [height, expand]
    simp only [derivative, reach]
    omega
  | mul l r left right =>
    have left := above left (Nat.le_max_left _ r.height) (Nat.le_add_right _ r.reach)
    have right := above right (Nat.le_max_right l.height _) (Nat.le_add_left _ l.reach)
    rw [height, expand]
    simp only [derivative, reach]
    omega
  | div l r left right =>
    have left := above left (Nat.le_max_left _ r.height) (Nat.le_max_left _ r.reach)
    have right := above right (Nat.le_max_right l.height _) (Nat.le_max_right l.reach _)
    rw [height, expand]
    simp only [derivative, reach, weight_two]
    omega
  | abs e inner =>
    rw [height, expand]
    simp only [derivative, reach]
    omega
  | pow b n inner =>
    have base_le := (shrinks_base b n).reach
    have inner := above inner (Nat.le_refl _) base_le
    have power : b.reach * weight (n - 1) ≤ b.reach * weight n + b.reach :=
      Nat.mul_le_mul_left b.reach (weight_pred_le n)
    have positive := one_le_reach b
    rw [height, expand]
    simp only [derivative, reach] at *
    omega
  | powConst b p inner =>
    have base_le : b.reach ≤ b.reach * 2 ^ 31 := by omega
    have inner := above inner (Nat.le_refl _) base_le
    have positive := one_le_reach b
    rw [height, expand]
    simp only [derivative, reach]
    omega
  | powExpr b e base exponent =>
    have base_le : b.reach ≤ max (b.reach * 2 ^ 31) e.reach := by omega
    have base := above base (Nat.le_max_left _ e.height) base_le
    have exponent := above exponent (Nat.le_max_right b.height _)
      (Nat.le_max_right (b.reach * 2 ^ 31) _)
    rw [height, expand]
    simp only [derivative, reach]
    omega
  | call f e inner =>
    have outer := reach_elementary_derivative_le f e
    rw [height, expand]
    simp only [derivative, reach]
    omega
  | neg e inner =>
    rw [height, expand]
    simp only [derivative, reach]
    omega

theorem reach_slope_le (name : String) (e : Expr α) :
    (e.slope name).reach ≤ 3 * e.height * e.reach :=
  (shrinks_simplify _).reach.trans (reach_derivative_le name e)

theorem height_slope_le (name : String) (e : Expr α) : (e.slope name).height ≤ 4 * e.height + 1 :=
  (shrinks_simplify _).height.trans (height_derivative_le name e)

theorem reach_second_derivative_le (s t : String) (e : Expr α) :
    ((e.slope s).derivative t).reach ≤ 45 * e.height ^ 2 * e.reach := by
  have positive := one_le_height e
  calc ((e.slope s).derivative t).reach
      ≤ 3 * (e.slope s).height * (e.slope s).reach := reach_derivative_le t _
    _ ≤ 3 * (5 * e.height) * (3 * e.height * e.reach) :=
        Nat.mul_le_mul (Nat.mul_le_mul_left 3 ((height_slope_le s e).trans (by omega)))
          (reach_slope_le s e)
    _ = 45 * e.height ^ 2 * e.reach := by ring

end Derivatives

end Expr

/-! ### Residuals -/

section Definitions

variable {α : Type} [Scalar α]

inductive Formula.Node.ExponentsReach (names : Names α) : Node → Prop
  | mk {op : Operator} {operands : List Node} :
      (∀ n ∈ operands, Node.ExponentsReach names n) →
      (op = .exp → ∀ n ∈ operands.head?, ∀ e, Expr.ofNode names n = .ok e → e.reach < 2 ^ 63) →
      Node.ExponentsReach names (.mk op operands)

structure Expr.DerivativesFit (e : Expr α) : Prop where
  predecessors : e.HasPredecessors
  first (s : String) : ExponentsFit (e.derivative s)
  slope_predecessors (s : String) : (e.slope s).HasPredecessors
  second (s t : String) : ExponentsFit ((e.slope s).derivative t)

end Definitions

section Residuals

variable {α : Type} [Scalar α] {names : Names α}

theorem Formula.Node.ExponentsReach.fit {tree : Node} (small : tree.ExponentsReach names) :
    tree.ExponentsFit names := by
  induction small with
  | mk _ exponent operands =>
    exact .mk operands fun power n first e made =>
      Expr.exponentsFit_of_reach (exponent power n first e made)

namespace Expr

theorem derivativesFit_of_reach {e : Expr α} (small : 45 * e.height ^ 2 * e.reach < 2 ^ 63) :
    e.DerivativesFit := by
  have positive := one_le_height e
  have square : e.height ≤ e.height ^ 2 := Nat.le_self_pow two_ne_zero _
  have own_le : e.reach ≤ 45 * e.height ^ 2 * e.reach := Nat.le_mul_of_pos_left _ (by omega)
  have first_le : 3 * e.height * e.reach ≤ 45 * e.height ^ 2 * e.reach :=
    Nat.mul_le_mul_right _ (by omega)
  have first (s : String) := (reach_derivative_le s e).trans first_le
  have slope (s : String) := (reach_slope_le s e).trans first_le
  have second (s t : String) := reach_second_derivative_le s t e
  exact ⟨hasPredecessors_of_reach (own_le.trans_lt small),
    fun s => exponentsFit_of_reach ((first s).trans_lt small),
    fun s => hasPredecessors_of_reach ((slope s).trans_lt small),
    fun s t => exponentsFit_of_reach ((second s t).trans_lt small)⟩

/-- Where the expression of a tree and the exponents in the tree are of small reach, no exponent
leaves its range: not on conversion, not in the simplified expression and not in its first and second
derivatives. Each derivative raises the exponents by the height of the expression, so the height
counts as well. -/
theorem exponents_stay_in_range {tree : Node} {e : Expr α} (exponents : tree.ExponentsReach names)
    (made : ofNode names tree = .ok e) (small : 45 * e.height ^ 2 * e.reach < 2 ^ 63) :
    tree.ConversionFits names ∧ e.simplify.DerivativesFit := by
  have simpler := shrinks_simplify e
  have positive := one_le_height e
  have own_le : e.reach ≤ 45 * e.height ^ 2 * e.reach :=
    Nat.le_mul_of_pos_left _ (Nat.mul_pos (by decide) (Nat.pow_pos positive))
  have simpler_le :
      45 * e.simplify.height ^ 2 * e.simplify.reach ≤ 45 * e.height ^ 2 * e.reach :=
    Nat.mul_le_mul (Nat.mul_le_mul_left 45 (Nat.pow_le_pow_left simpler.height 2)) simpler.reach
  refine ⟨⟨exponents.fit, fun f other => ?_⟩, derivativesFit_of_reach (simpler_le.trans_lt small)⟩
  obtain rfl := Except.ok.inj (made.symm.trans other)
  exact exponentsFit_of_reach (own_le.trans_lt small)

end Expr

end Residuals

namespace Expr

section Example

variable {K : Type} [Field K] [LinearOrder K] {F : Interpretation K}
variable {names : Names (Exact F.arithmetic)}

theorem leaf_exponentsReach {op : Operator} (other : op ≠ .exp) :
    (Node.leaf op).ExponentsReach names :=
  .mk (by simp) fun power => absurd power other

theorem raisedTree_exponentsReach {base : Node} (inner : base.ExponentsReach names) :
    (raisedTree base).ExponentsReach names := by
  refine .mk ?_ fun _ n first e made => ?_
  · intro n member
    rcases List.mem_pair.1 member with rfl | rfl
    · exact leaf_exponentsReach (by simp)
    · exact inner
  · cases first
    obtain rfl := Except.ok.inj ((ofNode_numeral 65536).symm.trans made)
    simp [reach]

theorem raised_twice_stays_in_range :
    (raisedTree (raisedTree (.leaf (.read "x")))).ConversionFits
        (⟨["x"], []⟩ : Names (Exact Interpretation.rational.arithmetic)) ∧
      (pow (pow (var "x" 0) 65536) 65536 :
        Expr (Exact Interpretation.rational.arithmetic)).simplify.DerivativesFit :=
  exponents_stay_in_range
    (raisedTree_exponentsReach (raisedTree_exponentsReach (leaf_exponentsReach (by simp))))
    (ofNode_raisedTree (ofNode_raisedTree (ofNode_read "x"))) (by decide)

theorem exists_row_raised {s w : List Char} {ts : List Token} {r : Reading} {n : Decimal.Numeral}
    (exponent : Spelling (.number n) w) (spelled : Spelled s ts) (reads : Reads .power ts r) :
    ∃ us, Spelled (s ++ '^' :: w) us ∧ Reads .power us (.binary .exp r (.number n)) := by
  have hat : Spelling .hat ['^'] := .mark rfl (by simp)
  exact ⟨_, spelled.append (.cons hat (.single exponent)),
    .binary .exp reads (.lift .exponent (.number n))⟩

theorem exists_row_bracket {s : List Char} {ts : List Token} {r : Reading} (spelled : Spelled s ts)
    (reads : Reads .power ts r) :
    ∃ us, Spelled ('(' :: (s ++ [')'])) us ∧ Reads .power us (.bracket r) := by
  have opener : Spelling .opener ['('] := .mark rfl (by simp)
  have closer : Spelling .closer [')'] := .mark rfl (by simp)
  exact ⟨_, .cons opener (spelled.append (.single closer)),
    .lift .operand (.bracket (.lift .product (.lift .signed (.lift .power reads))))⟩

def raisedReading (r : Reading) : Reading := .binary .exp r (.number (.ofNat 65536))

def wrappingReading : Reading :=
  raisedReading (.bracket (raisedReading (.bracket (raisedReading (.bracket
    (raisedReading (.name "x")))))))

theorem spelling_65536 : Spelling (.number (.ofNat 65536)) ['6', '5', '5', '3', '6'] := by
  have digits : ∀ c ∈ ['6', '5', '5', '3', '6'], c.isDigit := List.all_eq_true.1 rfl
  have value : Decimal.Numeral.read? ['6', '5', '5', '3', '6'] = some (.ofNat 65536) := by
    decide +kernel
  exact .number (by simp) (fun c member => .inl (digits c member)) value

theorem read_wrapping :
    Formula.read "(((x^65536)^65536)^65536)^65536" = .ok (.mk .root [wrappingReading.node]) := by
  have x : Spelling (.identifier (String.ofList ['x'])) ['x'] :=
    .name (by decide) (List.all_eq_true.1 rfl) (by decide)
  obtain ⟨ts, spelled, reads⟩ :=
    exists_row_raised spelling_65536 (.single x) (.lift .operand (.name _))
  obtain ⟨us, spelled, reads⟩ := exists_row_bracket spelled reads
  obtain ⟨ts, spelled, reads⟩ := exists_row_raised spelling_65536 spelled reads
  obtain ⟨us, spelled, reads⟩ := exists_row_bracket spelled reads
  obtain ⟨ts, spelled, reads⟩ := exists_row_raised spelling_65536 spelled reads
  obtain ⟨us, spelled, reads⟩ := exists_row_bracket spelled reads
  obtain ⟨ts, spelled, reads⟩ := exists_row_raised spelling_65536 spelled reads
  exact read_of_reads spelled (.lift .product (.lift .signed (.lift .power reads)))

theorem ofNode_raisedReading {r : Reading} {b : Expr (Exact F.arithmetic)}
    (made : ofNode names r.node = .ok b) :
    ofNode names (raisedReading r).node = .ok (pow b 65536) := by
  have power : (raisedReading r).node = raisedTree r.node := by
    simp only [raisedReading, raisedTree, powerTree, Reading.node, Binary.operator]
  rw [power]
  exact ofNode_raisedTree made

theorem ofNode_wrappingReading (named : ofName names "x" = .ok (var "x" 0)) :
    ofNode names wrappingReading.node = .ok (wrappingPower (var "x" 0)) := by
  have bracketed {r : Reading} {b : Expr (Exact F.arithmetic)}
      (made : ofNode names r.node = .ok b) : ofNode names (Reading.bracket r).node = .ok b :=
    ofNode_bracket.trans made
  exact ofNode_raisedReading (bracketed (ofNode_raisedReading (bracketed (ofNode_raisedReading
    (bracketed (ofNode_raisedReading ((ofNode_read "x").trans named)))))))

theorem simplify_raised_thrice {α : Type} [Scalar α] (name : String) (i : Nat) :
    (pow (pow (pow (var name i) 65536) 65536) 65536 : Expr α).simplify =
      pow (var name i) 281474976710656 := by
  have power {m n : Int64} (zero : n ≠ 0) (one : n ≠ 1) (product_zero : m * n ≠ 0)
      (product_one : m * n ≠ 1) : Reduct.result (powRule (pow (var name i : Expr α) m) n) =
        pow (var name i) (m * n) := by
    simp only [powRule, zero, one, if_false, Reduct.result]
    exact simplify_power_var product_zero product_one
  rw [simplify_pow, simplify_pow, simplify_power_var (by decide) (by decide),
    power (by decide) (by decide) (by decide) (by decide),
    power (by decide) (by decide) (by decide) (by decide)]
  rfl

/-- Without a condition on exponents the statement is wrong: the exponents of nested powers are
multiplied to `2 ^ 64`. -/
theorem exponents_may_leave_range :
    ¬∀ (names : Names (Exact Interpretation.rational.arithmetic)) (text : String) (tree : Node)
        (e : Expr (Exact Interpretation.rational.arithmetic)),
      Formula.read text = .ok tree → ofNode names tree = .ok e →
      tree.ConversionFits names ∧ e.simplify.DerivativesFit := by
  intro fit
  have inside : ofNode ⟨["x"], []⟩ wrappingReading.node = .ok (wrappingPower (var "x" 0) :
      Expr (Exact Interpretation.rational.arithmetic)) := ofNode_wrappingReading rfl
  have made := ofNode_bracket.trans inside
  have within := (fit ⟨["x"], []⟩ _ _ _ read_wrapping made).1.2 _ made
  cases within with
  | pow _ product _ =>
    rw [simplify_raised_thrice] at product
    have range := product (by decide) (by decide)
    exact absurd range.2 (by decide)

end Example

end Expr

end Simultaneous
