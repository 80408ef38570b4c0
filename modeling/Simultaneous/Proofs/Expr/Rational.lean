import Simultaneous.Proofs.Expr.Places
import Simultaneous.Proofs.Expr.Simplify

/-!
Rational expressions: constants and variables joined by the four operations, negation and powers by
integers. Simplification and differentiation keep them rational, simplification also removes the
exponent zero, and variables stay at the positions of their names.
-/

namespace Simultaneous

open Scalar Formula

section Plain

variable {K : Type} [Field K] [LinearOrder K] {F : Interpretation K}

namespace Expr

def Plain (named : String → Nat → Prop) (exponent : Int → Prop) : Expr (Exact F.arithmetic) → Prop
  | const _ => True
  | var name i => named name i
  | add l r | sub l r | mul l r | div l r => l.Plain named exponent ∧ r.Plain named exponent
  | neg e => e.Plain named exponent
  | pow b n => b.Plain named exponent ∧ exponent n.toInt
  | powConst b p => b.Plain named exponent ∧ ∃ n : Int, p = .of (n : K) ∧ exponent n
  | abs _ | powExpr _ _ | call _ _ => False

/-- Made of constants, variables, the four operations, negation and powers by integers. -/
def IsRational (e : Expr (Exact F.arithmetic)) : Prop := e.Plain (fun _ _ => True) fun _ => True

theorem Plain.any {named : String → Nat → Prop} {exponent : Int → Prop}
    {e : Expr (Exact F.arithmetic)} (plain : e.Plain named exponent) :
    e.Plain named fun _ => True := by
  induction e with
  | const c => trivial
  | var name i => exact plain
  | add l r left right | sub l r left right | mul l r left right | div l r left right =>
    exact ⟨left plain.1, right plain.2⟩
  | neg e inner => exact inner plain
  | pow b n base => exact ⟨base plain.1, trivial⟩
  | powConst b p base =>
    obtain ⟨plain_b, n, whole, -⟩ := plain
    exact ⟨base plain_b, n, whole, trivial⟩
  | abs e | powExpr b e | call f e => exact plain.elim

variable {b : Expr (Exact F.arithmetic)}

def IsPower (e b : Expr (Exact F.arithmetic)) (m : Int) : Prop :=
  ∀ point v, HasValue point e v ↔ ∃ a, HasValue point b a ∧ integerPower? a m = some v

theorem isPower_pow {k : Int64} (nonzero : k.toInt ≠ 0) : (pow b k).IsPower b k.toInt := by
  intro point v
  rw [hasValue_pow]
  constructor
  · rintro (⟨rfl, -⟩ | ⟨a, base, power⟩)
    · exact absurd Int64.toInt_zero nonzero
    · exact ⟨a, base, by rwa [← F.intPower?_eq]⟩
  · rintro ⟨a, base, power⟩
    exact .inr ⟨a, base, by rwa [F.intPower?_eq]⟩

theorem isPower_powConst (m : Int) : (powConst b (.of (m : K))).IsPower b m := by
  intro point v
  rw [hasValue_powConst]
  constructor
  · rintro ⟨a, c, base, constant, power⟩
    obtain rfl := Exact.of_inj.1 constant
    exact ⟨a, base, (F.power_intCast a m).symm.trans power⟩
  · rintro ⟨a, base, power⟩
    exact ⟨a, m, base, rfl, (F.power_intCast a m).trans power⟩

end Expr

/-! ### Simplification -/

def Reduct.IsPlain (named : String → Nat → Prop) :
    Reduct (Exact F.arithmetic) → Prop
  | .done e => e.Plain named (· ≠ 0)
  | .again e => e.Plain named fun _ => True

namespace Expr

variable {named : String → Nat → Prop} {b e : Expr (Exact F.arithmetic)} {n : Int64}

theorem Rewrites.isPlain {w : Reduct (Exact F.arithmetic)} (step : Rewrites e w)
    (plain : e.Plain named (· ≠ 0)) : w.IsPlain named := by
  cases step with
  | addFold | subFold | subSame | mulFold | mulZero | zeroMul | divFold | zeroDiv | divSame
  | powZero | powFold | powConstFold | negFold => trivial
  | addZero | subZero | mulOne | divOne | divMinusOne | powOne => exact plain.1
  | zeroAdd | zeroSub | oneMul => exact plain.2
  | mulMinusOne => exact plain.1.any
  | minusOneMul => exact plain.2.any
  | addNeg => exact ⟨plain.1.any, plain.2.any⟩
  | mulConstants => exact ⟨trivial, plain.2.2⟩
  | mulPowers => exact ⟨plain.1.1.any, trivial⟩
  | mulConst => exact ⟨trivial, plain.1⟩
  | mulSame => exact ⟨plain.1, by decide⟩
  | powPow => exact ⟨plain.1.1.any, trivial⟩
  | negMul => exact ⟨trivial, plain.2.any⟩
  | addKeep | subKeep | mulKeep | divKeep | powKeep | powConstKeep | negNeg | negKeep => exact plain
  | absFold | absAbs | absNeg | absEven | absKeep | powExprFold | powExprConst | powExprKeep
  | callFold | callUndefined | expLn | callKeep => exact plain.elim

theorem toInt_ne_zero (nonzero : n ≠ 0) : n.toInt ≠ 0 := by
  rw [← Int64.toInt_zero]
  exact fun same => nonzero (Int64.toInt_inj.1 same)

theorem plain_powRule (base : b.Plain named (· ≠ 0)) (n : Int64) :
    (powRule b n).IsPlain named := by
  by_cases zero : n = 0
  · unfold powRule
    rw [if_pos zero]
    trivial
  · exact (rewrites_powRule b n).isPlain ⟨base, toInt_ne_zero zero⟩

theorem plain_powConstRule {p : Exact F.arithmetic} (long : shortInteger? p = none)
    (base : b.Plain named (· ≠ 0)) (whole : ∃ n : Int, p = .of (n : K)) :
    (powConstRule b p).IsPlain named := by
  obtain ⟨n, rfl⟩ := whole
  refine (rewrites_powConstRule b _).isPlain ⟨base, n, rfl, ?_⟩
  rintro rfl
  have integral : integral? (.of ((0 : Int) : K) : Exact F.arithmetic) = some 0 :=
    Exact.integral?_eq_some.2 ⟨_, rfl, F.integral?_eq_some.2 rfl⟩
  rw [shortInteger?, integral] at long
  cases long

theorem plain_result {w : Reduct (Exact F.arithmetic)} (keeps : w.IsPlain named)
    (rest : ∀ e, w = .again e → e.Plain named (fun _ => True) → e.simplify.Plain named (· ≠ 0)) :
    (Reduct.result w).Plain named (· ≠ 0) := by
  cases w with
  | done e => exact keeps
  | again e => exact rest e rfl keeps

/-- Simplifying keeps an expression rational and its variables in place, and leaves no exponent
zero. -/
theorem plain_simplify (e : Expr (Exact F.arithmetic)) (plain : e.Plain named fun _ => True) :
    e.simplify.Plain named (· ≠ 0) := by
  induction e using simplify_induction with
  | const c =>
    rw [simplify_const]
    trivial
  | var name i =>
    rw [simplify_var]
    exact plain
  | add l r left right rest =>
    rw [simplify_add]
    exact plain_result ((rewrites_addRule _ _).isPlain ⟨left plain.1, right plain.2⟩) rest
  | sub l r left right rest =>
    rw [simplify_sub]
    exact plain_result ((rewrites_subRule _ _).isPlain ⟨left plain.1, right plain.2⟩) rest
  | mul l r left right rest =>
    rw [simplify_mul]
    exact plain_result ((rewrites_mulRule _ _).isPlain ⟨left plain.1, right plain.2⟩) rest
  | div l r left right rest =>
    rw [simplify_div]
    exact plain_result ((rewrites_divRule _ _).isPlain ⟨left plain.1, right plain.2⟩) rest
  | pow b n base rest =>
    rw [simplify_pow]
    exact plain_result (plain_powRule (base plain.1) n) rest
  | powInteger b p n short base again rest =>
    rw [simplify_powConst, short]
    exact plain_result (plain_powRule (again (base plain.1).any) n) rest
  | powConst b p long base rest =>
    obtain ⟨plain_b, n, whole, -⟩ := plain
    rw [simplify_powConst, long]
    exact plain_result (plain_powConstRule long (base plain_b) ⟨n, whole⟩) rest
  | neg e inner rest =>
    rw [simplify_neg]
    exact plain_result ((rewrites_negRule _).isPlain (inner plain)) rest
  | abs | powExpr | call => exact plain.elim

/-! ### Differentiation -/

theorem plain_derivative (name : String) (plain : e.Plain named fun _ => True) :
    (e.derivative name).Plain named fun _ => True := by
  induction e with
  | const c | var name i => trivial
  | add l r left right | sub l r left right => exact ⟨left plain.1, right plain.2⟩
  | mul l r left right => exact ⟨⟨plain.1, right plain.2⟩, plain.2, left plain.1⟩
  | div l r left right =>
    exact ⟨⟨⟨plain.2, left plain.1⟩, plain.1, right plain.2⟩, plain.2, trivial⟩
  | neg e inner => exact inner plain
  | pow b n base => exact ⟨⟨trivial, plain.1, trivial⟩, base plain.1⟩
  | powConst b p base =>
    obtain ⟨plain_b, n, rfl, -⟩ := plain
    refine ⟨⟨trivial, plain_b, n - 1, ?_, trivial⟩, base plain_b⟩
    rw [Exact.one_eq]
    exact congrArg Exact.of (by push_cast; rfl)
  | abs e | powExpr b e | call f e => exact plain.elim

theorem plain_slope (name : String) (plain : e.Plain named fun _ => True) :
    (e.slope name).Plain named (· ≠ 0) :=
  plain_simplify _ (plain_derivative name plain)

/-! ### Positions -/

theorem plain_of_allVariables (rational : e.IsRational) (all : e.AllVariables named) :
    e.Plain named fun _ => True := by
  induction e with
  | const c => trivial
  | var name i => exact all
  | add l r left right | sub l r left right | mul l r left right | div l r left right =>
    exact ⟨left rational.1 all.1, right rational.2 all.2⟩
  | neg e inner => exact inner rational all
  | pow b n base => exact ⟨base rational.1 all.2, trivial⟩
  | powConst b p base => exact ⟨base rational.1 all, rational.2⟩
  | abs e | powExpr b e | call f e => exact rational.elim

theorem Plain.allVariables {exponent : Int → Prop} (plain : e.Plain named exponent) :
    e.AllVariables named := by
  induction e with
  | const c => trivial
  | var name i => exact plain
  | add l r left right | sub l r left right | mul l r left right | div l r left right =>
    exact ⟨left plain.1, right plain.2⟩
  | neg e inner => exact inner plain
  | pow b n base => exact ⟨trivial, base plain.1⟩
  | powConst b p base => exact base plain.1
  | abs e | powExpr b e | call f e => exact plain.elim

end Expr

end Plain

end Simultaneous
