import Simultaneous.Proofs.Expr.Machine
import Simultaneous.Proofs.Expr.Makes
import Simultaneous.Proofs.Expr.Rules
import Simultaneous.Proofs.Expr.Tree
import Simultaneous.Residual

/-!
Where the variables of an expression are. In an expression of a text every variable is at the position
of its name among the unknowns, and simplification moves none.
-/

namespace Simultaneous

open Formula

variable {α : Type}

def Names.At (names : Names α) (name : String) (i : Nat) : Prop :=
  names.unknowns[i]? = some name

theorem Names.At.lt_length {names : Names α} {name : String} {i : Nat} (at_i : names.At name i) :
    i < names.unknowns.length :=
  (List.getElem?_eq_some_iff.1 at_i).1

namespace Expr

abbrev AllVariables (named : String → Nat → Prop) (e : Expr α) : Prop := e.All named fun _ => True

variable [Scalar α] {named : String → Nat → Prop} {names : Names α} {e : Expr α}

theorem Rewrites.allVariables {w : Reduct α} (step : Rewrites e w) (all : e.AllVariables named) :
    w.expr.AllVariables named := by
  cases step with
  | addFold | subFold | subSame | mulFold | mulZero | zeroMul | divFold | zeroDiv | divSame
  | absFold | powZero | powFold | powConstFold | powExprFold | callFold | callUndefined | negFold =>
    trivial
  | addZero | subZero | mulOne | mulMinusOne | divOne | divMinusOne | powExprConst => exact all.1
  | zeroAdd | zeroSub | oneMul | minusOneMul | powOne => exact all.2
  | mulConstants => exact ⟨trivial, all.2.2⟩
  | mulPowers => exact ⟨trivial, all.1.2⟩
  | mulConst => exact ⟨trivial, all.1⟩
  | mulSame => exact ⟨trivial, all.1⟩
  | powPow => exact ⟨trivial, all.2.2⟩
  | negMul => exact ⟨trivial, all.2⟩
  | addNeg | addKeep | subKeep | mulKeep | divKeep | absAbs | absNeg | absEven | absKeep | powKeep
  | powConstKeep | powExprKeep | expLn | callKeep | negNeg | negKeep => exact all

theorem keptByRules_allVariables (named : String → Nat → Prop) :
    KeptByRules fun e f : Expr α => f.AllVariables named → e.AllVariables named where
  refl _ all := all
  trans first second all := first (second all)
  add left right all := ⟨left all.1, right all.2⟩
  sub left right all := ⟨left all.1, right all.2⟩
  mul left right all := ⟨left all.1, right all.2⟩
  div left right all := ⟨left all.1, right all.2⟩
  powExpr left right all := ⟨left all.1, right all.2⟩
  abs inner := inner
  pow _ base all := ⟨trivial, base all.2⟩
  powConst _ base := base
  call _ inner := inner
  neg inner := inner
  addRule _ _ := (rewrites_addRule _ _).allVariables
  subRule _ _ := (rewrites_subRule _ _).allVariables
  mulRule _ _ := (rewrites_mulRule _ _).allVariables
  divRule _ _ := (rewrites_divRule _ _).allVariables
  absRule _ := (rewrites_absRule _).allVariables
  powRule _ _ := (rewrites_powRule _ _).allVariables
  shortRule b _ n _ all := (rewrites_powRule b n).allVariables ⟨trivial, all⟩
  powConstRule _ _ := (rewrites_powConstRule _ _).allVariables
  powExprRule _ _ := (rewrites_powExprRule _ _).allVariables
  callRule _ _ := (rewrites_callRule _ _).allVariables
  negRule _ := (rewrites_negRule _).allVariables

theorem allVariables_simplify (all : e.AllVariables named) : e.simplify.AllVariables named :=
  (keptByRules_allVariables named).simplify e all

/-! ### Conversion -/

theorem allVariables_ofName {s : String} (made : ofName names s = .ok e) :
    e.AllVariables names.At := by
  unfold ofName at made
  split at made
  next =>
    cases made
    trivial
  next =>
    split at made
    next i position =>
      cases made
      exact getElem?_lastPosition s names.unknowns i position
    next =>
      split at made
      next =>
        cases made
        trivial
      next => cases made

theorem Makes.allVariables {op : Operator} {es : List (Expr α)} (makes : Makes op es e)
    (each : ∀ x ∈ es, x.AllVariables named) : e.AllVariables named := by
  cases makes with
  | add first rest | mul first rest =>
    refine List.foldlRecOn (motive := AllVariables named) rest _ (each first List.mem_cons_self) ?_
    exact fun l left r member => ⟨left, each r (List.mem_cons_of_mem first member)⟩
  | sub l r | div l r => exact ⟨each l (by simp), each r (by simp)⟩
  | @exp b x e raises =>
    have base := each b List.mem_cons_self
    have exponent := each x (List.mem_cons_of_mem b List.mem_cons_self)
    cases raises with
    | unknown => exact ⟨base, allVariables_simplify exponent⟩
    | short => exact ⟨trivial, base⟩
    | number => exact base
  | neg x rest => exact each x List.mem_cons_self
  | @call f x e rest calls =>
    have argument := each x List.mem_cons_self
    cases calls with
    | absolute | elementary => exact argument
  | root => exact each e List.mem_cons_self

mutual

/-- In the expression of an operator tree the variables are at the positions of their names. -/
theorem allVariables_ofNode (n : Node) (e : Expr α) (made : ofNode names n = .ok e) :
    e.AllVariables names.At := by
  cases n with
  | mk op operands =>
    obtain ⟨c, rfl⟩ | ⟨s, rfl⟩ | ⟨no_constant, no_name⟩ := leaf_cases op
    · rw [ofNode] at made
      cases c with
      | number m =>
        cases made
        trivial
      | text s => cases made
      | truth t => cases made
    · rw [ofNode] at made
      exact allVariables_ofName made
    · obtain ⟨-, es, converted, joined⟩ := (ofNode_eq_ok no_constant no_name).1 made
      exact (ofOperator_eq_ok.1 joined).allVariables (allVariables_ofNodes operands es converted)

theorem allVariables_ofNodes (operands : List Node) (es : List (Expr α))
    (made : ofNodes names operands = .ok es) : ∀ e ∈ es, e.AllVariables names.At := by
  cases operands with
  | nil =>
    cases made
    intro e member
    cases member
  | cons last others =>
    obtain ⟨first, e, of_others, of_last, rfl⟩ := ofNodes_cons_eq_ok.1 made
    intro f member
    rcases List.mem_append.1 member with earlier | own
    · exact allVariables_ofNodes others first of_others f earlier
    · rw [List.mem_singleton.1 own]
      exact allVariables_ofNode last e of_last

end

theorem allVariables_ofText {text : String} (made : Expr.ofText names text = .ok e) :
    e.AllVariables names.At := by
  unfold ofText at made
  split at made
  next => cases made
  next node read =>
    split at made
    next => cases made
    next f converted =>
      cases made
      exact allVariables_ofNode node _ converted

theorem allVariables_ofResidual {text : String} (made : Expr.ofResidual names text = .ok e) :
    e.AllVariables names.At := by
  unfold ofResidual at made
  cases written : Expr.ofText names text with
  | error f =>
    rw [written] at made
    cases made
  | ok raw =>
    rw [written] at made
    cases made
    exact allVariables_simplify (allVariables_ofText written)

omit [Scalar α] in
theorem AllVariables.isNear (all : e.AllVariables names.At)
    (few : names.unknowns.length ≤ slotLimit) : e.IsNear :=
  all.imp (fun _ _ at_i => Nat.lt_of_lt_of_le at_i.lt_length few) fun _ kept => kept

end Expr

end Simultaneous
