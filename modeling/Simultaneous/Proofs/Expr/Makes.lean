import Simultaneous.Expr.OfFormula

/-!
What operators make of expressions. A power takes one of three forms, by its simplified exponent; a
call is an absolute value or an elementary function; the other operators join as many operands as
they take. The operator of a tree that becomes an expression is one of these cases, and what is shown
of such trees is shown by them.
-/

namespace Simultaneous.Expr

open Formula Scalar

variable {α : Type} [Scalar α] {b x e : Expr α}

inductive Raises (b x : Expr α) : Expr α → Prop
  | unknown : x.simplify.constant? = none → Raises b x (powExpr b x.simplify)
  | short {p : α} {n : Int} : x.simplify.constant? = some p → special? p = none →
      integral? p = some n → n.natAbs ≤ Nat.pow 2 31 - 1 → Raises b x (pow b (Int64.ofInt n))
  | number {p : α} : x.simplify.constant? = some p → special? p = none →
      (∀ n, integral? p = some n → ¬n.natAbs ≤ Nat.pow 2 31 - 1) → Raises b x (powConst b p)

theorem ofPower_eq_ok : ofPower b x = .ok e ↔ Raises b x e := by
  constructor
  · intro made
    unfold ofPower at made
    simp only at made
    split at made
    next unknown =>
      cases made
      exact .unknown unknown
    next p constant =>
      split at made
      next => cases made
      next regular =>
        split at made
        next n integral =>
          split at made
          next short =>
            cases made
            exact .short constant regular integral short
          next long =>
            cases made
            refine .number constant regular fun m same => ?_
            cases integral.symm.trans same
            exact long
        next broken =>
          cases made
          refine .number constant regular fun m same => ?_
          rw [broken] at same
          cases same
  · intro raises
    cases raises with
    | unknown unknown => simp only [ofPower, unknown]
    | short constant regular integral short =>
      simp only [ofPower, constant, regular, integral, if_pos short]
    | @number p constant regular long =>
      simp only [ofPower, constant, regular]
      cases integral : integral? p with
      | none => rfl
      | some n => exact if_neg (long n integral)

inductive Calls (x : Expr α) : String → Expr α → Prop
  | absolute : Calls x absName (abs x)
  | elementary {f : String} {g : Elementary} : f ≠ absName → Elementary.ofName? f = some g →
      Calls x f (call g x)

omit [Scalar α] in
theorem ofCall_eq_ok {f : String} : ofCall f x = .ok e ↔ Calls x f e := by
  constructor
  · intro made
    unfold ofCall at made
    split at made
    next absolute =>
      cases made
      exact absolute ▸ .absolute
    next other =>
      split at made
      next g known =>
        cases made
        exact .elementary other known
      next => cases made
  · intro calls
    cases calls with
    | absolute => rw [ofCall, if_pos rfl]
    | elementary other known => rw [ofCall, if_neg other, known]

inductive Makes : Operator → List (Expr α) → Expr α → Prop
  | add (first : Expr α) (rest : List (Expr α)) : Makes .add (first :: rest) (rest.foldl add first)
  | mul (first : Expr α) (rest : List (Expr α)) : Makes .mul (first :: rest) (rest.foldl mul first)
  | sub (l r : Expr α) : Makes .sub [l, r] (sub l r)
  | div (l r : Expr α) : Makes .div [l, r] (div l r)
  | exp {b x e : Expr α} : Raises b x e → Makes .exp [b, x] e
  | neg (x : Expr α) (rest : List (Expr α)) : Makes .neg (x :: rest) (neg x)
  | call {f : String} {x e : Expr α} (rest : List (Expr α)) : Calls x f e →
      Makes (.call f) (x :: rest) e
  | root (x : Expr α) : Makes .root [x] x

omit [Scalar α] in
theorem joinTwo_eq_ok {op : Operator} {join : Expr α → Expr α → Except ConversionError (Expr α)}
    {es : List (Expr α)} :
    joinTwo op join es = .ok e ↔ ∃ l r, es = [l, r] ∧ join l r = .ok e := by
  constructor
  · intro joined
    unfold joinTwo at joined
    split at joined
    next l r => exact ⟨l, r, rfl, joined⟩
    next => cases joined
  · rintro ⟨l, r, rfl, joined⟩
    exact joined

theorem ofOperator_eq_ok {op : Operator} {es : List (Expr α)} :
    ofOperator op es = .ok e ↔ Makes op es e := by
  constructor
  · intro made
    cases op with
    | add =>
      cases es with
      | nil => cases made
      | cons first rest =>
        cases made
        exact .add first rest
    | mul =>
      cases es with
      | nil => cases made
      | cons first rest =>
        cases made
        exact .mul first rest
    | sub =>
      obtain ⟨l, r, rfl, ⟨⟩⟩ := joinTwo_eq_ok.1 made
      exact .sub l r
    | div =>
      obtain ⟨l, r, rfl, ⟨⟩⟩ := joinTwo_eq_ok.1 made
      exact .div l r
    | exp =>
      obtain ⟨l, r, rfl, raised⟩ := joinTwo_eq_ok.1 made
      exact .exp (ofPower_eq_ok.1 raised)
    | neg =>
      cases es with
      | nil => cases made
      | cons x rest =>
        cases made
        exact .neg x rest
    | call f =>
      cases es with
      | nil => cases made
      | cons x rest => exact .call rest (ofCall_eq_ok.1 made)
    | root =>
      cases es with
      | nil => cases made
      | cons x rest =>
        cases rest with
        | nil =>
          cases made
          exact .root _
        | cons y others => cases made
    | _ => cases made
  · intro makes
    cases makes with
    | add | mul | sub | div | neg | root => rfl
    | exp raises => exact ofPower_eq_ok.2 raises
    | call rest calls => exact ofCall_eq_ok.2 calls

end Simultaneous.Expr
