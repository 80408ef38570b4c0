import Simultaneous.Proofs.Expr.Makes
import Simultaneous.Proofs.Expr.Simplify
import Simultaneous.Proofs.Formula.Grammar

/-!
The value of what a row of tokens says, and how expressions are made of its operator tree. Exponents
are simplified on the way, and those without unknowns become numbers; a power keeps its value.
-/

namespace Simultaneous

open Formula Scalar

namespace Formula

variable {α : Type} [Scalar α]

def Binary.apply (op : Binary) (x y : α) : α :=
  match op with
  | add => x + y
  | sub => x - y
  | mul => x * y
  | div => x / y
  | exp => Scalar.power x y

def callValue (f : String) (x : α) : α :=
  if f = absName then Scalar.abs x
  else match Elementary.ofName? f with
    | some g => Scalar.apply g x
    | none => undefined

/-- The value of a name: a canonical constant, an unknown by its position in the point, or a value
found before. -/
def nameValue (names : Names α) (point : Nat → α) (s : String) : α :=
  match Expr.ofName names s with
  | .ok e => e.evaluate point
  | .error _ => undefined

def Reading.value (names : Names α) (point : Nat → α) : Reading → α
  | number n => ofNumeral n
  | name s => nameValue names point s
  | call f r => callValue f (r.value names point)
  | bracket r => r.value names point
  | neg r => -r.value names point
  | binary op l r => op.apply (l.value names point) (r.value names point)

def Reading.ExponentsFit (names : Names α) : Reading → Prop
  | number _ | name _ => True
  | call _ r | bracket r | neg r => r.ExponentsFit names
  | binary op l r => l.ExponentsFit names ∧ r.ExponentsFit names ∧
      (op = .exp → ∀ e, Expr.ofNode names r.node = .ok e → Expr.ExponentsFit e)

end Formula

namespace Expr

/-! ### Expressions of trees -/

section Trees

variable {α : Type} [Scalar α] {names : Names α} {n l r : Node} {e : Expr α}

theorem ofNodes_one (n : Node) : ofNodes names [n] = (ofNode names n).map ([·]) := by
  rw [ofNodes, ofNodes]
  cases ofNode names n <;> rfl

theorem ofNode_number (m : Decimal.Numeral) :
    ofNode names (.leaf (.constant (.number m))) = .ok (const (ofNumeral m)) := rfl

theorem ofNode_read (s : String) : ofNode names (.leaf (.read s)) = ofName names s := rfl

theorem ofNode_operation {op : Operator} (no_constant : ∀ c, op ≠ .constant c)
    (no_name : ∀ s, op ≠ .read s) (operands : List Node) : ofNode names (.mk op operands) =
      match shapeFault? op operands with
      | some fault => .error fault
      | none => (ofNodes names operands).bind (ofOperator op) := by
  rw [ofNode]
  · cases shapeFault? op operands with
    | some fault => rfl
    | none => cases ofNodes names operands <;> rfl
  · exact no_constant
  · exact no_name

theorem ofNode_bracket : ofNode names (.mk .root [n]) = ofNode names n := by
  rw [ofNode_operation, ofNodes_one]
  · cases ofNode names n <;> rfl
  · nofun
  · nofun

theorem ofNode_neg_eq_ok : ofNode names (.mk .neg [n]) = .ok e ↔
    ∃ a, ofNode names n = .ok a ∧ neg a = e := by
  rw [ofNode_operation, ofNodes_one]
  · cases ofNode names n <;> simp [shapeFault?, Except.map, Except.bind, ofOperator]
  · nofun
  · nofun

theorem ofNode_call_eq_ok {f : String} : ofNode names (.mk (.call f) [.mk .root [n]]) = .ok e ↔
    ∃ a, ofNode names n = .ok a ∧ ofCall f a = .ok e := by
  rw [ofNode_operation, ofNodes_one, ofNode_bracket]
  · cases ofNode names n <;>
      simp [shapeFault?, argumentCount, Except.map, Except.bind, ofOperator]
  · nofun
  · nofun

theorem ofNode_binary_eq_ok (op : Binary) : ofNode names (.mk op.operator [r, l]) = .ok e ↔
    ∃ a b, ofNode names l = .ok a ∧ ofNode names r = .ok b ∧
      ofOperator op.operator [a, b] = .ok e := by
  have shape : shapeFault? op.operator [r, l] = none := by cases op <;> rfl
  rw [ofNode_operation, shape, ofNodes, ofNodes_one]
  · cases ofNode names l <;> cases ofNode names r <;> simp [Except.map, Except.bind]
  · cases op <;> nofun
  · cases op <;> nofun

theorem ofNode_factor (factor : ofNode names n = .ok e) : ofNode names (.mk .mul [n]) = .ok e := by
  rw [ofNode_operation, ofNodes_one, factor]
  · rfl
  · nofun
  · nofun

end Trees

/-! ### Their values -/

section Values

variable {K : Type} [Field K] [LinearOrder K] {F : Interpretation K}
variable {point : Nat → Exact F.arithmetic} {names : Names (Exact F.arithmetic)}
variable {b x e : Expr (Exact F.arithmetic)} {a c v : K}

theorem evaluate_of_isConstant (constant : e.isConstant) (p q : Nat → Exact F.arithmetic) :
    e.evaluate p = e.evaluate q := by
  induction e with
  | const c => rfl
  | var name i => cases constant
  | add l r left right | sub l r left right | mul l r left right | div l r left right
  | powExpr l r left right =>
    obtain ⟨of_left, of_right⟩ := Bool.and_eq_true_iff.1 constant
    rw [evaluate, evaluate, left of_left, right of_right]
  | abs e inner | pow e n inner | powConst e p inner | call f e inner | neg e inner =>
    rw [evaluate, evaluate, inner constant]

theorem constant?_eq_some {p : Exact F.arithmetic} (constant : e.constant? = some p)
    (value : HasValue point e c) : p = .of c := by
  unfold constant? at constant
  split at constant
  next no_unknowns =>
    rw [← Option.some.inj constant, evaluate_of_isConstant no_unknowns _ point]
    exact value
  next => cases constant

theorem Calls.evaluate {f : String} (calls : Calls x f e) :
    e.evaluate point = callValue f (x.evaluate point) := by
  unfold callValue
  cases calls with
  | absolute =>
    rw [if_pos rfl]
    rfl
  | elementary other known =>
    rw [if_neg other, known]
    rfl

theorem argument_of_callValue {f : String} {y : Exact F.arithmetic} (value : callValue f y = .of v) :
    ∃ a, y = .of a := by
  unfold callValue at value
  split at value
  next =>
    obtain ⟨a, rfl, -⟩ := Exact.abs_eq_of.1 value
    exact ⟨a, rfl⟩
  next =>
    split at value
    next g _ =>
      obtain ⟨a, rfl, -⟩ := Exact.apply_eq_of.1 value
      exact ⟨a, rfl⟩
    next => exact absurd value.symm (Exact.of_ne_undefined v)

theorem operands_of_apply {op : Binary} {y z : Exact F.arithmetic} (value : op.apply y z = .of v) :
    ∃ a c, y = .of a ∧ z = .of c := by
  cases op with
  | add =>
    obtain ⟨a, c, rfl, rfl, -⟩ := Exact.add_eq_of.1 value
    exact ⟨a, c, rfl, rfl⟩
  | sub =>
    obtain ⟨a, c, rfl, rfl, -⟩ := Exact.sub_eq_of.1 value
    exact ⟨a, c, rfl, rfl⟩
  | mul =>
    obtain ⟨a, c, rfl, rfl, -⟩ := Exact.mul_eq_of.1 value
    exact ⟨a, c, rfl, rfl⟩
  | div =>
    obtain ⟨a, c, rfl, rfl, -⟩ := Exact.div_eq_of.1 value
    exact ⟨a, c, rfl, rfl⟩
  | exp =>
    obtain ⟨a, c, rfl, rfl, -⟩ := Exact.power_eq_of.1 value
    exact ⟨a, c, rfl, rfl⟩

variable [IsStrictOrderedRing K]

/-- A power keeps its value, also where it has none, when its exponent is simplified or read as a
number. -/
theorem Raises.evaluate (raises : Raises b x e) (fits : ExponentsFit x)
    (exponent : HasValue point x c) (by_zero : c = 0 → ∃ a, HasValue point b a) :
    e.evaluate point = Scalar.power (b.evaluate point) (x.evaluate point) := by
  have simplified := hasValue_simplify fits c exponent
  rw [show x.evaluate point = .of c from exponent]
  cases raises with
  | unknown _ => rw [Expr.evaluate, show x.simplify.evaluate point = .of c from simplified]
  | number constant =>
    obtain rfl := constant?_eq_some constant simplified
    rfl
  | @short p n constant _ integral short =>
    obtain rfl := constant?_eq_some constant simplified
    obtain ⟨d, same, integral⟩ := Exact.integral?_eq_some.1 integral
    obtain rfl := Exact.of_inj.1 same
    obtain rfl := F.integral?_eq_some.1 integral
    have size : Nat.pow 2 31 = 2147483648 := rfl
    have whole : (Int64.ofInt n).toInt = n := Int64.toInt_ofInt_of_le (by omega) (by omega)
    rw [Expr.evaluate]
    obtain missing | ⟨a, base⟩ := (b.evaluate point).eq_undefined_or_of
    · rw [missing]
      refine Exact.intPower_undefined fun zero => ?_
      have none : n = 0 := by rw [← whole, zero, Int64.toInt_zero]
      obtain ⟨a, value⟩ := by_zero (by rw [none, Int.cast_zero])
      exact Exact.of_ne_undefined a (value.symm.trans missing)
    · rw [base, Exact.intPower_of, F.intPower?_eq, whole, ← F.power_intCast]
      rfl

end Values

end Expr

end Simultaneous
