import Simultaneous.Proofs.Expr.Printed

/-!
Printed expressions that are read back. The text of an expression becomes an expression again, with
the value of the first wherever that has one. It may be another expression: negative constants become
negations, and an exponent is simplified and may turn out to be a number. An exponent without
unknowns that is no number is refused.
-/

namespace Simultaneous

open Decimal Formula Scalar

/-! ### Numbers -/

section Numbers

variable {K : Type} [Field K] [LinearOrder K] {F : Interpretation K}

theorem ofNumeral_positional (digits : Nat) (exponent : Int) :
    (ofNumeral ⟨false, positionalMagnitude digits exponent⟩ : Exact F.arithmetic) =
      decimal digits exponent := by
  unfold decimal positionalMagnitude
  split
  next whole =>
    simp [ofNumeral, Exact.ofNumeral, whole]
  next => rfl

variable [IsStrictOrderedRing K]

theorem Expr.IsPositional.exists_of {number : Exact F.arithmetic → List Char}
    {c : Exact F.arithmetic} (positional : Expr.IsPositional number c) : ∃ a, c = .of a := by
  obtain ⟨digits, exponent, -, value⟩ := positional
  rw [decimal_eq] at value
  split at value
  next => exact ⟨_, value.trans (Exact.neg_eq_of.2 ⟨_, rfl, rfl⟩)⟩
  next => exact ⟨_, value⟩

end Numbers

theorem Formula.Node.ExponentsFit.inside {α : Type} [Scalar α] {names : Names α} {op : Operator}
    {n : Node} (fits : Node.ExponentsFit names (.mk op [n])) : n.ExponentsFit names := by
  cases fits with
  | mk operands _ => exact operands n (List.mem_singleton_self n)

theorem Formula.Reading.exponentsFit_of_node {α : Type} [Scalar α] {names : Names α} {r : Reading}
    (fits : r.node.ExponentsFit names) : r.ExponentsFit names := by
  induction r with
  | number n | name s => trivial
  | call f r ih => exact ih fits.inside.inside
  | bracket r ih | neg r ih => exact ih fits.inside
  | binary op l r left right =>
    cases fits with
    | mk operands exponent =>
      refine ⟨left (operands _ (by simp)), right (operands _ (by simp)), fun power e made => ?_⟩
      refine exponent ?_ r.node rfl e made
      rw [power]
      rfl

namespace Expr

section Conversion

variable {α : Type} [Scalar α] {names : Names α} {number : α → List Char}

theorem ofNode_infixed_eq_ok {op : Formula.Binary} {l r : Reading} {f : Expr α} :
    ofNode names (Reading.bracket (.binary op l r)).node = .ok f ↔
      ∃ x y, ofNode names l.node = .ok x ∧ ofNode names r.node = .ok y ∧
        ofOperator op.operator [x, y] = .ok f := by
  rw [Reading.node, ofNode_bracket, Reading.node]
  exact ofNode_binary_eq_ok op

theorem exists_ofNode_operation {op : Formula.Binary} {l r : Reading} (other : op ≠ .exp)
    (left : ∃ x : Expr α, ofNode names l.node = .ok x)
    (right : ∃ y : Expr α, ofNode names r.node = .ok y) :
    ∃ f : Expr α, ofNode names (Reading.bracket (.binary op l r)).node = .ok f := by
  obtain ⟨x, left⟩ := left
  obtain ⟨y, right⟩ := right
  obtain ⟨f, joined⟩ : ∃ f, ofOperator op.operator [x, y] = .ok f := by
    cases op with
    | exp => exact absurd rfl other
    | _ => exact ⟨_, rfl⟩
  exact ⟨f, ofNode_infixed_eq_ok.2 ⟨x, y, left, right, joined⟩⟩

theorem exists_ofNode_signed (names : Names α) (negative : Bool) (n : Numeral) :
    ∃ x : Expr α, ofNode names (signedReading negative n).node = .ok x ∧ ∀ point,
      x.evaluate point = if negative then -ofNumeral n else ofNumeral n := by
  cases negative with
  | false => exact ⟨_, ofNode_number n, fun _ => rfl⟩
  | true =>
    exact ⟨_, ofNode_bracket.trans (ofNode_neg_eq_ok.2 ⟨_, ofNode_number n, rfl⟩), fun _ => rfl⟩

theorem known_signed (negative : Bool) (n : Numeral) (unknowns : List String) :
    (signedReading negative n).Known unknowns := by
  cases negative <;> trivial

/-- What is printed names unknowns and calls functions only. -/
theorem known_reading {unknowns : List String} {e : Expr α}
    (printable : e.IsPrintable number unknowns) : (e.reading number).Known unknowns := by
  induction e with
  | const c => exact known_signed _ _ _
  | var name i =>
    exact .inr ((lastPosition?_isSome name unknowns).1 (by rw [printable.2.2]; rfl))
  | add l r left right | sub l r left right | mul l r left right | div l r left right
  | powExpr l r left right => exact ⟨left printable.1, right printable.2⟩
  | abs e inner => exact ⟨.inr rfl, inner printable⟩
  | pow b n inner => exact ⟨inner printable, known_signed _ _ _⟩
  | powConst b p inner => exact ⟨inner printable.1, known_signed _ _ _⟩
  | call f e inner =>
    refine ⟨.inl ?_, inner printable⟩
    rw [Elementary.ofName?_name]
    rfl
  | neg e inner => exact inner printable

theorem ofName_of_printable {s : String} {i : Nat} (unknown : Line.IsUnknownName s)
    (position : lastPosition? s names.unknowns = some i) : ofName names s = .ok (var s i) := by
  have no_constant : (Scalar.constant? s : Option α) = none := by
    cases constant : (Scalar.constant? s : Option α) with
    | none => rfl
    | some c => exact absurd (mem_constantNames_of_constant? constant) unknown.no_constant
  rw [ofName, no_constant, position]

omit [Scalar α] in
theorem ofCall_name (f : Elementary) (e : Expr α) : ofCall f.name e = .ok (call f e) := by
  have other : f.name ≠ absName := by cases f <;> decide
  exact ofCall_eq_ok.2 (.elementary other (Elementary.ofName?_name f))

end Conversion

section Values

variable {K : Type} [Field K] [LinearOrder K] {F : Interpretation K}
variable {names : Names (Exact F.arithmetic)} {number : Exact F.arithmetic → List Char}
variable {e f : Expr (Exact F.arithmetic)}

theorem IsPositional.exists_ofNode (names : Names (Exact F.arithmetic)) {c : Exact F.arithmetic}
    (positional : IsPositional number c) :
    ∃ x, ofNode names (signedReading (lt c zero) (numeral number c)).node = .ok x ∧
      ∀ point, x.evaluate point = c := by
  obtain ⟨digits, exponent, text, value⟩ := positional
  obtain ⟨x, made, same⟩ := exists_ofNode_signed names (lt c zero) (numeral number c)
  refine ⟨x, made, fun point => ?_⟩
  rw [same point, numeral_eq text, ofNumeral_positional]
  exact value.symm

theorem exists_ofNode_integer (names : Names (Exact F.arithmetic)) (n : Int) :
    ∃ x, ofNode names (signedReading (n < 0) (.ofNat n.natAbs)).node = .ok x ∧
      ∀ point, HasValue point x (n : K) := by
  obtain ⟨x, made, same⟩ := exists_ofNode_signed names (n < 0) (.ofNat n.natAbs)
  refine ⟨x, made, fun point => ?_⟩
  rw [HasValue, same point, ofNumeral_natural]
  by_cases negative : n < 0
  · have magnitude : n = -(n.natAbs : Int) := by omega
    rw [decide_eq_true negative, if_pos rfl]
    refine Exact.neg_eq_of.2 ⟨_, rfl, ?_⟩
    rw [← Int.cast_natCast, ← Int.cast_neg, ← magnitude]
  · have magnitude : (n.natAbs : Int) = n := by omega
    rw [decide_eq_false negative, if_neg Bool.false_ne_true, ← Int.cast_natCast, magnitude]

/-! ### Values -/

variable [IsStrictOrderedRing K] {point : Nat → Exact F.arithmetic} {a c v : K}

theorem hasValue_of_operation {op : Formula.Binary} {p q : Reading} {y z : Exact F.arithmetic}
    (fits : (Reading.binary op p q).ExponentsFit names)
    (made : ofNode names (Reading.bracket (.binary op p q)).node = .ok f)
    (left : ∀ {g}, ofNode names p.node = .ok g → ∀ a, y = .of a → HasValue point g a)
    (right : ∀ {h}, ofNode names q.node = .ok h → ∀ c, z = .of c → HasValue point h c)
    (value : op.apply y z = .of v) : HasValue point f v := by
  obtain ⟨g, h, of_left, of_right, joined⟩ := ofNode_infixed_eq_ok.1 made
  obtain ⟨a, c, rfl, rfl⟩ := operands_of_apply value
  have left : g.evaluate point = .of a := left of_left a rfl
  have right : h.evaluate point = .of c := right of_right c rfl
  have value : op.operator.apply ([g, h].map (·.evaluate point)) = .of v := by
    rw [List.map_cons, List.map_singleton, left, right, ← value]
    cases op <;> rfl
  refine hasValue_of_apply (fun power x last => ?_) value joined
  cases last
  have power : op = .exp := by cases op <;> first | rfl | cases power
  exact fits.2.2 power h of_right

/-- What is read back has the value of what was printed, wherever that has one. -/
theorem hasValue_of_reading_back (printable : e.IsPrintable number names.unknowns)
    (fits : (e.reading number).ExponentsFit names)
    (made : ofNode names (e.reading number).node = .ok f) :
    ∀ v, HasValue point e v → HasValue point f v := by
  induction e generalizing f with
  | const c =>
    obtain ⟨x, same, value⟩ := IsPositional.exists_ofNode names printable
    obtain rfl := Except.ok.inj (same.symm.trans made)
    exact fun v has => (value point).trans has
  | var name i =>
    have same := ofName_of_printable printable.1 printable.2.2
    rw [reading, Reading.node, ofNode_read, same] at made
    cases made
    exact fun v has => has
  | add l r left right | sub l r left right | mul l r left right | div l r left right
  | powExpr l r left right =>
    exact fun v has =>
      hasValue_of_operation fits made (left printable.1 fits.1) (right printable.2 fits.2.1) has
  | abs e inner =>
    intro v has
    obtain ⟨a, of_argument, absolute⟩ := hasValue_abs.1 has
    obtain ⟨e', made_argument, called⟩ := ofNode_call_eq_ok.1 made
    cases called
    exact hasValue_abs.2 ⟨a, inner printable fits made_argument a of_argument, absolute⟩
  | call g e inner =>
    intro v has
    obtain ⟨a, of_argument, result⟩ := hasValue_call.1 has
    obtain ⟨e', made_argument, called⟩ := ofNode_call_eq_ok.1 made
    rw [ofCall_name] at called
    cases called
    exact hasValue_call.2 ⟨a, inner printable fits made_argument a of_argument, result⟩
  | neg e inner =>
    intro v has
    obtain ⟨a, of_operand, negated⟩ := hasValue_neg.1 has
    obtain ⟨e', made_operand, rfl⟩ := ofNode_neg_eq_ok.1 made
    exact hasValue_neg.2 ⟨a,
      inner printable fits (ofNode_bracket.symm.trans made_operand) a of_operand, negated⟩
  | pow b n inner =>
    intro v has
    obtain ⟨y, made_exponent, exponent⟩ := exists_ofNode_integer names n.toInt
    rcases hasValue_pow.1 has with ⟨rfl, rfl⟩ | ⟨a, of_base, power⟩
    · -- a power by zero is one, also where its base has no value
      obtain ⟨g, x, -, of_exponent, joined⟩ := ofNode_infixed_eq_ok.1 made
      obtain rfl := Except.ok.inj ((ofNode_numeral 0).symm.trans of_exponent)
      obtain rfl := Except.ok.inj ((ofPower_natural g (Nat.zero_le _)).symm.trans joined)
      exact hasValue_pow.2 (.inl ⟨rfl, rfl⟩)
    · have power : Scalar.power (b.evaluate point) (.of (n.toInt : K)) = .of v :=
        Exact.power_eq_of.2 ⟨a, n.toInt, of_base, rfl,
          (F.power_intCast a n.toInt).trans ((F.intPower?_eq a n.toInt).symm.trans power)⟩
      refine hasValue_of_operation fits made (inner printable fits.1) (fun {z} same c finite => ?_)
        power
      obtain rfl := Except.ok.inj (made_exponent.symm.trans same)
      exact (exponent point).trans finite
  | powConst b p inner =>
    intro v has
    obtain ⟨y, made_exponent, exponent⟩ := IsPositional.exists_ofNode names printable.2
    refine hasValue_of_operation fits made (inner printable.1 fits.1) (fun {z} same c finite => ?_) has
    obtain rfl := Except.ok.inj (made_exponent.symm.trans same)
    exact (exponent point).trans finite

/-! ### Acceptance -/

omit [IsStrictOrderedRing K] in
def ExponentsDefined (point : Nat → Exact F.arithmetic) : Expr (Exact F.arithmetic) → Prop
  | const _ | var _ _ => True
  | add l r | mul l r | sub l r | div l r =>
    l.ExponentsDefined point ∧ r.ExponentsDefined point
  | abs e | pow e _ | powConst e _ | call _ e | neg e => e.ExponentsDefined point
  | powExpr b e =>
    b.ExponentsDefined point ∧ e.ExponentsDefined point ∧ ∃ c, HasValue point e c

theorem exists_ofNode_power {b x : Reading}
    (simplifies : ∀ y, ofNode names x.node = .ok y → ExponentsFit y)
    {g y : Expr (Exact F.arithmetic)} (base : ofNode names b.node = .ok g)
    (exponent : ofNode names x.node = .ok y) (value : HasValue point y c) :
    ∃ f, ofNode names (Reading.bracket (.binary .exp b x)).node = .ok f := by
  obtain ⟨f, joined⟩ := exists_ofPower (simplifies y exponent) value g
  exact ⟨f, ofNode_infixed_eq_ok.2 ⟨g, y, base, exponent, joined⟩⟩

/-- What is printed is read back where its exponents have values. -/
theorem exists_ofNode_reading (printable : e.IsPrintable number names.unknowns)
    (fits : (e.reading number).ExponentsFit names) (defined : e.ExponentsDefined point) :
    ∃ f, ofNode names (e.reading number).node = .ok f := by
  induction e with
  | const c =>
    obtain ⟨x, made, -⟩ := IsPositional.exists_ofNode names printable
    exact ⟨x, made⟩
  | var name i =>
    exact ⟨_, (ofNode_read name).trans (ofName_of_printable printable.1 printable.2.2)⟩
  | add l r left right | sub l r left right | mul l r left right | div l r left right =>
    exact exists_ofNode_operation (by decide) (left printable.1 fits.1 defined.1)
      (right printable.2 fits.2.1 defined.2)
  | abs e inner =>
    obtain ⟨x, made⟩ := inner printable fits defined
    exact ⟨abs x, ofNode_call_eq_ok.2 ⟨x, made, rfl⟩⟩
  | call g e inner =>
    obtain ⟨x, made⟩ := inner printable fits defined
    exact ⟨call g x, ofNode_call_eq_ok.2 ⟨x, made, ofCall_name g x⟩⟩
  | neg e inner =>
    obtain ⟨x, made⟩ := inner printable fits defined
    exact ⟨neg x, ofNode_neg_eq_ok.2 ⟨x, ofNode_bracket.trans made, rfl⟩⟩
  | pow b n inner =>
    obtain ⟨g, base⟩ := inner printable fits.1 defined
    obtain ⟨y, exponent, value⟩ := exists_ofNode_integer names n.toInt
    exact exists_ofNode_power (fits.2.2 rfl) base exponent (value point)
  | powConst b p inner =>
    obtain ⟨g, base⟩ := inner printable.1 fits.1 defined
    obtain ⟨y, exponent, value⟩ := IsPositional.exists_ofNode names printable.2
    obtain ⟨c, finite⟩ := printable.2.exists_of
    exact exists_ofNode_power (fits.2.2 rfl) base exponent ((value point).trans finite)
  | powExpr b e of_base of_exponent =>
    obtain ⟨c, value⟩ := defined.2.2
    obtain ⟨g, base⟩ := of_base printable.1 fits.1 defined.1
    obtain ⟨y, exponent⟩ := of_exponent printable.2 fits.2.1 defined.2.1
    exact exists_ofNode_power (fits.2.2 rfl) base exponent
      (hasValue_of_reading_back printable.2 fits.2.1 exponent c value)

end Values

section Main

variable {K : Type} [Field K] [LinearOrder K] [IsStrictOrderedRing K] {F : Interpretation K}

/-- The text of an expression is read back, and conversion refuses nothing but an exponent that is no
number. As long as no integer exponent leaves its range while the exponents are simplified, the text is
accepted if at some point every exponent has a value, and what is made of it has the value of the
expression wherever that has one. -/
theorem printed_text_is_read_back {names : Names (Exact F.arithmetic)}
    {number : Exact F.arithmetic → List Char} {e : Expr (Exact F.arithmetic)}
    (printable : e.IsPrintable number names.unknowns) (bases : e.NoNegatedBase) :
    ∃ tree, Formula.read (String.ofList (e.chars number)) = .ok tree ∧
      OnlyExponentFails (ofNode names tree) ∧
      (tree.ExponentsFit names →
        (∀ point, e.ExponentsDefined point → ∃ f, ofNode names tree = .ok f) ∧
        ∀ f, ofNode names tree = .ok f → ∀ point v, e.evaluate point = .of v →
          f.evaluate point = .of v) := by
  refine ⟨_, read_chars printable bases, ?_, fun fits => ⟨fun point defined => ?_, ?_⟩⟩
  · rw [ofNode_bracket]
    exact ofNode_onlyExponentFails (known_reading printable) fun _ => id
  · rw [ofNode_bracket]
    exact exists_ofNode_reading printable (Reading.exponentsFit_of_node fits.inside) defined
  · intro f made point v value
    rw [ofNode_bracket] at made
    exact hasValue_of_reading_back printable (Reading.exponentsFit_of_node fits.inside) made v value

end Main

section Example

def wholeText (c : Exact Interpretation.rational.arithmetic) : List Char :=
  integerText (c.value?.getD 0).num

theorem isPositional_whole (n : Int) : IsPositional wholeText (.of (n : ℚ)) := by
  have negative : lt (.of (n : ℚ) : Exact Interpretation.rational.arithmetic) zero =
      decide (n < 0) := by
    have compared : lt (.of (n : ℚ) : Exact Interpretation.rational.arithmetic) zero =
      decide ((n : ℚ) < ((0 : Int) : ℚ)) := rfl
    rw [compared, decide_eq_decide, Int.cast_lt]
  refine ⟨n.natAbs, 0, ?_, ?_⟩
  · rw [negative, wholeText, Exact.of, Option.getD_some, Rat.num_intCast, integerText, positional,
      if_pos (le_refl 0), Int.toNat_zero, List.replicate_zero, List.append_nil]
  · rw [negative, decimal_eq, zpow_zero, mul_one, ← Int.cast_natCast]
    by_cases below : n < 0
    · have magnitude : -(n.natAbs : Int) = n := by omega
      rw [decide_eq_true below, if_pos rfl]
      exact (Exact.neg_eq_of.2 ⟨_, rfl, by rw [← Int.cast_neg, magnitude]⟩).symm
    · have magnitude : (n.natAbs : Int) = n := by omega
      rw [decide_eq_false below, if_neg Bool.false_ne_true, magnitude]

theorem isUnknownName_x : Line.IsUnknownName "x" :=
  ⟨_, _, _, plus_accepted, List.mem_singleton_self _⟩

def onlyX : Names (Exact Interpretation.rational.arithmetic) := ⟨["x"], []⟩

theorem isPrintable_x (number : Exact Interpretation.rational.arithmetic → List Char) :
    (var "x" 0).IsPrintable number onlyX.unknowns :=
  ⟨isUnknownName_x, by decide, rfl⟩

theorem exponentsFit_of_ofNat {n : Nat} {y : Expr (Exact Interpretation.rational.arithmetic)}
    (made : ofNode onlyX (Reading.number (.ofNat n)).node = .ok y) : ExponentsFit y := by
  obtain rfl := Except.ok.inj ((ofNode_numeral n).symm.trans made)
  exact .const _

def completed : Expr (Exact Interpretation.rational.arithmetic) :=
  sub (pow (var "x" 0) 2) (mul (const (.of (-2))) (neg (var "x" 0)))

theorem completed_is_read_back :
    completed.chars wholeText = "((x^2) - ((-2) * -(x)))".toList ∧
      ∃ tree, Formula.read "((x^2) - ((-2) * -(x)))" = .ok tree ∧
        ∃ f, ofNode onlyX tree = .ok f ∧ f.evaluate (fun _ => .of 3) = .of 3 := by
  have text : completed.chars wholeText = "((x^2) - ((-2) * -(x)))".toList := by decide +kernel
  have printable : completed.IsPrintable wholeText onlyX.unknowns :=
    ⟨isPrintable_x wholeText, isPositional_whole (-2), isPrintable_x wholeText⟩
  have bases : completed.NoNegatedBase := ⟨⟨rfl, trivial⟩, trivial, trivial⟩
  have own : (completed.reading wholeText).ExponentsFit onlyX :=
    ⟨⟨trivial, trivial, fun _ _ => exponentsFit_of_ofNat⟩, ⟨trivial, trivial, nofun⟩, nofun⟩
  obtain ⟨tree, read, -, back⟩ := printed_text_is_read_back printable bases
  have fits : tree.ExponentsFit onlyX := by
    obtain rfl := Except.ok.inj ((read_chars printable bases).symm.trans read)
    exact Reading.ExponentsFit.node (r := .bracket (completed.reading wholeText)) own
  obtain ⟨accepted, values⟩ := back fits
  have at_three : completed.evaluate (fun _ => .of 3) = .of (3 : ℚ) := by decide +kernel
  obtain ⟨f, made⟩ := accepted (fun _ => .of 3) ⟨trivial, trivial, trivial⟩
  rw [text, String.ofList_toList] at read
  exact ⟨text, tree, read, f, made, values f made _ _ at_three⟩

def powerOfQuotient : Expr (Exact Interpretation.rational.arithmetic) :=
  powExpr (var "x" 0) (div (const (.of 1)) (const (.of 0)))

theorem printable_powerOfQuotient : powerOfQuotient.IsPrintable wholeText onlyX.unknowns :=
  ⟨isPrintable_x wholeText, isPositional_whole 1, isPositional_whole 0⟩

theorem noNegatedBase_powerOfQuotient : powerOfQuotient.NoNegatedBase :=
  ⟨rfl, trivial, trivial, trivial⟩

theorem ofPower_quotient (b : Expr (Exact Interpretation.rational.arithmetic)) :
    ofPower b (div (const (.of 1)) (const (.of 0))) = .error (.exponent .undefined) := by
  have simplified : (div (const (.of 1)) (const (.of 0)) :
      Expr (Exact Interpretation.rational.arithmetic)).simplify =
        div (const (.of 1)) (const (.of 0)) := by
    rw [simplify_div, simplify_const, simplify_const]
    rfl
  have constant : (div (const (.of 1)) (const (.of 0)) :
      Expr (Exact Interpretation.rational.arithmetic)).constant? = some .undefined := by
    rfl
  have special : special? (.undefined : Exact Interpretation.rational.arithmetic) =
      some .undefined := rfl
  simp only [ofPower, simplified, constant, special]

/-- An exponent that is a quotient by zero is printed, but not accepted again. -/
theorem power_of_quotient_is_refused :
    ¬∃ tree, Formula.read (String.ofList (powerOfQuotient.chars wholeText)) = .ok tree ∧
      ∃ f, ofNode onlyX tree = .ok f := by
  rintro ⟨tree, read, f, made⟩
  obtain rfl := Except.ok.inj
    ((read_chars printable_powerOfQuotient noNegatedBase_powerOfQuotient).symm.trans read)
  obtain ⟨b, x, -, exponent, joined⟩ := ofNode_infixed_eq_ok.1 (ofNode_bracket.symm.trans made)
  obtain ⟨l, r, left, right, rfl⟩ : ∃ l r,
      ofNode onlyX (signedReading false (numeral wholeText (.of 1))).node = .ok l ∧
      ofNode onlyX (signedReading false (numeral wholeText (.of 0))).node = .ok r ∧
      x = div l r := by
    obtain ⟨l, r, left, right, divided⟩ := ofNode_infixed_eq_ok.1 exponent
    cases divided
    exact ⟨l, r, left, right, rfl⟩
  have one : numeral wholeText (.of 1) = .ofNat 1 := by decide +kernel
  have none : numeral wholeText (.of 0) = .ofNat 0 := by decide +kernel
  rw [one] at left
  rw [none] at right
  obtain rfl := Except.ok.inj ((ofNode_numeral 1).symm.trans left)
  obtain rfl := Except.ok.inj ((ofNode_numeral 0).symm.trans right)
  cases (ofPower_quotient b).symm.trans joined

def squareOfNegation : Expr (Exact Interpretation.rational.arithmetic) := pow (neg (var "x" 0)) 2

theorem square_of_negation_is_negated :
    ∃ tree, Formula.read (String.ofList (squareOfNegation.chars wholeText)) = .ok tree ∧
      tree.ExponentsFit onlyX ∧ ofNode onlyX tree = .ok (neg (pow (var "x" 0) 2)) := by
  refine ⟨_, read_power_of_negation 2 (isPrintable_x wholeText) trivial, ?_, ?_⟩
  · exact Reading.ExponentsFit.node (r := .bracket (.bracket (.neg (.binary .exp
      (.bracket (.name "x")) (.number (.ofNat 2))))))
      ⟨trivial, trivial, fun _ _ => exponentsFit_of_ofNat⟩
  · have base : ofNode onlyX (Reading.bracket (.name "x")).node =
        .ok (var "x" 0 : Expr (Exact Interpretation.rational.arithmetic)) :=
      ofNode_bracket.trans (ofNode_read "x")
    have power := (ofNode_binary_eq_ok .exp).2
      ⟨_, _, base, ofNode_numeral 2, ofPower_natural (var "x" 0) (by decide)⟩
    exact ofNode_bracket.trans (ofNode_bracket.trans (ofNode_neg_eq_ok.2 ⟨_, power, rfl⟩))

/-- What is printed need not be accepted again, even if no negation is the base of a power: an exponent
without a finite value is refused. What is accepted need not have the same value if one is. -/
theorem printed_text_may_be_read_otherwise :
    (¬∀ (names : Names (Exact Interpretation.rational.arithmetic))
        (number : Exact Interpretation.rational.arithmetic → List Char)
        (e : Expr (Exact Interpretation.rational.arithmetic)),
      e.IsPrintable number names.unknowns → e.NoNegatedBase →
      ∃ tree, Formula.read (String.ofList (e.chars number)) = .ok tree ∧
        ∃ f, ofNode names tree = .ok f) ∧
    ¬∀ (names : Names (Exact Interpretation.rational.arithmetic))
        (number : Exact Interpretation.rational.arithmetic → List Char)
        (e : Expr (Exact Interpretation.rational.arithmetic)),
      e.IsPrintable number names.unknowns →
      ∀ tree, Formula.read (String.ofList (e.chars number)) = .ok tree → tree.ExponentsFit names →
        ∀ f, ofNode names tree = .ok f → ∀ point v, e.evaluate point = .of v →
          f.evaluate point = .of v := by
  constructor
  · intro accept
    exact power_of_quotient_is_refused
      (accept onlyX wholeText _ printable_powerOfQuotient noNegatedBase_powerOfQuotient)
  · intro same
    obtain ⟨tree, read, fits, made⟩ := square_of_negation_is_negated
    have negated := same onlyX wholeText squareOfNegation (isPrintable_x wholeText) tree read fits _
      made (fun _ => .of 3) 9 (by decide +kernel)
    exact absurd negated (by decide +kernel)

end Example

end Expr

end Simultaneous
