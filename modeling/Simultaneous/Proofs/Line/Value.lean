import Simultaneous.Proofs.Expr.Tree
import Simultaneous.Proofs.Line.Typed
import Simultaneous.Residual

/-!
The value of a residual. Where both sides of a line are rows that the grammar reads, the expression of
the residual has the value of the left side less that of the right side. The grammar has a minus for a
sign but no plus: a plus after an operator is read as the operator of a sum whose left operand is what
came before, so such a residual has another value.
-/

namespace Simultaneous

open Formula Line Scalar

/-- What a side of a line says by the usual precedence. -/
def States (mode : AngleMode) (side : List Char) (r : Reading) : Prop :=
  ∃ ts, Typed mode .opener (bare side) ts ∧ Reads .sum ts r

/-! ### Residuals as differences -/

def difference (l r : Reading) : Reading :=
  .binary .sub l (.binary .mul (.number (.ofNat 1)) (.bracket r))

def residualRow (ts us : List Formula.Token) : List Formula.Token :=
  ts ++ (.minus :: .number (.ofNat 1) :: .star :: .opener :: (us ++ [.closer]))

theorem reads_residualRow {ts us : List Formula.Token} {l r : Reading} (left : Reads .sum ts l)
    (right : Reads .sum us r) : Reads .sum (residualRow ts us) (difference l r) := by
  have one : Reads .product [.number (.ofNat 1)] (.number (.ofNat 1)) :=
    .lift .signed (.lift .power (.lift .operand (.number _)))
  have bracket : Reads .signed (.opener :: (us ++ [.closer])) (.bracket r) :=
    .lift .power (.lift .operand (.bracket right))
  exact .binary .sub left (.binary .mul one bracket)

theorem spelled_inserted : Spelled inserted [.minus, .number (.ofNat 1), .star, .opener] := by
  have value : Decimal.Numeral.read? ['1'] = some (.ofNat 1) := by decide
  have one : IsMantissa ['1'] := .whole ⟨by simp, by simp⟩
  exact .cons (.mark rfl (by simp)) (.cons (one.spelling value)
    (.cons (.mark rfl (by simp)) (.single (.mark rfl (by simp)))))

section Line

variable {mode : AngleMode} {line : String} {equation : LineEquation} {left right : List Char}

theorem spelled_residual (accepted : LineEquation.ofLine mode line = .ok (some equation))
    (sides : line.toList = left ++ '=' :: right) {ts us : List Formula.Token}
    (left_typed : Typed mode .opener (bare left) ts)
    (right_typed : Typed mode .opener (bare right) us) :
    ∃ s, Spelled s (residualRow ts us) ∧ equation.residual = String.ofList s := by
  obtain ⟨a, b, spelled_left, spelled_right, residual⟩ :=
    residual_of_typed accepted sides left_typed right_typed
  have closing : Spelled [')'] [.closer] := .single (.mark rfl (by simp))
  exact ⟨_, spelled_left.append (spelled_inserted.append (spelled_right.append closing)), residual⟩

/-- The operator tree of the residual of a line is that of the difference of its sides. -/
theorem read_residual (accepted : LineEquation.ofLine mode line = .ok (some equation))
    (sides : line.toList = left ++ '=' :: right) {l r : Reading} (left_states : States mode left l)
    (right_states : States mode right r) :
    Formula.read equation.residual = .ok (.mk .root [(difference l r).node]) := by
  obtain ⟨ts, left_typed, reads_left⟩ := left_states
  obtain ⟨us, right_typed, reads_right⟩ := right_states
  obtain ⟨s, spelled, residual⟩ := spelled_residual accepted sides left_typed right_typed
  rw [residual]
  exact read_of_reads spelled (reads_residualRow reads_left reads_right)

end Line

theorem ofText_eq_ok {α : Type} [Scalar α] {names : Names α} {text : String} {n : Node} {e : Expr α}
    (tree : Formula.read text = .ok (.mk .root [n])) :
    Expr.ofText names text = .ok e ↔ Expr.ofNode names n = .ok e := by
  rw [Expr.ofText, tree]
  simp only [Expr.ofNode_bracket]
  cases Expr.ofNode names n <;> simp

/-! ### Their values -/

section Value

variable {K : Type} [Field K] [LinearOrder K] {F : Interpretation K}
variable {names : Names (Exact F.arithmetic)} {point : Nat → Exact F.arithmetic}

theorem ofNumeral_natural (n : Nat) : (ofNumeral (.ofNat n) : Exact F.arithmetic) = .of (n : K) := by
  simp [ofNumeral, Exact.ofNumeral, Decimal.Numeral.ofNat]

theorem ofNode_numeral (n : Nat) :
    Expr.ofNode names (Reading.number (.ofNat n)).node = .ok (.const (.of (n : K))) := by
  rw [Reading.node, Expr.ofNode_number, ofNumeral_natural]

theorem ofPower_natural (b : Expr (Exact F.arithmetic)) {n : Nat} (small : n ≤ 2 ^ 31 - 1) :
    Expr.ofPower b (.const (.of (n : K))) = .ok (.pow b (Int64.ofInt n)) := by
  have integral : Scalar.integral? (.of (n : K) : Exact F.arithmetic) = some (n : Int) :=
    Exact.integral?_eq_some.2 ⟨_, rfl, F.integral?_eq_some.2 (by norm_cast)⟩
  have constant : (Expr.const (.of (n : K)) : Expr (Exact F.arithmetic)).constant? =
      some (.of (n : K)) := rfl
  have regular : Scalar.special? (.of (n : K) : Exact F.arithmetic) = none := rfl
  refine Expr.ofPower_eq_ok.2 (.short ?_ regular integral small)
  rw [Expr.simplify_const, constant]

theorem ofPower_two (b : Expr (Exact F.arithmetic)) :
    Expr.ofPower b (.const (.of ((2 : Nat) : K))) = .ok (.pow b 2) :=
  ofPower_natural b (by decide)

theorem value_difference {l r : Reading} {v w : K} (left : l.value names point = .of v)
    (right : r.value names point = .of w) : (difference l r).value names point = .of (v - w) := by
  have one : (ofNumeral (.ofNat 1) : Exact F.arithmetic) = .of 1 := by
    rw [ofNumeral_natural, Nat.cast_one]
  have product : (ofNumeral (.ofNat 1) : Exact F.arithmetic) * r.value names point = .of w :=
    Exact.mul_eq_of.2 ⟨1, w, one, right, one_mul w⟩
  exact Exact.sub_eq_of.2 ⟨v, w, left, product, rfl⟩

variable [IsStrictOrderedRing K]

/-- Where both sides of an accepted line have values by the usual reading, the expression of its
residual has their difference for its value. -/
theorem residual_value {mode : AngleMode} {line : String} {equation : LineEquation}
    (accepted : LineEquation.ofLine mode line = .ok (some equation)) {left right : List Char}
    (sides : line.toList = left ++ '=' :: right) {l r : Reading} (left_states : States mode left l)
    (right_states : States mode right r) {e : Expr (Exact F.arithmetic)}
    (converts : Expr.ofText names equation.residual = .ok e) (left_fits : l.ExponentsFit names)
    (right_fits : r.ExponentsFit names) {v w : K} (left_value : l.value names point = .of v)
    (right_value : r.value names point = .of w) : e.evaluate point = .of (v - w) := by
  have tree := read_residual accepted sides left_states right_states
  have fits : (difference l r).ExponentsFit names :=
    ⟨left_fits, ⟨trivial, right_fits, nofun⟩, nofun⟩
  exact Expr.hasValue_of_reading fits (value_difference left_value right_value)
    ((ofText_eq_ok tree).1 converts)

end Value

/-! ### A line with signs -/

section SignedLine

variable {mode : AngleMode} {t : Formula.Token} {c : Char} {s : List Char} {ts : List Formula.Token}

theorem typed_digit {n : Decimal.Numeral} (no_operand : t.endsOperand = false) (digit : c.isDigit)
    (value : Decimal.Numeral.read? [c] = some n) (later : Typed mode (.number n) s ts) :
    Typed mode t (c :: s) (.number n :: ts) := by
  have digits : AreDigits [c] := ⟨List.cons_ne_nil c [], by simp [digit]⟩
  exact .number no_operand (.whole digits) value later

theorem typed_letter {x : String} (no_operand : t.endsOperand = false) (letter : c.isLower)
    (no_function : canonicalFunction? (String.ofList (Name.internalChars [c])) = none)
    (name : residualName [c] = x) (no_literal : Text.lower x.toList ∉ literalWords)
    (later : Typed mode (.identifier x) s ts) : Typed mode t (c :: s) (.identifier x :: ts) := by
  subst name
  exact .name (w := [c]) no_operand ⟨letter, by simp [letter]⟩ no_function no_literal later

theorem states_digit (c : Char) {n : Decimal.Numeral} (alone : bare s = [c]) (digit : c.isDigit)
    (value : Decimal.Numeral.read? [c] = some n) : States mode s (.number n) :=
  ⟨_, alone ▸ typed_digit rfl digit value .nil,
    .lift .product (.lift .signed (.lift .power (.lift .operand (.number n))))⟩

def signedLeft : Reading :=
  .binary .sub (.binary .exp (.name "x") (.number (.ofNat 2)))
    (.binary .mul (.neg (.number (.ofNat 3))) (.name "y"))

def signedRight : Reading :=
  .binary .div (.binary .mul (.number (.ofNat 2)) (.bracket (.name "x"))) (.number (.ofNat 4))

theorem states_signedLeft : States mode "x^2 - -3*y ".toList signedLeft := by
  have same : bare "x^2 - -3*y ".toList = ['x', '^', '2', '-', '-', '3', '*', 'y'] := by decide
  have typed : Typed mode .opener ['x', '^', '2', '-', '-', '3', '*', 'y']
      [.identifier "x", .hat, .number (.ofNat 2), .minus, .minus, .number (.ofNat 3), .star,
        .identifier "y"] :=
    typed_letter rfl rfl (by decide) (by decide) (by decide) (.operator (by simp)
      (typed_digit rfl rfl (by decide) (.operator (by simp) (.operator (by simp)
      (typed_digit rfl rfl (by decide) (.operator (by simp)
      (typed_letter rfl rfl (by decide) (by decide) (by decide) .nil)))))))
  have power : Reads .power [.identifier "x", .hat, .number (.ofNat 2)] _ :=
    .binary .exp (.lift .operand (.name "x")) (.lift .exponent (.number (.ofNat 2)))
  have negated : Reads .signed [.minus, .number (.ofNat 3)] _ :=
    .sign (.inl rfl) (.lift .power (.lift .operand (.number (.ofNat 3))))
  have product : Reads .product [.minus, .number (.ofNat 3), .star, .identifier "y"] _ :=
    .binary .mul (.lift .signed negated) (.lift .power (.lift .operand (.name "y")))
  exact ⟨_, same ▸ typed, .binary .sub (.lift .product (.lift .signed (.lift .power power))) product⟩

theorem states_signedRight : States mode " 2(x) / 4".toList signedRight := by
  have same : bare " 2(x) / 4".toList = ['2', '(', 'x', ')', '/', '4'] := by decide
  have inner : Typed mode .opener ['x'] [.identifier "x"] :=
    typed_letter rfl rfl (by decide) (by decide) (by decide) .nil
  have typed : Typed mode .opener ['2', '(', 'x', ')', '/', '4']
      [.number (.ofNat 2), .star, .opener, .identifier "x", .closer, .slash, .number (.ofNat 4)] :=
    typed_digit rfl rfl (by decide) (.bracket (by decide) (by decide) inner
      (.operator (by simp) (typed_digit rfl rfl (by decide) .nil)))
  have two : Reads .product [.number (.ofNat 2)] _ :=
    .lift .signed (.lift .power (.lift .operand (.number _)))
  have bracket : Reads .signed [.opener, .identifier "x", .closer] _ :=
    .lift .power (.lift .operand (.bracket
      (.lift .product (.lift .signed (.lift .power (.lift .operand (.name "x")))))))
  exact ⟨_, same ▸ typed, .lift .product (.binary .div (.binary .mul two bracket)
    (.lift .power (.lift .operand (.number (.ofNat 4)))))⟩

noncomputable def unknownXY : Names (Exact Interpretation.real.arithmetic) := ⟨["x", "y"], []⟩

noncomputable def counting (i : Nat) : Exact Interpretation.real.arithmetic := .of ((i + 1 : Nat) : ℝ)

theorem ofName_x : Expr.ofName unknownXY "x" = .ok (.var "x" 0) := rfl

theorem ofName_y : Expr.ofName unknownXY "y" = .ok (.var "y" 1) := rfl

theorem signed_accepted : LineEquation.ofLine .radians "x^2 - -3*y = 2(x) / 4" =
    .ok (some ⟨"x^2--3*y-1*(2*(x)/4)", ["x", "y"]⟩) := by
  cbv

theorem converts_signed : ∃ e, Expr.ofText unknownXY "x^2--3*y-1*(2*(x)/4)" = .ok e := by
  have tree := read_residual signed_accepted rfl states_signedLeft states_signedRight
  have x : Expr.ofNode unknownXY (Reading.name "x").node = _ := (Expr.ofNode_read "x").trans ofName_x
  have y : Expr.ofNode unknownXY (Reading.name "y").node = _ := (Expr.ofNode_read "y").trans ofName_y
  have bracket : Expr.ofNode unknownXY (Reading.bracket (.name "x")).node = _ :=
    Expr.ofNode_bracket.trans x
  have power : Expr.ofNode unknownXY
      (Reading.binary .exp (.name "x") (.number (.ofNat 2))).node = _ :=
    (Expr.ofNode_binary_eq_ok .exp).2 ⟨_, _, x, ofNode_numeral 2, ofPower_two _⟩
  have negated : Expr.ofNode unknownXY (Reading.neg (.number (.ofNat 3))).node = _ :=
    Expr.ofNode_neg_eq_ok.2 ⟨_, ofNode_numeral 3, rfl⟩
  have product := (Expr.ofNode_binary_eq_ok .mul).2 ⟨_, _, negated, y, rfl⟩
  have left : Expr.ofNode unknownXY signedLeft.node = _ :=
    (Expr.ofNode_binary_eq_ok .sub).2 ⟨_, _, power, product, rfl⟩
  have double := (Expr.ofNode_binary_eq_ok .mul).2 ⟨_, _, ofNode_numeral 2, bracket, rfl⟩
  have right : Expr.ofNode unknownXY signedRight.node = _ :=
    (Expr.ofNode_binary_eq_ok .div).2 ⟨_, _, double, ofNode_numeral 4, rfl⟩
  have once := (Expr.ofNode_binary_eq_ok .mul).2
    ⟨_, _, ofNode_numeral 1, Expr.ofNode_bracket.trans right, rfl⟩
  have difference : Expr.ofNode unknownXY (difference signedLeft signedRight).node = _ :=
    (Expr.ofNode_binary_eq_ok .sub).2 ⟨_, _, left, once, rfl⟩
  exact ⟨_, (ofText_eq_ok tree).2 difference⟩

theorem exponentsFit_signedLeft : signedLeft.ExponentsFit unknownXY := by
  refine ⟨⟨trivial, trivial, fun _ e made => ?_⟩, ⟨trivial, trivial, nofun⟩, nofun⟩
  rw [ofNode_numeral] at made
  cases made
  exact .const _

theorem exponentsFit_signedRight : signedRight.ExponentsFit unknownXY :=
  ⟨⟨trivial, trivial, nofun⟩, trivial, nofun⟩

theorem value_x : (Reading.name "x").value unknownXY counting = .of ((1 : Nat) : ℝ) := by
  rw [Reading.value, nameValue, ofName_x]
  rfl

theorem value_y : (Reading.name "y").value unknownXY counting = .of ((2 : Nat) : ℝ) := by
  rw [Reading.value, nameValue, ofName_y]
  rfl

theorem value_signedLeft : signedLeft.value unknownXY counting = .of 7 := by
  have power : Interpretation.real.power ((1 : Nat) : ℝ) ((2 : Nat) : ℝ) = some 1 := by
    have whole : (((2 : Nat) : ℤ) : ℝ) = ((2 : Nat) : ℝ) := by norm_num
    rw [← whole, Interpretation.real.power_intCast, integerPower?_eq_some]
    norm_num
  refine Exact.sub_eq_of.2 ⟨1, -6, ?_, ?_, by norm_num⟩
  · exact Exact.power_eq_of.2 ⟨_, _, value_x, ofNumeral_natural 2, power⟩
  · refine Exact.mul_eq_of.2 ⟨-3, _, ?_, value_y, by norm_num⟩
    exact Exact.neg_eq_of.2 ⟨_, ofNumeral_natural 3, by norm_num⟩

theorem value_signedRight : signedRight.value unknownXY counting = .of (1 / 2) := by
  refine Exact.div_eq_of.2 ⟨2, _, ?_, ofNumeral_natural 4, ?_⟩
  · exact Exact.mul_eq_of.2 ⟨_, _, ofNumeral_natural 2, value_x, by norm_num⟩
  · rw [Interpretation.div_eq_some]
    norm_num

theorem residual_value_of_signed_line :
    ∃ e, Expr.ofText unknownXY "x^2--3*y-1*(2*(x)/4)" = .ok e ∧
      e.evaluate counting = .of (7 - 1 / 2) := by
  obtain ⟨e, converts⟩ := converts_signed
  exact ⟨e, converts, residual_value signed_accepted rfl states_signedLeft states_signedRight converts
    exponentsFit_signedLeft exponentsFit_signedRight value_signedLeft value_signedRight⟩

/-! A plus after an operator is no sign of what follows: the right side of `x = 2*+3` is read as a sum
of `3` and a product of `2` alone. -/

theorem plus_accepted :
    LineEquation.ofLine .radians "x=2*+3" = .ok (some ⟨"x-1*(2*+3)", ["x"]⟩) := by
  cbv

theorem tree_of_plus : Formula.read "x-1*(2*+3)" = .ok (.mk .root [.mk .sub [.mk .mul
    [.mk .root [.mk .add [(Reading.number (.ofNat 3)).node,
      .mk .mul [(Reading.number (.ofNat 2)).node]]],
    (Reading.number (.ofNat 1)).node], (Reading.name "x").node]]) := by
  have left : Typed .radians .opener ['x'] [.identifier "x"] :=
    typed_letter rfl rfl (by decide) (by decide) (by decide) .nil
  have right : Typed .radians .opener ['2', '*', '+', '3']
      [.number (.ofNat 2), .star, .plus, .number (.ofNat 3)] :=
    typed_digit rfl rfl (by decide) (.operator (by simp) (.operator (by simp)
      (typed_digit rfl rfl (by decide) .nil)))
  have sides : "x=2*+3".toList = ['x'] ++ '=' :: ['2', '*', '+', '3'] := rfl
  obtain ⟨s, spelled, residual⟩ := spelled_residual plus_accepted sides left right
  have tokens := tokenize_of_spelled spelled (by decide)
  rw [← residual] at tokens
  rw [Formula.read, tokens]
  cbv

theorem plus_after_star_adds :
    LineEquation.ofLine .radians "x=2*+3" = .ok (some ⟨"x-1*(2*+3)", ["x"]⟩) ∧
      ∃ e : Expr (Exact Interpretation.real.arithmetic),
        Expr.ofText unknownXY "x-1*(2*+3)" = .ok e ∧
          e.evaluate (fun _ => .of 6) = .of (6 - (2 + 3)) ∧
          e.evaluate (fun _ => .of 6) ≠ .of (6 - 2 * 3) := by
  have x : Expr.ofNode unknownXY (Reading.name "x").node = _ := (Expr.ofNode_read "x").trans ofName_x
  have sum : Expr.ofNode unknownXY (.mk .add [(Reading.number (.ofNat 3)).node,
      .mk .mul [(Reading.number (.ofNat 2)).node]]) = _ :=
    (Expr.ofNode_binary_eq_ok .add).2
      ⟨_, _, Expr.ofNode_factor (ofNode_numeral 2), ofNode_numeral 3, rfl⟩
  have product := (Expr.ofNode_binary_eq_ok .mul).2
    ⟨_, _, ofNode_numeral 1, Expr.ofNode_bracket.trans sum, rfl⟩
  have difference := (Expr.ofNode_binary_eq_ok .sub).2 ⟨_, _, x, product, rfl⟩
  have value : (Expr.sub (.var "x" 0) (.mul (.const (.of ((1 : Nat) : ℝ)))
      (.add (.const (.of ((2 : Nat) : ℝ))) (.const (.of ((3 : Nat) : ℝ)))))).evaluate
        (fun _ => (.of 6 : Exact Interpretation.real.arithmetic)) = .of (6 - (2 + 3)) := by
    refine Exact.sub_eq_of.2 ⟨6, 5, rfl, ?_, by norm_num⟩
    refine Exact.mul_eq_of.2 ⟨_, 5, rfl, ?_, by norm_num⟩
    exact Exact.add_eq_of.2 ⟨_, _, rfl, rfl, by norm_num⟩
  have other : (6 - (2 + 3) : ℝ) ≠ 6 - 2 * 3 := by norm_num
  exact ⟨plus_accepted, _, (ofText_eq_ok tree_of_plus).2 difference, value,
    fun same => other (Exact.of_inj.1 (value.symm.trans same))⟩

end SignedLine

end Simultaneous
