import Simultaneous.Proofs.Expr.Occurrences
import Simultaneous.Proofs.Line.Joined

/-!
The unknowns of an accepted line and of the expression that its residual becomes. Where no unknown is
spelled like a literal, the operator tree of the residual reads just the unknowns of the line, in the
order in which they first occur, and each is read back as an unknown of the expression. The
expression may have fewer: exponents are simplified when they are converted, which drops unknowns
that cancel.
-/

namespace Simultaneous

open Formula Line

/-! ### Names -/

theorem Line.word_of_mem_tokens {s w : List Char} (member : Line.Token.word w ∈ tokens s) :
    w.head?.any Char.isAlpha ∧ ∀ c ∈ w, Text.isWordChar c := by
  fun_induction tokens s with
  | case1 => cases member
  | case2 c rest digit ih =>
    rcases List.mem_cons.1 member with first | later
    · obtain ⟨m, rest, -, -, ⟨-, taken⟩ | ⟨sign, k, -, -, -, taken⟩⟩ :=
        takeNumber_cases (s := rest) digit <;>
      rw [taken] at first <;> cases first
    · exact ih later
  | case3 c rest _ letter ih =>
    rcases List.mem_cons.1 member with first | later
    · cases first
      refine ⟨?_, fun c member => List.mem_takeWhile_imp member⟩
      rw [takeWord_of_letter letter]
      exact letter
    · exact ih later
  | case4 c rest _ _ ih =>
    rcases List.mem_cons.1 member with first | later
    · cases first
    · exact ih later

section Line

variable {mode : AngleMode} {line : String} {equation : LineEquation}

theorem word_of_unknown (accepted : LineEquation.ofLine mode line = .ok (some equation)) :
    ∀ u ∈ equation.unknowns,
      u.toList.head?.any Char.isAlpha ∧ ∀ c ∈ u.toList, Text.isWordChar c := by
  obtain ⟨text, residual, names, -, contributes, rfl⟩ := LineEquation.ofLine_eq_some accepted
  intro u member
  exact word_of_mem_tokens (mem_contributions contributes ((mem_firstOccurrences names u).1 member)).1

/-- An unknown that is no word for a number or a value is not spelled like a literal. -/
theorem isNoLiteral_of_unknown (accepted : LineEquation.ofLine mode line = .ok (some equation))
    (no_literal : ∀ u ∈ equation.unknowns, Text.lower u.toList ∉ literalWords) :
    ∀ u ∈ equation.unknowns, isNoLiteral u := by
  intro u member
  have letter := (word_of_unknown accepted u member).1
  have no_word := no_literal u member
  unfold isNoLiteral
  generalize u.toList = chars at letter no_word
  cases chars with
  | nil => cases letter
  | cons c s =>
    rw [literalToken?_of_letter letter no_word]
    rfl

end Line

theorem lastPosition?_of_nodup {names : List String} (distinct : names.Nodup) {i : Nat} {u : String}
    (entry : names[i]? = some u) : lastPosition? u names = some i := by
  obtain ⟨j, position⟩ :=
    Option.isSome_iff_exists.1 ((lastPosition?_isSome u names).2 (List.mem_of_getElem? entry))
  have same : names[i]? = names[j]? := entry.trans (getElem?_lastPosition u names j position).symm
  have inside : i < names.length := (List.getElem?_eq_some_iff.1 entry).1
  rw [position, (List.getElem?_inj inside distinct).1 same]

section Name

variable {α : Type} [Scalar α] {s : String}

theorem mem_constantNames_of_constant? {c : α} (constant : Scalar.constant? s = some c) :
    s ∈ constantNames := by
  unfold Scalar.constant? at constant
  split at constant
  next same => simp [same, constantNames]
  next =>
    split at constant
    next same => simp [same, constantNames]
    next =>
      split at constant
      next same => simp [same, constantNames]
      next => cases constant

theorem constant?_of_isVariableName (is_variable : isVariableName s) :
    (Scalar.constant? s : Option α) = none := by
  cases constant : (Scalar.constant? s : Option α) with
  | none => rfl
  | some c =>
    rw [isVariableName_constant (mem_constantNames_of_constant? constant)] at is_variable
    cases is_variable

theorem occurrences_ofName {names : Names α} {x : Expr α} (bound : names.bindings = [])
    (listed : ∀ u ∈ names.unknowns, isVariableName u) (made : Expr.ofName names s = .ok x) :
    x.occurrences = if isVariableName s then [s] else [] := by
  unfold Expr.ofName at made
  split at made
  next c constant =>
    cases made
    rw [isVariableName_constant (mem_constantNames_of_constant? constant)]
    rfl
  next =>
    split at made
    next i position =>
      cases made
      rw [listed s ((lastPosition?_isSome s names.unknowns).1 (by rw [position]; rfl))]
      rfl
    next =>
      rw [bound] at made
      cases made

end Name

/-! ### Lines -/

theorem firstOccurrences_congr {a b c d : List String} (left : firstOccurrences a = firstOccurrences b)
    (right : firstOccurrences c = firstOccurrences d) :
    firstOccurrences (a ++ c) = firstOccurrences (b ++ d) := by
  have members (x : String) : x ∈ a ↔ x ∈ b := by
    rw [← mem_firstOccurrences a, left, mem_firstOccurrences b]
  rw [firstOccurrences_append, firstOccurrences_append, left, right]
  simp only [members]

section Lines

variable {α : Type} [Scalar α] {mode : AngleMode} {line : String} {equation : LineEquation}
variable {tree : Node} {e : Expr α}

/-- The operator tree of the residual of an accepted line reads the unknowns of the line, and each of
them is read back as that unknown. The expression has no others. Those that it lacks were dropped when
exponents were simplified; if none is dropped there, it has the unknowns of the line in their order. -/
theorem unknowns_are_read_back (accepted : LineEquation.ofLine mode line = .ok (some equation))
    (no_literal : ∀ u ∈ equation.unknowns, Text.lower u.toList ∉ literalWords)
    (read : Formula.read equation.residual = .ok tree)
    (converted : Expr.ofNode ⟨equation.unknowns, []⟩ tree = .ok e) :
    firstOccurrences tree.variables = equation.unknowns ∧
      (∀ i u, equation.unknowns[i]? = some u →
        Expr.ofName (⟨equation.unknowns, []⟩ : Names α) u = .ok (.var u i)) ∧
      e.occurrences.Sublist tree.variables ∧
      (∀ u ∈ equation.unknowns, tree.SimplifiesExponents (fun kept all => u ∈ all → u ∈ kept)
        (⟨equation.unknowns, []⟩ : Names α) → u ∈ e.occurrences) ∧
      (tree.SimplifiesExponents (fun kept all => firstOccurrences kept = firstOccurrences all)
        (⟨equation.unknowns, []⟩ : Names α) → firstOccurrences e.occurrences = equation.unknowns) := by
  obtain ⟨ts, cut, joined, last, same⟩ : ∃ ts, tokenize equation.residual = .ok ts ∧
      Joined (fun _ => True) False none ts ∧ ts.getLast? = some .closer ∧
      ((∀ u ∈ equation.unknowns, isNoLiteral u) →
        firstOccurrences (ts.filterMap Formula.Token.variableName?) = equation.unknowns) :=
    exists_tokens_of_line accepted nofun (fun _ _ => trivial) fun _ _ => trivial
  have closes : ∀ t ∈ ts.getLast?, t = .closer := by
    rw [last]
    simp
  have made : ofTokens ts = .ok tree := by
    rwa [Formula.read, cut] at read
  have unknowns_eq := same (isNoLiteral_of_unknown accepted no_literal)
  obtain ⟨variables_eq, bounded⟩ := variables_of_ofTokens joined closes made
  have listed : ∀ u ∈ equation.unknowns, isVariableName u := by
    intro u member
    rw [← unknowns_eq, mem_firstOccurrences, List.mem_filterMap] at member
    obtain ⟨t, -, names⟩ := member
    unfold Formula.Token.variableName? at names
    split at names
    next n =>
      split at names
      next is_variable =>
        cases names
        exact is_variable
      next => cases names
    next => cases names
  have relates {R : List String → List String → Prop} (refl : ∀ xs, R xs xs)
      (trans : ∀ a b c, R a b → R b c → R a c)
      (append : ∀ a b c d, R a b → R c d → R (a ++ c) (b ++ d))
      (exponents : tree.SimplifiesExponents R (⟨equation.unknowns, []⟩ : Names α)) :
      R e.occurrences tree.variables :=
    Expr.relates_ofNode refl trans append
      (fun _ _ => occurrences_ofName rfl listed) exponents bounded e converted
  have of_tree : firstOccurrences tree.variables = equation.unknowns := variables_eq ▸ unknowns_eq
  refine ⟨of_tree, fun i u entry => ?_, ?_, fun u member exponents => ?_, fun exponents => ?_⟩
  · have distinct := (unknowns_of_line accepted).1
    rw [Expr.ofName, constant?_of_isVariableName (listed u (List.mem_of_getElem? entry)),
      lastPosition?_of_nodup distinct entry]
  · exact relates List.Sublist.refl (fun _ _ _ => List.Sublist.trans)
      (fun _ _ _ _ => List.Sublist.append)
      (Expr.simplifiesExponents_of_forall Expr.occurrences_simplify tree)
  · refine relates (fun _ => id) (fun _ _ _ first later own => first (later own))
      (fun a b c d left right own => ?_) exponents ?_
    · exact List.mem_append.2 ((List.mem_append.1 own).imp left right)
    · rwa [← mem_firstOccurrences, of_tree]
  · have same := relates (R := fun kept all => firstOccurrences kept = firstOccurrences all)
      (fun _ => rfl) (fun _ _ _ => Eq.trans) (fun _ _ _ _ => firstOccurrences_congr) exponents
    exact same.trans of_tree

end Lines

section Examples

theorem states_letter {c : Char} {s : List Char} {x : String} (alone : bare s = [c])
    (letter : c.isLower)
    (no_function : canonicalFunction? (String.ofList (Name.internalChars [c])) = none)
    (name : residualName [c] = x) (no_literal : Text.lower x.toList ∉ literalWords) :
    States .radians s (.name x) :=
  ⟨_, alone ▸ typed_letter rfl letter no_function name no_literal .nil,
    .lift .product (.lift .signed (.lift .power (.lift .operand (.name x))))⟩

section Exponents

variable {α : Type} [Scalar α] {names : Names α} {R : List String → List String → Prop}
variable {op : Operator} {l r n : Node}

theorem simplifiesExponents_leaf (other : op ≠ .exp) : (Node.leaf op).SimplifiesExponents R names :=
  .mk (by simp) fun power => absurd power other

theorem simplifiesExponents_one (other : op ≠ .exp) (operand : n.SimplifiesExponents R names) :
    (Node.mk op [n]).SimplifiesExponents R names :=
  .mk (by simpa using operand) fun power => absurd power other

theorem simplifiesExponents_two (other : op ≠ .exp) (left : l.SimplifiesExponents R names)
    (right : r.SimplifiesExponents R names) : (Node.mk op [r, l]).SimplifiesExponents R names :=
  .mk (by simpa using ⟨right, left⟩) fun power => absurd power other

theorem simplifiesExponents_power (left : l.SimplifiesExponents R names)
    (right : r.SimplifiesExponents R names) (exponent : ∀ x, Expr.ofNode names r = .ok x →
      R x.simplify.occurrences x.occurrences) : (Node.mk .exp [r, l]).SimplifiesExponents R names :=
  .mk (by simpa using ⟨right, left⟩) fun _ n last => by
    cases last
    exact exponent

theorem simplifiesExponents_difference {left right : Reading}
    (of_left : left.node.SimplifiesExponents R names)
    (of_right : right.node.SimplifiesExponents R names) :
    (Node.mk .root [(difference left right).node]).SimplifiesExponents R names := by
  have once : (Reading.binary .mul (.number (.ofNat 1)) (.bracket right)).node.SimplifiesExponents
      R names :=
    simplifiesExponents_two (by decide) (simplifiesExponents_leaf (by simp))
      (simplifiesExponents_one (by decide) of_right)
  exact simplifiesExponents_one (by decide) (simplifiesExponents_two (by decide) of_left once)

end Exponents

def nameToPower : Reading := .binary .exp (.name "y") (.name "x")

theorem states_nameToPower : States .radians "y^x".toList nameToPower := by
  have typed : Typed .radians .opener ['y', '^', 'x'] [.identifier "y", .hat, .identifier "x"] :=
    typed_letter rfl rfl (by decide) (by decide) (by decide) (.operator (by simp)
      (typed_letter rfl rfl (by decide) (by decide) (by decide) .nil))
  exact ⟨_, typed, .lift .product (.lift .signed (.lift .power (.binary .exp
    (.lift .operand (.name "y")) (.lift .exponent (.name "x")))))⟩

theorem unknown_exponent_is_read_back :
    LineEquation.ofLine .radians "y^x=x" = .ok (some ⟨"y^x-1*(x)", ["y", "x"]⟩) ∧
      ∃ tree, ∃ e : Expr (Exact Interpretation.rational.arithmetic),
        Formula.read "y^x-1*(x)" = .ok tree ∧ Expr.ofNode ⟨["y", "x"], []⟩ tree = .ok e ∧
          firstOccurrences tree.variables = ["y", "x"] ∧
          firstOccurrences e.occurrences = ["y", "x"] := by
  have accepted : LineEquation.ofLine .radians "y^x=x" = .ok (some ⟨"y^x-1*(x)", ["y", "x"]⟩) := by
    cbv
  have states_x : States .radians ['x'] (.name "x") :=
    states_letter (c := 'x') (by decide) rfl (by decide) (by decide) (by decide)
  have read := read_residual accepted rfl states_nameToPower states_x
  let names : Names (Exact Interpretation.rational.arithmetic) := ⟨["y", "x"], []⟩
  have y : Expr.ofNode names (Reading.name "y").node = .ok (.var "y" 0) := Expr.ofNode_read "y"
  have x : Expr.ofNode names (Reading.name "x").node = .ok (.var "x" 1) := Expr.ofNode_read "x"
  have raised : Expr.ofPower (.var "y" 0) (.var "x" 1) = .ok (.powExpr (.var "y" 0) (.var "x" 1) :
      Expr (Exact Interpretation.rational.arithmetic)) := by
    rw [Expr.ofPower, Expr.simplify_var]
    rfl
  have power : Expr.ofNode names nameToPower.node = _ :=
    (Expr.ofNode_binary_eq_ok .exp).2 ⟨_, _, y, x, raised⟩
  have once := (Expr.ofNode_binary_eq_ok .mul).2
    ⟨_, _, ofNode_numeral 1, Expr.ofNode_bracket.trans x, rfl⟩
  have converted : Expr.ofNode names (.mk .root [(difference nameToPower (.name "x")).node]) = _ :=
    Expr.ofNode_bracket.trans ((Expr.ofNode_binary_eq_ok .sub).2 ⟨_, _, power, once, rfl⟩)
  obtain ⟨of_tree, -, -, -, of_expression⟩ :=
    unknowns_are_read_back accepted (by decide) read converted
  have name (s : String) : (Node.leaf (.read s)).SimplifiesExponents
      (fun kept all => firstOccurrences kept = firstOccurrences all) names :=
    simplifiesExponents_leaf (by simp)
  have kept (z : Expr (Exact Interpretation.rational.arithmetic))
      (made : Expr.ofNode names (.leaf (.read "x")) = .ok z) :
      firstOccurrences z.simplify.occurrences = firstOccurrences z.occurrences := by
    rw [Expr.ofNode_read] at made
    cases made
    rw [Expr.simplify_var]
  refine ⟨accepted, _, _, read, converted, of_tree, of_expression ?_⟩
  exact simplifiesExponents_difference
    (simplifiesExponents_power (name "y") (name "x") kept) (name "x")

/-- Only the simplified exponent counts. -/
theorem ofPower_of_simplify {α : Type} [Scalar α] {b x y : Expr α} (same : x.simplify = y.simplify) :
    Expr.ofPower b x = Expr.ofPower b y := by
  rw [Expr.ofPower, Expr.ofPower, same]

def nameToCancelled : Reading :=
  .binary .exp (.name "x") (.bracket (.binary .sub (.name "y") (.name "y")))

theorem states_nameToCancelled : States .radians "x^(y-y)".toList nameToCancelled := by
  have typed : Typed .radians .opener ['x', '^', '(', 'y', '-', 'y', ')']
      [.identifier "x", .hat, .opener, .identifier "y", .minus, .identifier "y", .closer] :=
    typed_letter rfl rfl (by decide) (by decide) (by decide) (.operator (by simp)
      (.bracket (by decide) (by decide)
        (typed_letter rfl rfl (by decide) (by decide) (by decide) (.operator (by simp)
          (typed_letter rfl rfl (by decide) (by decide) (by decide) .nil))) .nil))
  have factor (s : String) : Reads .product [.identifier s] (.name s) :=
    .lift .signed (.lift .power (.lift .operand (.name s)))
  have inner : Reads .sum [.identifier "y", .minus, .identifier "y"] _ :=
    .binary .sub (.lift .product (factor "y")) (factor "y")
  exact ⟨_, typed, .lift .product (.lift .signed (.lift .power (.binary .exp
    (.lift .operand (.name "x")) (.lift .exponent (.bracket inner)))))⟩

/-- An unknown that cancels in an exponent is in the line but not in the expression. -/
theorem cancelled_unknown_is_not_read_back :
    ¬∀ (mode : AngleMode) (line : String) (equation : LineEquation) (tree : Node)
        (e : Expr (Exact Interpretation.rational.arithmetic)),
      LineEquation.ofLine mode line = .ok (some equation) →
      Formula.read equation.residual = .ok tree →
      Expr.ofNode ⟨equation.unknowns, []⟩ tree = .ok e →
      firstOccurrences e.occurrences = equation.unknowns := by
  intro all
  have accepted : LineEquation.ofLine .radians "x^(y-y)=1" =
      .ok (some ⟨"x^(y-y)-1*(1)", ["x", "y"]⟩) := by
    cbv
  have digit : Decimal.Numeral.read? ['1'] = some (.ofNat 1) := by decide
  have read := read_residual accepted rfl states_nameToCancelled
    (states_digit '1' (by decide) rfl digit)
  let names : Names (Exact Interpretation.rational.arithmetic) := ⟨["x", "y"], []⟩
  have x : Expr.ofNode names (Reading.name "x").node = .ok (.var "x" 0) := Expr.ofNode_read "x"
  have y : Expr.ofNode names (Reading.name "y").node = .ok (.var "y" 1) := Expr.ofNode_read "y"
  have exponent : Expr.ofNode names
      (Reading.bracket (.binary .sub (.name "y") (.name "y"))).node = _ :=
    Expr.ofNode_bracket.trans ((Expr.ofNode_binary_eq_ok .sub).2 ⟨_, _, y, y, rfl⟩)
  have cancelled : (Expr.sub (.var "y" 1) (.var "y" 1) :
      Expr (Exact Interpretation.rational.arithmetic)).simplify = .const (.of ((0 : Nat) : ℚ)) := by
    rw [Expr.simplify_sub, Expr.simplify_var]
    simp only [Expr.subRule, Expr.isConst, Bool.false_eq_true, if_false, Expr.same, BEq.rfl,
      Bool.and_self, if_true]
    rfl
  have raised : Expr.ofPower (.var "x" 0) (.sub (.var "y" 1) (.var "y" 1)) =
      .ok (.pow (.var "x" 0) 0 : Expr (Exact Interpretation.rational.arithmetic)) := by
    rw [ofPower_of_simplify (cancelled.trans (Expr.simplify_const _).symm)]
    exact ofPower_natural (.var "x" 0) (Nat.zero_le _)
  have power : Expr.ofNode names nameToCancelled.node = _ :=
    (Expr.ofNode_binary_eq_ok .exp).2 ⟨_, _, x, exponent, raised⟩
  have one : Expr.ofNode names (Reading.number (.ofNat 1)).node = _ := ofNode_numeral 1
  have once := (Expr.ofNode_binary_eq_ok .mul).2 ⟨_, _, one, Expr.ofNode_bracket.trans one, rfl⟩
  have converted : Expr.ofNode names
      (.mk .root [(difference nameToCancelled (.number (.ofNat 1))).node]) = _ :=
    Expr.ofNode_bracket.trans ((Expr.ofNode_binary_eq_ok .sub).2 ⟨_, _, power, once, rfl⟩)
  exact absurd (all .radians _ _ _ _ accepted read converted) (by decide)

end Examples

end Simultaneous
