import Simultaneous.Expr.Printer
import Simultaneous.Proofs.Line.Unknowns
import Simultaneous.Proofs.Positional

/-!
The text of an expression as a row of tokens. Every operation with two operands is printed in brackets
and so is every negative number, so the text is read node by node as it was printed. A negation alone
stands without brackets around it: it may stand wherever a sign may, which is everywhere but in the
base of a power.
-/

namespace Simultaneous

open Decimal Formula Scalar

def Line.IsUnknownName (s : String) : Prop :=
  ∃ mode line equation, LineEquation.ofLine mode line = .ok (some equation) ∧ s ∈ equation.unknowns

theorem Line.IsUnknownName.spelling {s : String} (unknown : Line.IsUnknownName s)
    (no_literal : Line.isNoLiteral s) : Spelling (.identifier s) s.toList := by
  obtain ⟨mode, line, equation, accepted, member⟩ := unknown
  obtain ⟨letter, word⟩ := word_of_unknown accepted s member
  unfold Line.isNoLiteral at no_literal
  have same : s = String.ofList s.toList := (String.ofList_toList).symm
  generalize s.toList = chars at letter word no_literal same
  cases chars with
  | nil => cases letter
  | cons c more =>
    rw [same]
    exact .name letter word (Option.isNone_iff_eq_none.1 no_literal)

theorem Line.IsUnknownName.no_constant {s : String} (unknown : Line.IsUnknownName s) :
    s ∉ constantNames := by
  obtain ⟨mode, line, equation, accepted, member⟩ := unknown
  have internal := (Line.unknowns_of_line accepted).2 s member
  have other : ∀ n ∈ constantNames, Name.internal n ≠ n := by decide
  exact fun constant => other s constant internal

theorem Formula.spelling_function (f : Elementary) : Spelling (.identifier f.name) f.name.toList := by
  have plain : f.name.toList.head?.any Char.isAlpha ∧ (∀ c ∈ f.name.toList, Text.isWordChar c) ∧
      Text.lower f.name.toList ∉ literalWords := by
    cases f <;> simp [Elementary.name, Text.isWordChar, Text.lower, literalWords, numberWords]
  exact Line.spelling_identifier plain.1 plain.2.1 plain.2.2

theorem Formula.spelling_absName : Spelling (.identifier absName) absName.toList := by
  have plain : absName.toList.head?.any Char.isAlpha ∧ (∀ c ∈ absName.toList, Text.isWordChar c) ∧
      Text.lower absName.toList ∉ literalWords := by
    simp [absName, Text.isWordChar, Text.lower, literalWords, numberWords]
  exact Line.spelling_identifier plain.1 plain.2.1 plain.2.2

/-! ### Rows -/

namespace Formula

def PrintsAs (l : Level) (s : List Char) (r : Reading) : Prop := ∃ ts, Written s ts ∧ Reads l ts r

def Binary.text : Binary → String
  | add => " + "
  | sub => " - "
  | mul => " * "
  | div => " / "
  | exp => "^"

theorem Binary.written_text (op : Binary) : Written op.text.toList [op.token] := by
  have mark {c : Char} {t : Token} (single : single? c = some t) (plain : t.IsPlain) :
      Written [c] [t] ∧ Written [' ', c, ' '] [t] :=
    ⟨.mark single plain .nil, .blank (.mark single plain (.blank .nil))⟩
  cases op with
  | add => exact (mark (c := '+') rfl trivial).2
  | sub => exact (mark (c := '-') rfl trivial).2
  | mul => exact (mark (c := '*') rfl trivial).2
  | div => exact (mark (c := '/') rfl trivial).2
  | exp => exact (mark (c := '^') rfl trivial).1

namespace PrintsAs

variable {l : Level} {s t : List Char} {r q : Reading}

theorem lift {tight loose : Level} (below : Level.Below tight loose) (prints : PrintsAs tight s r) :
    PrintsAs loose s r := by
  obtain ⟨ts, written, reads⟩ := prints
  exact ⟨ts, written, .lift below reads⟩

theorem number {n : Numeral} (spelling : Spelling (.number n) s) : PrintsAs .operand s (.number n) :=
  ⟨_, (Spelled.single spelling).written, .number n⟩

theorem name {n : String} (spelling : Spelling (.identifier n) s) : PrintsAs .operand s (.name n) :=
  ⟨_, (Spelled.single spelling).written, .name n⟩

theorem bracket (prints : PrintsAs .sum s r) : PrintsAs .operand (Expr.bracketed s) (.bracket r) := by
  obtain ⟨ts, written, reads⟩ := prints
  have closer : Written [')'] [.closer] := .mark rfl trivial .nil
  exact ⟨_, .mark rfl trivial (written.append closer), .bracket reads⟩

theorem call {f : String} (spelling : Spelling (.identifier f) f.toList) (prints : PrintsAs .sum s r) :
    PrintsAs .operand (f.toList ++ Expr.bracketed s) (.call f r) := by
  obtain ⟨ts, written, reads⟩ := prints
  have name := (Spelled.single spelling).written
  have opener : Written ['('] [.opener] := .mark rfl trivial .nil
  have closer : Written [')'] [.closer] := .mark rfl trivial .nil
  exact ⟨_, name.append (opener.append (written.append closer)), .call f reads⟩

theorem sign (place : l = .signed ∨ l = .exponent) (prints : PrintsAs l s r) :
    PrintsAs l ('-' :: s) (.neg r) := by
  obtain ⟨ts, written, reads⟩ := prints
  exact ⟨_, .mark rfl trivial written, .sign place reads⟩

theorem place (place : l = .signed ∨ l = .exponent) (prints : PrintsAs .operand s r) :
    PrintsAs l s r := by
  rcases place with rfl | rfl
  · exact .lift .power (.lift .operand prints)
  · exact .lift .exponent prints

theorem sum (prints : PrintsAs .signed s r) : PrintsAs .sum s r :=
  .lift .product (.lift .signed prints)

theorem binary (op : Binary) (left : PrintsAs op.left s r) (right : PrintsAs op.right t q) :
    PrintsAs op.left (s ++ op.text.toList ++ t) (.binary op r q) := by
  obtain ⟨ts, written_left, reads_left⟩ := left
  obtain ⟨us, written_right, reads_right⟩ := right
  refine ⟨_, (written_left.append op.written_text).append written_right, ?_⟩
  rw [List.append_assoc]
  exact .binary op reads_left reads_right

theorem infixed (op : Binary) (left : PrintsAs op.left s r) (right : PrintsAs op.right t q) :
    PrintsAs .operand (Expr.infixed op.text s t) (.bracket (.binary op r q)) := by
  have own := binary op left right
  refine bracket ?_
  cases op with
  | add | sub => exact own
  | mul | div => exact own.lift .product
  | exp => exact ((own.lift .power).lift .signed).lift .product

end PrintsAs

end Formula

/-! ### Expressions -/

namespace Expr

section Definitions

variable {α : Type} [Scalar α]

def numeral (number : α → List Char) (c : α) : Numeral :=
  (Numeral.read? ((number c).dropWhile (· = '-'))).getD (.ofNat 0)

def signedReading (negative : Bool) (n : Numeral) : Reading :=
  if negative then .bracket (.neg (.number n)) else .number n

def reading (number : α → List Char) : Expr α → Reading
  | const c => signedReading (lt c zero) (numeral number c)
  | var name _ => .name name
  | add l r => .bracket (.binary .add (l.reading number) (r.reading number))
  | mul l r => .bracket (.binary .mul (l.reading number) (r.reading number))
  | sub l r => .bracket (.binary .sub (l.reading number) (r.reading number))
  | div l r => .bracket (.binary .div (l.reading number) (r.reading number))
  | abs e => .call absName (e.reading number)
  | pow b n => .bracket
      (.binary .exp (b.reading number) (signedReading (n.toInt < 0) (.ofNat n.toInt.natAbs)))
  | powConst b p => .bracket
      (.binary .exp (b.reading number) (signedReading (lt p zero) (numeral number p)))
  | powExpr b e => .bracket (.binary .exp (b.reading number) (e.reading number))
  | call f e => .call f.name (e.reading number)
  | neg e => .neg (.bracket (e.reading number))

/-- A constant is a decimal and printed as one, with a minus in front if it is negative. -/
def IsPositional (number : α → List Char) (c : α) : Prop :=
  ∃ digits exponent, number c = signText (lt c zero) ++ positional digits exponent ∧
    c = if lt c zero then -decimal digits exponent else decimal digits exponent

/-- Constants are decimals and printed as such, and variables are unknowns that the translator names,
at their positions. None of them is spelled like a literal. -/
def IsPrintable (number : α → List Char) (unknowns : List String) : Expr α → Prop
  | const c => IsPositional number c
  | var name i =>
    Line.IsUnknownName name ∧ Line.isNoLiteral name ∧ lastPosition? name unknowns = some i
  | add l r | mul l r | sub l r | div l r | powExpr l r =>
    l.IsPrintable number unknowns ∧ r.IsPrintable number unknowns
  | abs e | pow e _ | call _ e | neg e => e.IsPrintable number unknowns
  | powConst e p => e.IsPrintable number unknowns ∧ IsPositional number p

def isNegation : Expr α → Bool
  | neg _ => true
  | _ => false

def NoNegatedBase : Expr α → Prop
  | const _ | var _ _ => True
  | add l r | mul l r | sub l r | div l r => l.NoNegatedBase ∧ r.NoNegatedBase
  | abs e | call _ e | neg e => e.NoNegatedBase
  | pow b _ | powConst b _ => b.isNegation = false ∧ b.NoNegatedBase
  | powExpr b e => b.isNegation = false ∧ b.NoNegatedBase ∧ e.NoNegatedBase

end Definitions

section Rows

variable {α : Type} [Scalar α] {number : α → List Char} {unknowns : List String}

omit [Scalar α] in
theorem printsAs_signed {negative : Bool} {s : List Char} {n : Numeral}
    (spelling : Spelling (.number n) s) :
    PrintsAs .operand (signed negative (signText negative ++ s)) (signedReading negative n) := by
  have own := PrintsAs.number spelling
  cases negative with
  | false => exact own
  | true => exact .bracket (.sum (.sign (.inl rfl) (own.place (.inl rfl))))

theorem dropWhile_sign (negative : Bool) (digits : Nat) (exponent : Int) :
    (signText negative ++ positional digits exponent).dropWhile (· = '-') =
      positional digits exponent := by
  obtain ⟨c, s, same, digit⟩ := (positional_spec digits exponent).1.exists_cons
  have no_sign : c ≠ '-' := by
    rintro rfl
    cases digit
  rw [same]
  cases negative <;> simp [signText, no_sign]

theorem numeral_eq {c : α} {digits : Nat} {exponent : Int}
    (text : number c = signText (lt c zero) ++ positional digits exponent) :
    numeral number c = ⟨false, positionalMagnitude digits exponent⟩ := by
  rw [numeral, text, dropWhile_sign, read?_positional]
  rfl

theorem IsPositional.printsAs {c : α} (positional : IsPositional number c) :
    PrintsAs .operand (signed (lt c zero) (number c))
      (signedReading (lt c zero) (numeral number c)) := by
  obtain ⟨digits, exponent, text, -⟩ := positional
  rw [numeral_eq text, text]
  exact printsAs_signed (spelling_positional digits exponent)

theorem printsAs_integer (n : Int) :
    PrintsAs .operand (signed (n < 0) (integerText n)) (signedReading (n < 0) (.ofNat n.natAbs)) :=
  printsAs_signed (spelling_toDigits n.natAbs)

/-- The text of an expression is a row that is read as the expression: anywhere but in the base of a
power, and there, too, if it is no negation. -/
theorem printsAs_chars {e : Expr α} (printable : e.IsPrintable number unknowns) (bases : e.NoNegatedBase) :
    (∀ l, l = .signed ∨ l = .exponent → PrintsAs l (e.chars number) (e.reading number)) ∧
      (e.isNegation = false → PrintsAs .operand (e.chars number) (e.reading number)) := by
  have operand {s : List Char} {r : Reading} {P : Prop} (own : PrintsAs .operand s r) :
      (∀ l, l = .signed ∨ l = .exponent → PrintsAs l s r) ∧ (P → PrintsAs .operand s r) :=
    ⟨fun _ place => own.place place, fun _ => own⟩
  have base {s : List Char} {r : Reading} (own : PrintsAs .operand s r) : PrintsAs .power s r :=
    own.lift .operand
  induction e with
  | const c => exact operand printable.printsAs
  | var name i => exact operand (.name (printable.1.spelling printable.2.1))
  | add l r left right =>
    have left := (left printable.1 bases.1).1 .signed (.inl rfl)
    have right := (right printable.2 bases.2).1 .signed (.inl rfl)
    exact operand (.infixed .add left.sum (right.lift .signed))
  | sub l r left right =>
    have left := (left printable.1 bases.1).1 .signed (.inl rfl)
    have right := (right printable.2 bases.2).1 .signed (.inl rfl)
    exact operand (.infixed .sub left.sum (right.lift .signed))
  | mul l r left right =>
    have left := (left printable.1 bases.1).1 .signed (.inl rfl)
    have right := (right printable.2 bases.2).1 .signed (.inl rfl)
    exact operand (.infixed .mul (left.lift .signed) right)
  | div l r left right =>
    have left := (left printable.1 bases.1).1 .signed (.inl rfl)
    have right := (right printable.2 bases.2).1 .signed (.inl rfl)
    exact operand (.infixed .div (left.lift .signed) right)
  | abs e inner =>
    have inner := (inner printable bases).1 .signed (.inl rfl)
    exact operand (.call spelling_absName inner.sum)
  | pow b n inner =>
    have inner := (inner printable bases.2).2 bases.1
    exact operand (.infixed .exp (base inner) ((printsAs_integer n.toInt).lift .exponent))
  | powConst b p inner =>
    have inner := (inner printable.1 bases.2).2 bases.1
    exact operand (.infixed .exp (base inner) (printable.2.printsAs.lift .exponent))
  | powExpr b e of_base of_exponent =>
    have of_base := (of_base printable.1 bases.2.1).2 bases.1
    have of_exponent := (of_exponent printable.2 bases.2.2).1 .exponent (.inr rfl)
    exact operand (.infixed .exp (base of_base) of_exponent)
  | call f e inner =>
    have inner := (inner printable bases).1 .signed (.inl rfl)
    exact operand (.call (spelling_function f) inner.sum)
  | neg e inner =>
    have inner := ((inner printable bases).1 .signed (.inl rfl)).sum.bracket
    exact ⟨fun l place => (inner.place place).sign place, nofun⟩

theorem read_chars {e : Expr α} (printable : e.IsPrintable number unknowns) (bases : e.NoNegatedBase) :
    Formula.read (String.ofList (e.chars number)) = .ok (.mk .root [(e.reading number).node]) := by
  obtain ⟨ts, written, reads⟩ := ((printsAs_chars printable bases).1 .signed (.inl rfl)).sum
  exact read_of_written written reads

/-- A negation in the base of a power has no brackets of its own, so the text says the negation of the
power. -/
theorem read_power_of_negation {b : Expr α} (n : Int64) (printable : b.IsPrintable number unknowns)
    (bases : b.NoNegatedBase) :
    Formula.read (String.ofList ((pow (neg b) n).chars number)) =
      .ok (.mk .root [(Reading.bracket (.neg (.binary .exp (.bracket (b.reading number))
        (signedReading (n.toInt < 0) (.ofNat n.toInt.natAbs))))).node]) := by
  have inner := ((printsAs_chars printable bases).1 .signed (.inl rfl)).sum.bracket
  have power : PrintsAs .power _ _ :=
    .binary .exp (inner.lift .operand) ((printsAs_integer n.toInt).lift .exponent)
  have negated := ((power.lift .power).sign (.inl rfl)).sum.bracket
  obtain ⟨ts, written, reads⟩ := (negated.place (.inl rfl)).sum
  exact read_of_written written reads

end Rows

end Expr

end Simultaneous
