import Mathlib
import Simultaneous.Formula.Tree
import Simultaneous.Proofs.Text.Cut

/-!
Text that is cut into tokens. Text written token by token, a literal, a name or a mark at a time, is
cut into just these tokens, if no two literals touch and no two slashes begin a comment. No name
takes a sign and digits after it for an exponent.
-/

namespace Simultaneous.Formula

open Decimal Text

/-! ### Pieces -/

def IsLiteralText (w : List Char) : Prop :=
  ∀ c ∈ w, isMark c = false ∧ isBlank c = false ∧ c ≠ '"'

theorem piecesFrom_plain {c : Char} {rest : List Char} (no_quote : c ≠ '"')
    (no_comment : c = '/' → rest.head? ≠ some '/' ∧ rest.head? ≠ some '*') :
    piecesFrom .plain (c :: rest) = (piecesFrom .plain rest).map (Piece.ofChar c) := by
  rw [piecesFrom]
  · rintro more rfl same
    exact (no_comment rfl).1 (by rw [same]; rfl)
  · rintro more rfl same
    exact (no_comment rfl).2 (by rw [same]; rfl)
  · exact no_quote

theorem pieces_literal {w s : List Char} {ps : List Piece} (some_chars : w ≠ [])
    (literal : IsLiteralText w) (rest : pieces s = .ok ps) (apart : ∀ r, ps.head? ≠ some (.literal r)) :
    pieces (w ++ s) = .ok (.literal w :: ps) := by
  induction w with
  | nil => exact absurd rfl some_chars
  | cons c more ih =>
    obtain ⟨no_mark, no_blank, no_quote⟩ := literal c List.mem_cons_self
    have no_slash : c ≠ '/' := by
      rintro rfl
      exact absurd no_mark (by decide)
    have attached : Piece.ofChar c = attach c := by
      simp [Piece.ofChar, no_mark, no_blank]
    rw [List.cons_append, pieces, piecesFrom_plain no_quote fun slash => absurd slash no_slash, attached]
    cases more with
    | nil =>
      rw [List.nil_append, ← pieces, rest]
      cases ps with
      | nil => rfl
      | cons p others => cases p <;> first | rfl | exact absurd rfl (apart _)
    | cons d others =>
      have inner := ih (List.cons_ne_nil d others) fun x member =>
        literal x (List.mem_cons_of_mem c member)
      rw [← pieces, inner]
      rfl

theorem pieces_mark {c : Char} {s : List Char} {ps : List Piece} (mark : isMark c)
    (rest : pieces s = .ok ps)
    (no_comment : c = '/' → s.head? ≠ some '/' ∧ s.head? ≠ some '*') :
    pieces (c :: s) = .ok (.mark c :: ps) := by
  have no_quote : c ≠ '"' := by
    rintro rfl
    exact absurd mark (by decide)
  have own : Piece.ofChar c = (.mark c :: ·) := by simp [Piece.ofChar, mark]
  rw [pieces, piecesFrom_plain no_quote no_comment, own, ← pieces, rest]
  rfl

theorem pieces_blank {s : List Char} {ps : List Piece} (rest : pieces s = .ok ps) :
    pieces (' ' :: s) = .ok (.blank :: ps) := by
  rw [pieces, piecesFrom_plain (by decide) (fun same => absurd same (by decide)), ← pieces, rest]
  rfl

/-! ### Tokens -/

/-- A number is a token whatever follows. -/
theorem tokens_number {w : List Char} {t : Token} (token : literalToken? w = some t)
    (rest : List Piece) : tokens (.literal w :: rest) = (tokens rest).map (t :: ·) := by
  conv_lhs => rw [tokens.eq_def]
  split
  case h_4 sign more others same =>
    cases same
    simp only [token]
  case h_5 same =>
    cases same
    simp only [token, Option.getD_some]
  all_goals
    rename_i same
    cases same

/-- A name is a token if it makes no number together with what follows. -/
theorem tokens_name {w : List Char} (no_token : literalToken? w = none)
    (apart : ∀ sign more, sign = '+' ∨ sign = '-' → Numeral.read? (w ++ sign :: more) = none)
    (rest : List Piece) :
    tokens (.literal w :: rest) = (tokens rest).map (.identifier (String.ofList w) :: ·) := by
  conv_lhs => rw [tokens.eq_def]
  split
  case h_4 sign more others same =>
    cases same
    have alone : (if sign = '+' ∨ sign = '-' then Numeral.read? (w ++ sign :: more) else none) =
        none := by
      split
      next signed => exact apart sign more signed
      next => rfl
    simp only [no_token, alone]
  case h_5 same =>
    cases same
    simp only [no_token, Option.getD_none]
  all_goals
    rename_i same
    cases same

theorem tokens_mark {c : Char} {t : Token} (token : single? c = some t) {rest : List Piece}
    (apart : rest.head? ≠ some (.mark '=')) :
    tokens (.mark c :: rest) = (tokens rest).map (t :: ·) := by
  conv_lhs => rw [tokens.eq_def]
  split
  case h_6 same | h_7 same | h_8 same | h_9 same =>
    cases same
    cases token
  case h_10 same =>
    cases same
    exact absurd rfl apart
  case h_11 same =>
    cases same
    simp only [token]
  all_goals
    rename_i same
    cases same

/-! ### Numbers and names -/

theorem isLiteralText_of_word {w : List Char} (word : ∀ c ∈ w, isWordChar c ∨ c = '.') :
    IsLiteralText w := by
  intro c member
  rcases word c member with in_word | rfl
  · refine ⟨?_, ?_, ?_⟩
    · rw [Bool.eq_false_iff]
      intro mark
      have marks := List.contains_iff_mem.1 mark
      simp only [List.mem_cons, List.not_mem_nil, or_false] at marks
      rcases marks with rfl | rfl | rfl | rfl | rfl | rfl | rfl | rfl | rfl | rfl | rfl | rfl | rfl |
        rfl | rfl | rfl <;> exact absurd in_word (by decide)
    · exact isBlank_of_isWordChar in_word
    · rintro rfl
      exact absurd in_word (by decide)
  · decide

theorem literalToken?_of_number {s : List Char} {n : Numeral} (digits : ∀ c ∈ s, c.isDigit ∨ c = '.')
    (read : Numeral.read? s = some n) : literalToken? s = some (.number n) := by
  unfold literalToken?
  simp only [read]
  split
  next rest _ =>
    rcases digits 'x' (by simp) with digit | point
    · exact absurd digit (by decide)
    · exact absurd point (by decide)
  next => rfl

theorem isDigit_of_isAlpha {c : Char} (letter : c.isAlpha) : c.isDigit = false := by
  rw [Bool.eq_false_iff]
  intro digit
  simp only [Char.isAlpha, Char.isUpper, Char.isLower, Char.isDigit, Bool.or_eq_true,
    Bool.and_eq_true, decide_eq_true_eq, ge_iff_le, UInt32.le_iff_toNat_le] at letter digit
  have codes : 'A'.val.toNat = 65 ∧ 'a'.val.toNat = 97 ∧ '9'.val.toNat = 57 := ⟨rfl, rfl, rfl⟩
  omega

def numberWords : List (List Char) := ["inf".toList, "infinity".toList, "nan".toList]

def literalWords : List (List Char) := numberWords ++ ["true".toList, "false".toList]

theorem read?_of_letter {c : Char} {s : List Char} (letter : c.isAlpha)
    (no_word : lower (c :: s) ∉ numberWords) : Numeral.read? (c :: s) = none := by
  have no_sign : takeSign (c :: s) = (false, c :: s) := by
    rw [takeSign]
    · rintro rest same
      cases same
      exact absurd letter (by decide)
    · rintro rest same
      cases same
      exact absurd letter (by decide)
  have no_digit := isDigit_of_isAlpha letter
  have no_point : c ≠ '.' := by
    rintro rfl
    exact absurd letter (by decide)
  have no_magnitude : readMagnitude? (c :: s) = none := by
    simp [readMagnitude?, takeDigits, no_digit, no_point]
  simp only [numberWords, List.mem_cons, List.not_mem_nil, or_false, not_or] at no_word
  rw [Numeral.read?, no_sign]
  simp only [no_word, no_magnitude, or_self, if_false, Option.map_none]

theorem read?_of_signed_name {c : Char} {s more : List Char} {sign : Char} (letter : c.isAlpha)
    (signed : sign = '+' ∨ sign = '-') : Numeral.read? (c :: s ++ sign :: more) = none := by
  have kept : sign ∈ lower (c :: s ++ sign :: more) := by
    rw [lower, List.mem_map]
    refine ⟨sign, by simp, ?_⟩
    rcases signed with rfl | rfl <;> decide
  have no_signs : ∀ w ∈ numberWords, '+' ∉ w ∧ '-' ∉ w := by simp [numberWords]
  refine read?_of_letter letter fun word => ?_
  obtain ⟨no_plus, no_minus⟩ := no_signs _ word
  rcases signed with rfl | rfl
  · exact no_plus kept
  · exact no_minus kept

theorem literalToken?_of_letter {c : Char} {s : List Char} (letter : c.isAlpha)
    (no_word : lower (c :: s) ∉ literalWords) : literalToken? (c :: s) = none := by
  obtain ⟨no_number, no_truth⟩ := not_or.1 (mt List.mem_append.2 no_word)
  have no_zero : c ≠ '0' := by
    rintro rfl
    exact absurd letter (by decide)
  have no_true : c :: s ≠ "true".toList := fun same => no_truth (by simp [same, lower])
  have no_false : c :: s ≠ "false".toList := fun same => no_truth (by simp [same, lower])
  rw [literalToken?, read?_of_letter letter no_number, if_neg no_true, if_neg no_false]
  · rfl
  · rintro digits same
    exact no_zero (List.cons.inj same).1

/-! ### Text written token by token -/

structure Heads (ps : List Piece) (ts : List Token) : Prop where
  literal : ∀ w, ps.head? = some (.literal w) →
    ∃ t, ts.head? = some t ∧ (t.isLiteral ∨ t.isIdentifier)
  mark : ∀ c, ps.head? = some (.mark c) → ∃ t, ts.head? = some t ∧ single? c = some t

def Token.isLeaf (t : Token) : Bool := t.isLiteral || t.isIdentifier

def Token.IsPlain : Token → Prop
  | .number _ | .truth _ | .identifier _ | .opener | .closer => True
  | .plus | .minus | .star | .slash | .hat | .not => True
  | _ => False

/-- Two tokens between which the text is cut: they are no two literals and begin no comment. -/
structure Token.Touches (t u : Token) : Prop where
  apart : t.isLeaf → u.isLeaf = false
  no_comment : t = .slash → u ≠ .slash ∧ u ≠ .star

theorem literalToken?_cases {w : List Char} {t : Token} (token : literalToken? w = some t) :
    (∃ n, t = .number n) ∨ ∃ b, t = .truth b := by
  unfold literalToken? at token
  simp only [Option.orElse_eq_orElse, Option.orElse_eq_or, Option.or_eq_some_iff] at token
  obtain hex | ⟨-, number | ⟨-, truth⟩⟩ := token
  · split at hex
    next digits =>
      obtain ⟨n, -, rfl⟩ := Option.map_eq_some_iff.1 hex
      exact .inl ⟨_, rfl⟩
    next => cases hex
  · obtain ⟨n, -, rfl⟩ := Option.map_eq_some_iff.1 number
    exact .inl ⟨n, rfl⟩
  · split at truth
    next =>
      cases truth
      exact .inr ⟨true, rfl⟩
    next =>
      split at truth <;> cases truth
      exact .inr ⟨false, rfl⟩

structure IsLeafText (t : Token) (w : List Char) : Prop where
  some_chars : w ≠ []
  text : IsLiteralText w
  leaf : t.isLeaf
  plain : t.IsPlain
  own (rest : List Piece) : tokens (.literal w :: rest) = (tokens rest).map (t :: ·)

theorem isLeafText_literal {w : List Char} {t : Token} (some_chars : w ≠ [])
    (word : ∀ c ∈ w, isWordChar c ∨ c = '.') (token : literalToken? w = some t) :
    IsLeafText t w := by
  have kind : t.isLeaf ∧ t.IsPlain := by
    rcases literalToken?_cases token with ⟨n, rfl⟩ | ⟨b, rfl⟩
    · exact ⟨rfl, trivial⟩
    · exact ⟨rfl, trivial⟩
  exact ⟨some_chars, isLiteralText_of_word word, kind.1, kind.2, tokens_number token⟩

theorem isLeafText_name {c : Char} {w : List Char} (letter : c.isAlpha)
    (word : ∀ d ∈ c :: w, isWordChar d) (no_token : literalToken? (c :: w) = none) :
    IsLeafText (.identifier (String.ofList (c :: w))) (c :: w) where
  some_chars := List.cons_ne_nil c w
  text := isLiteralText_of_word fun d member => .inl (word d member)
  leaf := rfl
  plain := trivial
  own := tokens_name no_token fun _ _ signed => read?_of_signed_name letter signed

inductive Written : List Char → List Token → Prop
  | nil : Written [] []
  | blank {s : List Char} {ts : List Token} : Written s ts → Written (' ' :: s) ts
  | leaf {w s : List Char} {t : Token} {ts : List Token} :
      IsLeafText t w → Written s ts → Written (w ++ s) (t :: ts)
  | mark {c : Char} {t : Token} {s : List Char} {ts : List Token} :
      single? c = some t → t.IsPlain → Written s ts → Written (c :: s) (t :: ts)

namespace Written

variable {s r : List Char} {ts us : List Token}

theorem append (front : Written s ts) (back : Written r us) : Written (s ++ r) (ts ++ us) := by
  induction front with
  | nil => exact back
  | blank _ ih => exact .blank ih
  | leaf text _ ih =>
    rw [List.append_assoc]
    exact .leaf text ih
  | mark single plain _ ih => exact .mark single plain ih

theorem plain (written : Written s ts) : ∀ t ∈ ts, t.IsPlain := by
  induction written with
  | nil => nofun
  | blank _ ih => exact ih
  | leaf text _ ih => exact List.forall_mem_cons.2 ⟨text.plain, ih⟩
  | mark _ plain _ ih => exact List.forall_mem_cons.2 ⟨plain, ih⟩

end Written

theorem isMark_of_single {c : Char} {t : Token} (single : single? c = some t) : isMark c := by
  unfold single? at single
  split at single
  case h_15 => cases single
  all_goals decide

theorem Written.head?_ne {s : List Char} {ts : List Token} (written : Written s ts) {c : Char}
    {t : Token} (single : single? c = some t) (other : ∀ u ∈ ts.head?, u ≠ t) :
    s.head? ≠ some c := by
  cases written with
  | nil => nofun
  | blank =>
    intro first
    cases first
    cases single
  | leaf text =>
    rw [List.head?_append_of_ne_nil _ text.some_chars]
    intro first
    have no_mark := (text.text c (List.mem_of_mem_head? first)).1
    rw [isMark_of_single single] at no_mark
    cases no_mark
  | mark own =>
    intro first
    cases first
    cases single.symm.trans own
    exact other _ rfl rfl

theorem Written.ne_nil {s : List Char} {t : Token} {ts : List Token} (written : Written s (t :: ts)) :
    s ≠ [] := by
  cases written with
  | leaf text => exact List.append_ne_nil_of_left_ne_nil text.some_chars _
  | blank | mark => exact List.cons_ne_nil _ _

theorem Written.getLast?_closer {s : List Char} {ts : List Token} (written : Written s ts)
    (closes : s.getLast? = some ')') : ts.getLast? = some .closer := by
  induction written with
  | nil => cases closes
  | @blank s ts _ ih =>
    rw [List.getLast?_cons] at closes
    cases last : s.getLast? with
    | none =>
      rw [last] at closes
      cases closes
    | some d =>
      rw [last, Option.getD_some] at closes
      exact ih (last.trans closes)
  | @leaf w s t ts text _ ih =>
    rw [List.getLast?_append] at closes
    cases last : s.getLast? with
    | none =>
      rw [last, Option.none_or] at closes
      have no_mark := (text.text ')' (List.mem_of_getLast? closes)).1
      exact absurd no_mark (by decide)
    | some d =>
      rw [last, Option.some_or] at closes
      rw [List.getLast?_cons, ih (last.trans closes), Option.getD_some]
  | @mark c t s ts single _ written ih =>
    rw [List.getLast?_cons] at closes ⊢
    cases last : s.getLast? with
    | none =>
      rw [last] at closes
      cases closes
      cases single
      cases ts with
      | nil => rfl
      | cons u more => exact absurd (List.getLast?_eq_none_iff.1 last) written.ne_nil
    | some d =>
      rw [last, Option.getD_some] at closes
      rw [ih (last.trans closes), Option.getD_some]

/-- A text is cut into the tokens that it is written with. -/
theorem exists_pieces_of_written {s : List Char} {ts : List Token} (written : Written s ts)
    (chain : ts.IsChain Token.Touches) :
    ∃ ps, pieces s = .ok ps ∧ tokens ps = .ok ts ∧ Heads ps ts := by
  induction written with
  | nil => exact ⟨[], rfl, by rw [tokens], ⟨nofun, nofun⟩⟩
  | @blank s ts _ ih =>
    obtain ⟨ps, cut, read, -⟩ := ih chain
    exact ⟨_, pieces_blank cut, by rw [tokens, read], ⟨nofun, nofun⟩⟩
  | @leaf w s t ts text _ ih =>
    obtain ⟨touches, chain⟩ := List.isChain_cons.1 chain
    obtain ⟨ps, cut, read, heads⟩ := ih chain
    have apart (r : List Char) : ps.head? ≠ some (.literal r) := by
      intro first
      obtain ⟨u, head, is_leaf⟩ := heads.literal r first
      have no_leaf := (touches u head).apart text.leaf
      simp only [Token.isLeaf, Bool.or_eq_false_iff] at no_leaf
      rcases is_leaf with literal | name
      · rw [no_leaf.1] at literal
        cases literal
      · rw [no_leaf.2] at name
        cases name
    refine ⟨_, pieces_literal text.some_chars text.text cut apart, ?_, ?_⟩
    · rw [text.own, read]
      rfl
    · refine ⟨fun _ _ => ⟨t, rfl, ?_⟩, nofun⟩
      simpa [Token.isLeaf] using text.leaf
  | @mark c t s ts single _ written ih =>
    obtain ⟨touches, chain⟩ := List.isChain_cons.1 chain
    obtain ⟨ps, cut, read, heads⟩ := ih chain
    have no_comment : c = '/' → s.head? ≠ some '/' ∧ s.head? ≠ some '*' := by
      rintro rfl
      obtain rfl : Token.slash = t := Option.some.inj single
      exact ⟨written.head?_ne rfl fun u head => ((touches u head).no_comment rfl).1,
        written.head?_ne rfl fun u head => ((touches u head).no_comment rfl).2⟩
    have no_equals : ps.head? ≠ some (.mark '=') := by
      intro first
      obtain ⟨u, head, assign⟩ := heads.mark '=' first
      obtain rfl : Token.assign = u := Option.some.inj assign
      exact written.plain _ (List.mem_of_mem_head? head)
    refine ⟨_, pieces_mark (isMark_of_single single) cut no_comment, ?_, ?_⟩
    · rw [tokens_mark single no_equals, read]
      rfl
    · refine ⟨nofun, fun d first => ?_⟩
      cases first
      exact ⟨t, rfl, single⟩

theorem tokenize_of_written {s : List Char} {ts : List Token} (written : Written s ts)
    (chain : ts.IsChain Token.Touches) : tokenize (String.ofList s) = .ok ts := by
  obtain ⟨ps, cut, tokens_eq, -⟩ := exists_pieces_of_written written chain
  rw [tokenize, String.toList_ofList, cut]
  exact tokens_eq

end Simultaneous.Formula
