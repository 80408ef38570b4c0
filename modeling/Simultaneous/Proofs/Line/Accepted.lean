import Simultaneous.Proofs.Expr.Conversion
import Simultaneous.Proofs.Line.Spots
import Simultaneous.Proofs.Line.Value

/-!
What an accepted line becomes. Where a line is written as a formula is and no unknown of it is called
like a literal, the tokens of its residual stand in their places: the residual is read as an operator
tree, and the tree becomes an expression unless the value of an exponent is no number. The pass
accepts other lines, too, whose residuals are not read or not converted.
-/

namespace Simultaneous.Line

open Decimal Text
open Formula (Spelled Spelling InPlace Stage literalWords constantNames IsCallable)

/-! ### Numbers -/

theorem readMagnitude?_of_digits {s : List Char} (digits : AreDigits s) :
    readMagnitude? s = some (.decimal (ofDigits s) 0) := by
  have taken : takeDigits (s ++ []) = (s, []) := takeDigits_of_digits digits.2 nofun
  rw [List.append_nil] at taken
  simp [readMagnitude?, taken, digits.1, readExponent?]

theorem readMagnitude?_of_fraction {s t : List Char} (digits : AreDigits s) (decimals : AreDigits t) :
    readMagnitude? (s ++ '.' :: t) = some (.decimal (ofDigits (s ++ t)) (-t.length)) := by
  have whole : takeDigits (s ++ '.' :: t) = (s, '.' :: t) :=
    takeDigits_of_digits digits.2 fun c first => by
      cases first
      decide
  have taken : takeDigits (t ++ []) = (t, []) := takeDigits_of_digits decimals.2 nofun
  rw [List.append_nil] at taken
  simp [readMagnitude?, whole, taken, digits.1, readExponent?]

theorem readMagnitude?_of_mantissa {m : List Char} (mantissa : IsMantissa m) :
    ∃ magnitude, readMagnitude? m = some magnitude := by
  cases mantissa with
  | whole digits => exact ⟨_, readMagnitude?_of_digits digits⟩
  | fraction digits decimals => exact ⟨_, readMagnitude?_of_fraction digits decimals⟩

/-- A number that begins with a digit, after a sign or without one, is no word. -/
theorem read?_eq_of_takeSign {text : List Char} {negative : Bool} {c : Char} {s : List Char}
    (signed : takeSign text = (negative, c :: s)) (digit : c.isDigit) :
    Numeral.read? text = (readMagnitude? (c :: s)).map fun magnitude => ⟨negative, magnitude⟩ := by
  have no_word {w : Char} {ws : List Char} (letter : w.isDigit = false) :
      lower (c :: s) ≠ w :: ws := by
    intro same
    have first : c.toLower = w := (List.cons.inj same).1
    rw [toLower_of_isDigit digit] at first
    rw [first, letter] at digit
    cases digit
  have words : lower (c :: s) ≠ "inf".toList ∧ lower (c :: s) ≠ "infinity".toList ∧
      lower (c :: s) ≠ "nan".toList := ⟨no_word rfl, no_word rfl, no_word rfl⟩
  rw [Numeral.read?, signed]
  simp only [words, or_self, if_false]

theorem takeSign_of_isDigit {c : Char} (digit : c.isDigit) (s : List Char) :
    takeSign (c :: s) = (false, c :: s) := by
  rw [takeSign] <;> rintro rest same <;> cases same <;> exact absurd digit (by decide)

theorem read?_eq_of_mantissa {m : List Char} (mantissa : IsMantissa m) :
    Numeral.read? m = (readMagnitude? m).map fun magnitude => ⟨false, magnitude⟩ := by
  obtain ⟨c, s, rfl, digit⟩ := mantissa.exists_cons
  exact read?_eq_of_takeSign (takeSign_of_isDigit digit s) digit

theorem read?_of_mantissa {m : List Char} (mantissa : IsMantissa m) :
    ∃ n, Numeral.read? m = some n := by
  obtain ⟨magnitude, read⟩ := readMagnitude?_of_mantissa mantissa
  rw [read?_eq_of_mantissa mantissa, read]
  exact ⟨_, rfl⟩

theorem takeDigits_stops (s : List Char) : ∀ c ∈ (takeDigits s).2.head?, c.isDigit = false := by
  intro c first
  have stop := List.head?_dropWhile_not Char.isDigit s
  rw [takeDigits] at first
  rw [first] at stop
  simpa using stop

theorem takeFraction_cases (s : List Char) : takeFraction s = ([], s) ∨
    ∃ t rest, AreDigits t ∧ (∀ c ∈ rest.head?, c.isDigit = false) ∧ s = '.' :: (t ++ rest) ∧
      takeFraction s = ('.' :: t, rest) := by
  unfold takeFraction
  split
  next after =>
    have parts := takeDigits_append after
    have stop := takeDigits_stops after
    have digits : ∀ c ∈ (takeDigits after).1, c.isDigit := fun c member =>
      List.mem_takeWhile_imp member
    split
    next => exact .inl rfl
    next t rest some_digits taken =>
      rw [taken] at parts stop digits
      exact .inr ⟨t, rest, ⟨some_digits, digits⟩, stop, by rw [parts], rfl⟩
  next => exact .inl rfl

theorem takeExponent?_cases {s read k rest : List Char} {negative : Bool}
    (taken : takeExponent? s = some (read, negative, k, rest)) :
    ∃ sign, IsSignText sign ∧ AreDigits k ∧ (∀ c ∈ rest.head?, c.isDigit = false) ∧
      s = 'e' :: (sign ++ (k ++ rest)) ∧ read = 'e' :: (sign ++ k) ∧
      negative = decide (sign = ['-']) := by
  unfold takeExponent? at taken
  split at taken
  next after =>
    split at taken
    rename_i sign unsigned signed
    have front : sign ++ unsigned = after ∧ IsSignText sign := by
      unfold IsSignText
      split at signed <;> cases signed <;> simp
    have parts := takeDigits_append unsigned
    have stop := takeDigits_stops unsigned
    have digits : ∀ c ∈ (takeDigits unsigned).1, c.isDigit := fun c member =>
      List.mem_takeWhile_imp member
    split at taken
    next => cases taken
    next found others some_digits taken_digits =>
      simp only [Option.some.injEq, Prod.mk.injEq] at taken
      obtain ⟨rfl, rfl, rfl, rfl⟩ := taken
      rw [taken_digits] at parts stop digits
      exact ⟨sign, front.2, ⟨some_digits, digits⟩, stop, by rw [parts, front.1], rfl, rfl⟩
  next => cases taken

theorem takeNumber_cases {c : Char} {s : List Char} (digit : c.isDigit) :
    ∃ m rest, IsMantissa m ∧ (∀ d ∈ rest.head?, d.isDigit = false) ∧
      ((c :: s = m ++ rest ∧ takeNumber (c :: s) = (.number m m, rest)) ∨
        ∃ sign k, IsSignText sign ∧ AreDigits k ∧ c :: s = m ++ 'e' :: (sign ++ (k ++ rest)) ∧
          takeNumber (c :: s) = (.number (m ++ 'e' :: (sign ++ k)) ("(".toList ++ m ++
            "*10^(".toList ++ (if sign = ['-'] then ['-'] else []) ++ k ++ "))".toList), rest)) := by
  have whole : AreDigits (takeDigits (c :: s)).1 := by
    refine ⟨?_, fun d member => List.mem_takeWhile_imp member⟩
    rw [takeDigits, List.takeWhile_cons_of_pos digit]
    exact List.cons_ne_nil _ _
  have parts := takeDigits_append (c :: s)
  obtain ⟨m, after, mantissa, stop, text, front, back⟩ : ∃ m after, IsMantissa m ∧
      (∀ d ∈ after.head?, d.isDigit = false) ∧ c :: s = m ++ after ∧
      (takeDigits (c :: s)).1 ++ (takeFraction (takeDigits (c :: s)).2).1 = m ∧
      (takeFraction (takeDigits (c :: s)).2).2 = after := by
    rcases takeFraction_cases (takeDigits (c :: s)).2 with
      none_taken | ⟨t, rest, decimals, stop, same, taken⟩
    · rw [none_taken]
      exact ⟨_, _, .whole whole, takeDigits_stops _, parts.symm, List.append_nil _, rfl⟩
    · rw [taken]
      refine ⟨_, rest, .fraction whole decimals, stop, ?_, rfl, rfl⟩
      rw [List.append_assoc, List.cons_append, ← same, parts]
  unfold takeNumber
  simp only [front, back]
  split
  next => exact ⟨m, after, mantissa, stop, .inl ⟨text, rfl⟩⟩
  next read negative k rest taken =>
    obtain ⟨sign, signed, digits, ends, rfl, rfl, rfl⟩ := takeExponent?_cases taken
    refine ⟨m, rest, mantissa, ends, .inr ⟨sign, k, signed, digits, text, ?_⟩⟩
    simp

theorem takeNumber_stops {c : Char} (digit : c.isDigit) (s : List Char) :
    ∀ d ∈ (takeNumber (c :: s)).2.head?, d.isDigit = false := by
  obtain ⟨m, rest, -, stop, ⟨-, taken⟩ | ⟨sign, k, -, -, -, taken⟩⟩ :=
    takeNumber_cases (s := s) digit
  · rw [taken]
    exact stop
  · rw [taken]
    exact stop

theorem takeWord_of_letter {c : Char} (letter : c.isAlpha) (s : List Char) :
    (takeWord (c :: s)).1 = c :: s.takeWhile isWordChar := by
  rw [takeWord, List.takeWhile_cons_of_pos (isWordChar_of_isAlpha letter)]

theorem takeWord_stops (s : List Char) : ∀ d ∈ (takeWord s).2.head?, isWordChar d = false := by
  intro d first
  have stop := List.head?_dropWhile_not isWordChar s
  rw [takeWord] at first
  rw [first] at stop
  simpa using stop

/-! ### The spots of numbers -/

section Spots

variable {spot : Spot} {depth : Nat} {m k sign : List Char}

theorem after?_digits (digits : AreDigits k)
    (before : spot = .awaiting ∨ spot = .point ∨ spot = .number) :
    spot.after? depth k = some (.number, depth) := by
  obtain ⟨c, s, rfl⟩ := List.exists_cons_of_ne_nil digits.1
  have digit := digits.2 c List.mem_cons_self
  have word : ∀ d ∈ c :: s, isWordChar d := fun d member =>
    isWordChar_of_isDigit (digits.2 d member)
  rcases before with rfl | rfl | rfl <;> rw [Spot.after?_cons_word word (by decide)]
  · simp [Spot.word, Spot.isWord, digit]
  · simp [Spot.word, Spot.isWord, digit]
  · rfl

theorem after?_mantissa (mantissa : IsMantissa m) :
    Spot.awaiting.after? depth m = some (.number, depth) := by
  cases mantissa with
  | whole digits => exact after?_digits digits (.inl rfl)
  | fraction digits decimals =>
    rw [Spot.after?_append_of (after?_digits digits (.inl rfl))]
    have after_point : Spot.point.after? depth _ = some (.number, depth) :=
      after?_digits decimals (.inr (.inl rfl))
    exact after_point

theorem after?_exponent (signed : IsSignText sign) (digits : AreDigits k) :
    Spot.number.after? depth ('e' :: (sign ++ k)) = some (.number, depth) := by
  have letter : Spot.number.after? depth ['e'] = some (.number, depth) := rfl
  have awaiting : Spot.awaiting.after? depth k = some (.number, depth) :=
    after?_digits digits (.inl rfl)
  rw [← List.singleton_append, Spot.after?_append_of letter]
  rcases signed with rfl | rfl | rfl
  · exact after?_digits digits (.inr (.inr rfl))
  · exact awaiting
  · exact awaiting

theorem next?_mark {c : Char} {mid : Spot} {open_ : Nat} (no_word : isWordChar c = false)
    (no_dot : c ≠ '.') (place : spot.next? depth c = some (mid, open_)) :
    mid = .awaiting ∨ mid = .closed := by
  unfold Spot.next? at place
  split at place
  case h_1 => exact absurd rfl no_dot
  case h_9 => simp [no_word] at place
  all_goals
    split at place <;> cases place
    simp

theorem after?_takeNumber {c : Char} {s : List Char} (digit : c.isDigit) :
    Spot.awaiting.after? depth (c :: s) = Spot.number.after? depth (takeNumber (c :: s)).2 := by
  obtain ⟨m, rest, mantissa, -, ⟨same, taken⟩ | ⟨sign, k, signed, digits, same, taken⟩⟩ :=
    takeNumber_cases digit
  · rw [taken, same, Spot.after?_append_of (after?_mantissa mantissa)]
  · have text : 'e' :: (sign ++ (k ++ rest)) = 'e' :: (sign ++ k) ++ rest := by simp
    rw [taken, same, text, Spot.after?_append_of (after?_mantissa mantissa),
      Spot.after?_append_of (after?_exponent signed digits)]

theorem after?_takeWord {c : Char} {s : List Char} (letter : c.isAlpha) :
    Spot.awaiting.after? depth (c :: s) = Spot.name.after? depth (takeWord (c :: s)).2 := by
  have begins := takeWord_of_letter letter s
  have word : ∀ d ∈ c :: s.takeWhile isWordChar, isWordChar d := by
    rw [← begins]
    exact fun d member => List.mem_takeWhile_imp member
  have goes : Spot.awaiting.after? depth (takeWord (c :: s)).1 = some (.name, depth) := by
    rw [begins, Spot.after?_cons_word word (by decide)]
    simp [Spot.word, Spot.isWord, Formula.isDigit_of_isAlpha letter]
  conv_lhs => rw [← takeWord_append (c :: s)]
  exact Spot.after?_append_of goes _

def stage : Spot → Option Char → Stage
  | .awaiting, _ | .point, _ => .operand
  | .name, some '(' => .argument
  | _, _ => .follower

theorem stage_of_isOperand {c : Option Char} (operand : spot.isOperand) (no_call : c ≠ some '(') :
    stage spot c = .follower := by
  cases spot with
  | awaiting | point => cases operand
  | name =>
    unfold stage
    split
    next same => cases same
    next same => cases same
    next => exact absurd rfl no_call
    next => rfl
  | _ => rfl

end Spots

/-! ### The row of normal text -/

section Row

variable {unknowns : List String} {spot : Spot} {depth : Nat} {c : Char} {s rest : List Char}
variable {text : List Char} {names : List String}

def WritesRow (unknowns : List String) (spot : Spot) (depth : Nat) (s text : List Char) : Prop :=
  ∃ ts, Spelled text ts ∧ InPlace unknowns depth (stage spot s.head?) ts

theorem apart_of_number {x : List Char} {name? : Option String} (digit : c.isDigit)
    (contributed : contribution (takeNumber (c :: s)).1 (tokens (takeNumber (c :: s)).2) =
      .ok (x, name?)) : ∀ d ∈ (takeNumber (c :: s)).2.head?, isWordChar d = false := by
  obtain ⟨read, written, number⟩ : ∃ read written, (takeNumber (c :: s)).1 = .number read written := by
    unfold takeNumber
    simp only
    split <;> exact ⟨_, _, rfl⟩
  rw [number] at contributed
  have no_digit := takeNumber_stops digit s
  intro d first
  cases after : (takeNumber (c :: s)).2 with
  | nil =>
    rw [after] at first
    cases first
  | cons e more =>
    rw [after] at first no_digit contributed
    cases first
    have digit := no_digit d rfl
    by_contra in_word
    have letter : d.isAlpha := by simpa [isWordChar, Char.isAlphanum, digit] using in_word
    rw [tokens_letter (by simp [digit]) letter] at contributed
    cases contributed

theorem inPlace_powerOfTen {n k : Numeral} {sign : List Char} {ts : List Formula.Token}
    (later : InPlace unknowns depth .follower ts) :
    InPlace unknowns depth .operand (powerOfTen n sign k ++ ts) := by
  have exponent : InPlace unknowns (depth + 2) .operand (.number k :: .closer :: .closer :: ts) :=
    .number k (.closer (.closer later))
  have signed : InPlace unknowns (depth + 2) .operand
      (signRow sign ++ .number k :: .closer :: .closer :: ts) := by
    unfold signRow
    split
    next => exact .sign exponent
    next => exact exponent
  have power := signed.bracket.operator .exp
  have whole := ((power.number (.ofNat 10)).operator .mul).number n
  have same : powerOfTen n sign k ++ ts = .opener :: .number n :: Formula.Binary.mul.token ::
      .number (.ofNat 10) :: Formula.Binary.exp.token :: .opener ::
        (signRow sign ++ .number k :: .closer :: .closer :: ts) := by
    simp [powerOfTen, Formula.Binary.token]
  rw [same]
  exact whole.bracket

theorem writesRow_number {y x : List Char} {name? : Option String} (digit : c.isDigit)
    (later : WritesRow unknowns .number depth (takeNumber (c :: s)).2 y)
    (contributed : contribution (takeNumber (c :: s)).1 (tokens (takeNumber (c :: s)).2) =
      .ok (x, name?)) : WritesRow unknowns .awaiting depth (c :: s) (x ++ y) := by
  obtain ⟨ts, spelled, in_place⟩ := later
  have follows : InPlace unknowns depth .follower ts := in_place
  obtain ⟨m, rest, mantissa, -, ⟨-, taken⟩ | ⟨sign, k, signed, digits, -, taken⟩⟩ :=
    takeNumber_cases digit
  · rw [taken] at contributed
    obtain ⟨rfl, -⟩ := contribution_number contributed
    obtain ⟨n, value⟩ := read?_of_mantissa mantissa
    exact ⟨_, .cons (mantissa.spelling value) spelled, .number n follows⟩
  · rw [taken] at contributed
    obtain ⟨rfl, -⟩ := contribution_number contributed
    obtain ⟨n, value⟩ := read?_of_mantissa mantissa
    obtain ⟨e, exponent⟩ := read?_of_mantissa (.whole digits)
    exact ⟨_, (spelled_powerOfTen mantissa value digits exponent).append spelled,
      inPlace_powerOfTen follows⟩

theorem mem_constantNames_of_canonical {w x : String} (constant : canonicalConstant? w = some x) :
    x ∈ constantNames := by
  unfold canonicalConstant? at constant
  split at constant
  next =>
    cases constant
    decide
  next =>
    split at constant <;> cases constant
    decide

theorem isCallable_of_canonical {f F : String} (function : canonicalFunction? f = some F) :
    IsCallable F := by
  obtain ⟨entry, found, rfl⟩ := Option.map_eq_some_iff.1 function
  exact known_of_mem_functionNames entry (List.mem_of_find?_eq_some found)

theorem spelling_constant {x : String} (constant : x ∈ constantNames) :
    Spelling (.identifier x) x.toList := by
  simp only [constantNames, List.mem_cons, List.not_mem_nil, or_false] at constant
  have plain : x.toList.head?.any Char.isAlpha ∧ (∀ c ∈ x.toList, isWordChar c) ∧
      lower x.toList ∉ literalWords := by
    rcases constant with rfl | rfl | rfl <;>
      simp [isWordChar, Text.lower, literalWords, Formula.numberWords]
  exact spelling_identifier plain.1 plain.2.1 plain.2.2

theorem head?_tokens_opener : (tokens rest).head? = some (.mark '(') ↔ rest.head? = some '(' := by
  constructor
  · intro first
    obtain ⟨ts, same⟩ := List.head?_eq_some_iff.1 first
    have text := read_tokens rest
    rw [same, List.flatMap_cons] at text
    rw [← text]
    rfl
  · intro first
    obtain ⟨more, rfl⟩ := List.head?_eq_some_iff.1 first
    rw [tokens_mark (by decide)]
    rfl

theorem writesRow_word {w x y : List Char} {name? : Option String}
    (letter : w.head?.any Char.isAlpha) (word : ∀ d ∈ w, isWordChar d)
    (factor : w = "Degree".toList → rest.head? ≠ some '(')
    (later : WritesRow unknowns .name depth rest y)
    (contributed : contribution (.word w) (tokens rest) = .ok (x, name?))
    (listed : ∀ n ∈ name?.toList, n ∈ unknowns)
    (no_literal : ∀ u ∈ unknowns, lower u.toList ∉ literalWords) :
    WritesRow unknowns .awaiting depth (w ++ rest) (x ++ y) := by
  obtain ⟨ts, spelled, in_place⟩ := later
  have argument (called : rest.head? = some '(') : InPlace unknowns depth .argument ts := by
    rw [called] at in_place
    exact in_place
  have follows (no_call : rest.head? ≠ some '(') : InPlace unknowns depth .follower ts := by
    rwa [stage_of_isOperand rfl no_call] at in_place
  obtain ⟨call, m, called, means, rfl, rfl⟩ := contribution_word contributed
  cases means with
  | factor same =>
    have known : "Degree" ∈ constantNames := by decide
    have chars : w = "Degree".toList := by rw [← same, String.toList_ofList]
    rw [same]
    exact ⟨_, .cons (spelling_constant known) spelled, .name (.inl known) (follows (factor chars))⟩
  | function _ _ function =>
    have facts := isFunction_of_canonical function
    have before_bracket := head?_tokens_opener.1 (called.1 rfl)
    exact ⟨_, .cons (spelling_identifier facts.starts facts.word facts.no_literal) spelled,
      .call (isCallable_of_canonical function) (argument before_bracket)⟩
  | constant _ _ _ canonical =>
    have no_bracket := mt (called.2 ∘ head?_tokens_opener.2) Bool.false_ne_true
    have constant := mem_constantNames_of_canonical canonical
    exact ⟨_, .cons (spelling_constant constant) spelled, .name (.inl constant) (follows no_bracket)⟩
  | unknown =>
    have no_bracket := mt (called.2 ∘ head?_tokens_opener.2) Bool.false_ne_true
    have known : String.ofList w ∈ unknowns := listed _ (by simp [Meaning.unknown?])
    have plain := no_literal _ known
    rw [String.toList_ofList] at plain
    have spelling : Spelling (.identifier (String.ofList w)) (String.ofList w).toList :=
      spelling_identifier (by simpa using letter) (by simpa using word) (by simpa using plain)
    exact ⟨_, .cons spelling spelled, .name (.inr known) (follows no_bracket)⟩

theorem writesRow_mark {mid : Spot} {open_ : Nat} {y : List Char} (no_word : isWordChar c = false)
    (no_dot : c ≠ '.') (no_point : spot ≠ .point)
    (place : spot.next? depth c = some (mid, open_)) (later : WritesRow unknowns mid open_ rest y) :
    WritesRow unknowns spot depth (c :: rest) (c :: y) := by
  obtain ⟨ts, spelled, in_place⟩ := later
  have operator (op : Formula.Binary) (spelling : Spelling op.token [c]) (no_call : c ≠ '(')
      (placed : (if spot.isOperand then some (Spot.awaiting, depth) else none) = some (mid, open_)) :
      WritesRow unknowns spot depth (c :: rest) (c :: y) := by
    split at placed
    next operand =>
      cases placed
      refine ⟨_, .cons spelling spelled, ?_⟩
      rw [List.head?_cons, stage_of_isOperand operand (by simpa using no_call)]
      exact .operator op in_place
    next => cases placed
  unfold Spot.next? at place
  split at place
  case h_1 => exact absurd rfl no_dot
  case h_2 =>
    by_cases operand : spot.isOperand
    · refine operator .sub (.mark rfl (by simp [Formula.Binary.token])) (by decide) ?_
      rw [if_pos operand]
      rwa [if_neg no_point] at place
    · rw [if_neg no_point] at place
      cases place
      refine ⟨_, .cons (.mark rfl (by simp)) spelled, ?_⟩
      cases spot <;> simp [Spot.isOperand] at operand no_point
      exact .sign in_place
  case h_3 => exact operator .add (.mark rfl (by simp [Formula.Binary.token])) (by decide) place
  case h_4 => exact operator .mul (.mark rfl (by simp [Formula.Binary.token])) (by decide) place
  case h_5 => exact operator .div (.mark rfl (by simp [Formula.Binary.token])) (by decide) place
  case h_6 => exact operator .exp (.mark rfl (by simp [Formula.Binary.token])) (by decide) place
  case h_7 =>
    split at place
    next => cases place
    next no_product =>
      cases place
      refine ⟨_, .cons (.mark rfl (by simp)) spelled, ?_⟩
      cases spot <;> simp at no_product no_point
      · exact .bracket in_place
      · exact .argument in_place
  case h_8 =>
    split at place
    next closes =>
      cases place
      obtain ⟨d, rfl⟩ := Nat.exists_eq_add_one.2 closes.2
      refine ⟨_, .cons (.mark rfl (by simp)) spelled, ?_⟩
      rw [List.head?_cons, stage_of_isOperand closes.1 (by simp)]
      exact .closer in_place
    next => cases place
  case h_9 => simp [no_word] at place

theorem head?_of_factor {c : Char} {s : List Char} (normal : IsNormal false (c :: s))
    (factor : (takeWord (c :: s)).1 = "Degree".toList) : (takeWord (c :: s)).2.head? = some '*' := by
  have first : c = 'D' := by
    rw [takeWord, List.takeWhile_cons] at factor
    split at factor
    next => exact (List.cons.inj factor).1
    next => cases factor
  subst first
  generalize same : 'D' :: s = t at normal factor
  cases normal with
  | nil => cases same
  | plain low _ _ =>
    cases same
    exact absurd low (by decide)
  | pair _ => cases same
  | @degrees more _ =>
    have word : ∀ d ∈ "Degree".toList, isWordChar d = true := by simp [isWordChar]
    rw [takeWord, List.dropWhile_append_of_pos word, List.dropWhile_cons_of_neg (by decide)]
    rfl

theorem awaiting_of_word {last : Spot × Nat} (word : isWordChar c)
    (path : spot.after? depth (c :: s) = some last) (no_point : spot ≠ .point)
    (apart : spot.isWord → ∀ d ∈ (c :: s).head?, isWordChar d = false) : spot = .awaiting := by
  have no_word : spot.isWord = false := by
    by_contra going
    rw [apart (Bool.not_eq_false _ ▸ going) c rfl] at word
    cases word
  cases spot with
  | awaiting => rfl
  | name | number => cases no_word
  | point => exact absurd rfl no_point
  | closed =>
    have none_after : Spot.closed.next? depth c = none := by
      unfold Spot.next?
      split
      case h_9 => simp
      all_goals exact absurd word (by decide)
    rw [Spot.after?, none_after] at path
    cases path

/-- Normal text that keeps to the spots is written as a row whose tokens stand in their places. -/
theorem writesRow_of_normal (normal : IsNormal false s)
    (path : spot.after? depth s = some (.closed, 0)) (no_point : spot ≠ .point)
    (apart : spot.isWord → ∀ d ∈ s.head?, isWordChar d = false)
    (contributed : contributions (tokens s) = .ok (text, names)) (listed : ∀ n ∈ names, n ∈ unknowns)
    (no_literal : ∀ u ∈ unknowns, lower u.toList ∉ literalWords) :
    WritesRow unknowns spot depth s text := by
  fun_induction tokens s generalizing spot depth text names with
  | case1 =>
    cases path
    cases contributed
    exact ⟨[], .nil, .done⟩
  | case2 d rest digit ih =>
    have in_word := isWordChar_of_isDigit digit
    obtain rfl := awaiting_of_word in_word path no_point apart
    obtain ⟨x, name?, y, others, of_first, of_rest, rfl, rfl⟩ := contributions_cons_eq_ok contributed
    rw [after?_takeNumber digit] at path
    refine writesRow_number digit (ih (isNormal_takeNumber normal digit) path (by decide) ?_ of_rest ?_)
      of_first
    · exact fun _ => apart_of_number digit of_first
    · exact fun n member => listed n (List.mem_append_right _ member)
  | case3 d rest no_digit letter ih =>
    have in_word := isWordChar_of_isAlpha letter
    obtain rfl := awaiting_of_word in_word path no_point apart
    obtain ⟨x, name?, y, others, of_first, of_rest, rfl, rfl⟩ := contributions_cons_eq_ok contributed
    rw [after?_takeWord letter] at path
    have parts := takeWord_append (d :: rest)
    have first : (takeWord (d :: rest)).1.head?.any Char.isAlpha := by
      rw [takeWord_of_letter letter]
      exact letter
    have factor (same : (takeWord (d :: rest)).1 = "Degree".toList) :
        (takeWord (d :: rest)).2.head? ≠ some '(' := by
      rw [head?_of_factor normal same]
      decide
    have later := ih (normal.word in_word).2 path (by decide) (fun _ => takeWord_stops _)
      of_rest fun n member =>
      listed n (List.mem_append_right _ member)
    have row := writesRow_word first (fun e member => List.mem_takeWhile_imp member) factor later
      of_first (fun n member => listed n (List.mem_append_left _ member)) no_literal
    rwa [parts] at row
  | case4 d rest no_digit no_letter ih =>
    have no_word := isWordChar_eq_false_iff.2 ⟨no_digit, no_letter⟩
    obtain ⟨x, name?, y, others, of_first, of_rest, rfl, rfl⟩ := contributions_cons_eq_ok contributed
    obtain ⟨no_dot, rfl, rfl⟩ := contribution_mark of_first
    have next := normal.tail (toLower_of_no_letter no_letter)
    rw [no_word] at next
    obtain ⟨⟨mid, open_⟩, place, goes⟩ := Option.bind_eq_some_iff.1 path
    refine writesRow_mark no_word no_dot no_point place (ih next goes ?_ ?_ of_rest listed)
    · rcases next?_mark no_word no_dot place with rfl | rfl <;> decide
    · intro going
      rcases next?_mark no_word no_dot place with rfl | rfl <;> cases going

end Row

end Simultaneous.Line

namespace Simultaneous

open Formula Line Scalar

/-! ### Residuals of accepted lines -/

section Residual

variable {mode : AngleMode} {line : String} {equation : LineEquation}

/-- The text of a residual is that of a row whose tokens stand in their places. -/
theorem exists_row_of_line (accepted : LineEquation.ofLine mode line = .ok (some equation))
    (regular : AllRegular none (bare line.toList))
    (no_literal : ∀ u ∈ equation.unknowns, Text.lower u.toList ∉ literalWords) :
    ∃ s ts, equation.residual = String.ofList s ∧ Spelled s ts ∧
      InPlace equation.unknowns 0 .operand ts := by
  obtain ⟨text, residual, names, read, contributed, rfl⟩ := LineEquation.ofLine_eq_some accepted
  have path := Pass.after?_normal regular read
  obtain ⟨ts, spelled, in_place⟩ := writesRow_of_normal (isNormal_normal read) path (by decide)
    (fun going => by cases going) contributed
    (fun n member => (mem_firstOccurrences names n).2 member) no_literal
  exact ⟨residual, ts, rfl, spelled, in_place⟩

/-- The residual of an accepted line that is written as a formula is read as an operator tree, and
the tree becomes an expression unless the value of an exponent is no number. -/
theorem residual_is_read_and_converted {α : Type} [Scalar α] {names : Names α}
    (accepted : LineEquation.ofLine mode line = .ok (some equation))
    (regular : AllRegular none (bare line.toList))
    (no_literal : ∀ u ∈ equation.unknowns, Text.lower u.toList ∉ literalWords)
    (listed : ∀ u ∈ equation.unknowns, u ∈ names.unknowns) :
    ∃ tree, Formula.read equation.residual = .ok tree ∧
      ((∃ e, Expr.ofNode names tree = .ok e) ∨
        ∃ value, Expr.ofNode names tree = .error (.exponent value)) := by
  obtain ⟨s, ts, residual, spelled, in_place⟩ := exists_row_of_line accepted regular no_literal
  obtain ⟨r, reads, known⟩ := in_place.isReadable
  refine ⟨_, residual ▸ read_of_reads spelled reads, ?_⟩
  rw [Expr.ofNode_bracket]
  exact Expr.ofNode_onlyExponentFails known listed

theorem degrees_line_is_read_and_converted :
    LineEquation.ofLine .degrees "2(sin[x_1]) - -Y^2 = 1,5E-3" =
        .ok (some ⟨"2*(Sin(Degree*(xGg1)))--y^2-1*((1.5*10^(-3)))", ["xGg1", "y"]⟩) ∧
      ∃ tree, Formula.read "2*(Sin(Degree*(xGg1)))--y^2-1*((1.5*10^(-3)))" = .ok tree ∧
        ((∃ e : Expr (Exact Interpretation.real.arithmetic),
            Expr.ofNode ⟨["xGg1", "y"], []⟩ tree = .ok e) ∨
          ∃ value, Expr.ofNode (⟨["xGg1", "y"], []⟩ : Names (Exact Interpretation.real.arithmetic))
            tree = .error (.exponent value)) := by
  have accepted : LineEquation.ofLine .degrees "2(sin[x_1]) - -Y^2 = 1,5E-3" =
      .ok (some ⟨"2*(Sin(Degree*(xGg1)))--y^2-1*((1.5*10^(-3)))", ["xGg1", "y"]⟩) := by cbv
  have regular : AllRegular none (bare "2(sin[x_1]) - -Y^2 = 1,5E-3".toList) := by decide +kernel
  have no_literal : ∀ u ∈ ["xGg1", "y"], Text.lower u.toList ∉ literalWords := by decide
  exact ⟨accepted, residual_is_read_and_converted accepted regular no_literal fun u member => member⟩

def truthTree : Node :=
  .mk .root [.mk .sub [.mk .mul [.mk .root [.leaf (.constant (.number (.ofNat 2)))],
    .leaf (.constant (.number (.ofNat 1)))], .leaf (.constant (.truth true))]]

theorem tokenize_truth : tokenize "true-1*(2)" = .ok [.truth true, .minus, .number (.ofNat 1), .star,
    .opener, .number (.ofNat 2), .closer] := by
  have value : Decimal.Numeral.read? ['2'] = some (.ofNat 2) := by decide
  have two : IsMantissa ['2'] := .whole ⟨by simp, by simp⟩
  have later : Spelled ("-1*(2)".toList) [.minus, .number (.ofNat 1), .star, .opener,
      .number (.ofNat 2), .closer] :=
    spelled_inserted.append (.cons (two.spelling value) (.single (.mark rfl (by simp))))
  obtain ⟨ps, cut, read, heads⟩ := exists_pieces later (by decide)
  have no_literal : ∀ w, ps.head? ≠ some (.literal w) := by
    intro w first
    obtain ⟨t, head, literal⟩ := heads.literal w first
    cases head
    rcases literal with literal | identifier <;> contradiction
  have word : IsLiteralText "true".toList := isLiteralText_of_word (by simp [Text.isWordChar])
  have text : "true-1*(2)".toList = "true".toList ++ "-1*(2)".toList := rfl
  rw [tokenize, text, pieces_literal (by simp) word cut no_literal]
  exact (Formula.tokens_number (t := .truth true) (by decide) ps).trans (read ▸ rfl)

/-- A line is accepted whose unknown the residual's reader takes for a truth value. -/
theorem literal_name_is_not_converted :
    LineEquation.ofLine .radians "true=2" = .ok (some ⟨"true-1*(2)", ["true"]⟩) ∧
      ∃ tree, Formula.read "true-1*(2)" = .ok tree ∧
        Expr.ofNode (⟨["true"], []⟩ : Names (Exact Interpretation.real.arithmetic)) tree =
          .error (.notNumeric (.truth true)) := by
  have tree : Formula.read "true-1*(2)" = .ok truthTree := by
    rw [Formula.read, tokenize_truth]
    cbv
  refine ⟨by cbv, truthTree, tree, ?_⟩
  have left : Expr.ofNode (⟨["true"], []⟩ : Names (Exact Interpretation.real.arithmetic))
      (.leaf (.constant (.truth true))) = .error (.notNumeric (.truth true)) := by
    rw [Node.leaf, Expr.ofNode]
    rfl
  rw [truthTree, Expr.ofNode_bracket]
  refine (Expr.ofNode_binary .sub _ _).trans ?_
  rw [left]
  rfl

end Residual

end Simultaneous
