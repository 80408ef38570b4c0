import Simultaneous.Proofs.Formula.Spelled
import Simultaneous.Proofs.Line.Sides

/-!
What normal text says in a residual, token by token: a number is its own text or the text of a power of
ten, a word is its canonical name, and a mark stays. Together these are the text of a row of the
residual's tokens.
-/

namespace Simultaneous.Line

open Decimal Text
open Formula (Spelled Spelling literalToken? literalWords numberWords)

/-! ### Digits -/

def AreDigits (s : List Char) : Prop := s ≠ [] ∧ ∀ c ∈ s, c.isDigit

def IsStop (c : Char) : Prop := isWordChar c = false ∧ c ≠ '.'

theorem IsStop.isDigit {c : Char} (stop : IsStop c) : c.isDigit = false :=
  Bool.eq_false_iff.2 (isWordChar_eq_false_iff.1 stop.1).1

theorem takeDigits_of_digits {s rest : List Char} (digits : ∀ c ∈ s, c.isDigit)
    (stop : ∀ c ∈ rest.head?, c.isDigit = false) : takeDigits (s ++ rest) = (s, rest) := by
  cases rest with
  | nil =>
    rw [List.append_nil, takeDigits, List.takeWhile_eq_self_iff.2 digits,
      List.dropWhile_eq_nil_iff.2 digits]
  | cons c more =>
    have none_left : c.isDigit = false := stop c rfl
    rw [takeDigits_append_stop none_left, takeDigits, List.takeWhile_eq_self_iff.2 digits,
      List.dropWhile_eq_nil_iff.2 digits, List.nil_append]

inductive IsMantissa : List Char → Prop
  | whole {s : List Char} : AreDigits s → IsMantissa s
  | fraction {s t : List Char} : AreDigits s → AreDigits t → IsMantissa (s ++ '.' :: t)

namespace IsMantissa

variable {m rest : List Char}

theorem digits (mantissa : IsMantissa m) : ∀ c ∈ m, c.isDigit ∨ c = '.' := by
  cases mantissa with
  | whole digits => exact fun c member => .inl (digits.2 c member)
  | fraction whole fraction =>
    intro c member
    rcases List.mem_append.1 member with before | after
    · exact .inl (whole.2 c before)
    · rcases List.mem_cons.1 after with rfl | later
      · exact .inr rfl
      · exact .inl (fraction.2 c later)

theorem ne_nil (mantissa : IsMantissa m) : m ≠ [] := by
  cases mantissa with
  | whole digits => exact digits.1
  | fraction whole _ => exact fun same => whole.1 (List.append_eq_nil_iff.1 same).1

theorem spelling {n : Numeral} (mantissa : IsMantissa m) (value : Numeral.read? m = some n) :
    Spelling (.number n) m :=
  .number mantissa.ne_nil mantissa.digits value

theorem exists_cons (mantissa : IsMantissa m) : ∃ c s, m = c :: s ∧ c.isDigit := by
  cases mantissa with
  | whole digits =>
    obtain ⟨c, s, rfl⟩ := List.exists_cons_of_ne_nil digits.1
    exact ⟨c, s, rfl, digits.2 c List.mem_cons_self⟩
  | fraction whole _ =>
    obtain ⟨c, s, rfl⟩ := List.exists_cons_of_ne_nil whole.1
    exact ⟨c, _, rfl, whole.2 c List.mem_cons_self⟩

theorem parts (mantissa : IsMantissa m)
    (stop : ∀ c ∈ rest.head?, c.isDigit = false ∧ c ≠ '.') :
    (takeDigits (m ++ rest)).1 ++ (takeFraction (takeDigits (m ++ rest)).2).1 = m ∧
      (takeFraction (takeDigits (m ++ rest)).2).2 = rest := by
  cases mantissa with
  | whole digits =>
    have whole := takeDigits_of_digits digits.2 fun c first => (stop c first).1
    have no_fraction : takeFraction rest = ([], rest) := by
      cases rest with
      | nil => rfl
      | cons c more =>
        have point := (stop c rfl).2
        simp [takeFraction, point]
    simp only [whole, no_fraction, List.append_nil, and_self]
  | @fraction s t digits decimals =>
    have whole : takeDigits (s ++ '.' :: (t ++ rest)) = (s, '.' :: (t ++ rest)) :=
      takeDigits_of_digits digits.2 fun c first => by
        cases first
        decide
    have after := takeDigits_of_digits decimals.2 fun c first => (stop c first).1
    obtain ⟨d, more, rfl⟩ := List.exists_cons_of_ne_nil decimals.1
    have fraction : takeFraction ('.' :: (d :: more ++ rest)) = ('.' :: d :: more, rest) := by
      simp only [takeFraction, after]
    rw [List.append_assoc, List.cons_append]
    simp only [whole, fraction, and_self]

theorem takeNumber_of_none (mantissa : IsMantissa m)
    (stop : ∀ c ∈ rest.head?, c.isDigit = false ∧ c ≠ '.') (no_exponent : takeExponent? rest = none) :
    takeNumber (m ++ rest) = (.number m m, rest) := by
  obtain ⟨front, back⟩ := mantissa.parts stop
  unfold takeNumber
  simp only [front, back, no_exponent]

theorem takeNumber_of_some (mantissa : IsMantissa m)
    (stop : ∀ c ∈ rest.head?, c.isDigit = false ∧ c ≠ '.') {read digits after : List Char}
    {negative : Bool} (exponent : takeExponent? rest = some (read, negative, digits, after)) :
    takeNumber (m ++ rest) = (.number (m ++ read) ("(".toList ++ m ++ "*10^(".toList ++
      (if negative then ['-'] else []) ++ digits ++ "))".toList), after) := by
  obtain ⟨front, back⟩ := mantissa.parts stop
  unfold takeNumber
  simp only [front, back, exponent]

end IsMantissa

/-! ### Rows -/

def Token.Apart : Token → Token → Prop
  | .number _ _, .word _ => False
  | _, _ => True

structure Contributes (w : List Char) (ts : List Formula.Token) : Prop where
  apart : (tokens w).IsChain Token.Apart
  spelled : ∀ text names, contributions (tokens w) = .ok (text, names) → Spelled text ts

theorem isMark_of_stop {s : List Char} (stop : ∀ c ∈ s.head?, IsStop c) :
    ∀ t ∈ (tokens s).head?, ∃ c, t = .mark c := by
  cases s with
  | nil =>
    rw [tokens]
    intro t first
    cases first
  | cons c rest =>
    rw [tokens_mark (stop c rfl).1]
    intro t first
    cases first
    exact ⟨c, rfl⟩

namespace Contributes

variable {w rest : List Char} {us ts : List Formula.Token}

theorem not_runsOn (row : Contributes w ts) : ¬RunsOn w := by
  rintro ⟨front, mantissa, ends⟩
  have chain := row.apart
  rw [ends] at chain
  obtain ⟨-, both, -⟩ := List.isChain_append.1 chain
  exact (List.isChain_cons_cons.1 both).1

theorem nil : Contributes [] [] := by
  have none : tokens [] = [] := by rw [tokens]
  refine ⟨none ▸ .nil, fun text names read => ?_⟩
  rw [none] at read
  cases read
  exact .nil

theorem cons {t : Token} (first : tokens w = t :: tokens rest)
    (apart : ∀ u ∈ (tokens rest).head?, t.Apart u)
    (contributed : ∀ x name?, contribution t (tokens rest) = .ok (x, name?) → Spelled x us)
    (row : Contributes rest ts) : Contributes w (us ++ ts) := by
  constructor
  · rw [first]
    exact List.isChain_cons.2 ⟨apart, row.apart⟩
  · intro text names read
    rw [first] at read
    obtain ⟨x, name?, y, others, of_first, of_rest, rfl, -⟩ := contributions_cons_eq_ok read
    exact (contributed x name? of_first).append (row.spelled y others of_rest)

theorem mark {c : Char} {u : Formula.Token} (stop : IsStop c) (spelling : Spelling u [c])
    (row : Contributes rest ts) : Contributes (c :: rest) (u :: ts) := by
  show Contributes (c :: rest) ([u] ++ ts)
  refine cons (tokens_mark stop.1 rest) (fun _ _ => trivial) ?_ row
  intro x name? contributed
  obtain ⟨-, rfl, -⟩ := contribution_mark contributed
  exact .cons spelling .nil

theorem tokens_of_mantissa {m : List Char} (mantissa : IsMantissa m) (s : List Char) :
    tokens (m ++ s) = (takeNumber (m ++ s)).1 :: tokens (takeNumber (m ++ s)).2 := by
  obtain ⟨c, more, rfl, digit⟩ := mantissa.exists_cons
  exact tokens_digit digit (more ++ s)

theorem number {m : List Char} {n : Numeral} (mantissa : IsMantissa m)
    (value : Numeral.read? m = some n) (stop : ∀ c ∈ rest.head?, IsStop c)
    (row : Contributes rest ts) : Contributes (m ++ rest) (.number n :: ts) := by
  have no_exponent : takeExponent? rest = none := by
    cases rest with
    | nil => rfl
    | cons c more =>
      have letter : c ≠ 'e' := by
        rintro rfl
        exact absurd (stop 'e' rfl).1 (by decide)
      simp [takeExponent?, letter]
  have taken := mantissa.takeNumber_of_none (fun c first => ⟨(stop c first).isDigit, (stop c first).2⟩)
    no_exponent
  have first := tokens_of_mantissa mantissa rest
  rw [taken] at first
  show Contributes (m ++ rest) ([Formula.Token.number n] ++ ts)
  refine cons first ?_ ?_ row
  · intro u next
    obtain ⟨c, rfl⟩ := isMark_of_stop stop u next
    trivial
  · intro x name? contributed
    obtain ⟨rfl, -⟩ := contribution_number contributed
    exact .single (mantissa.spelling value)

end Contributes

def signRow (sign : List Char) : List Formula.Token := if sign = ['-'] then [.minus] else []

def powerOfTen (n : Numeral) (sign : List Char) (k : Numeral) : List Formula.Token :=
  .opener :: .number n :: .star :: .number (.ofNat 10) :: .hat :: .opener ::
    (signRow sign ++ .number k :: .closer :: .closer :: [])

def IsSignText (sign : List Char) : Prop := sign = [] ∨ sign = ['+'] ∨ sign = ['-']

theorem takeExponent?_eq {sign k rest : List Char} (signed : IsSignText sign) (digits : AreDigits k)
    (stop : ∀ c ∈ rest.head?, c.isDigit = false) :
    takeExponent? ('e' :: (sign ++ (k ++ rest))) =
      some ('e' :: (sign ++ k), decide (sign = ['-']), k, rest) := by
  have taken := takeDigits_of_digits digits.2 stop
  obtain ⟨d, more, rfl⟩ := List.exists_cons_of_ne_nil digits.1
  have digit := digits.2 d List.mem_cons_self
  have others : d ≠ '-' ∧ d ≠ '+' := by
    constructor <;> rintro rfl <;> exact absurd digit (by decide)
  rw [List.cons_append] at taken
  obtain rfl | rfl | rfl := signed
  · simp [takeExponent?, others, taken]
  · simp [takeExponent?, taken]
  · simp [takeExponent?, taken]

theorem spelled_powerOfTen {m sign k : List Char} {n x : Numeral} (mantissa : IsMantissa m)
    (value : Numeral.read? m = some n) (digits : AreDigits k) (exponent : Numeral.read? k = some x) :
    Spelled ("(".toList ++ m ++ "*10^(".toList ++ (if sign = ['-'] then ['-'] else []) ++ k ++
      "))".toList) (powerOfTen n sign x) := by
  have value_ten : Numeral.read? ['1', '0'] = some (.ofNat 10) := by decide +kernel
  have ten : Spelling (.number (.ofNat 10)) ['1', '0'] :=
    (IsMantissa.whole ⟨by simp, by simp⟩).spelling value_ten
  have closers : Spelled ([')'] ++ [')']) [.closer, .closer] :=
    .cons (.mark rfl (by simp)) (.single (.mark rfl (by simp)))
  have base : Spelled (['('] ++ (m ++ (['*'] ++ (['1', '0'] ++ (['^'] ++ ['('])))))
      [.opener, .number n, .star, .number (.ofNat 10), .hat, .opener] :=
    .cons (.mark rfl (by simp)) (.cons (mantissa.spelling value) (.cons (.mark rfl (by simp))
      (.cons ten (.cons (.mark rfl (by simp)) (.single (.mark rfl (by simp)))))))
  have minus : Spelled (if sign = ['-'] then ['-'] else []) (signRow sign) := by
    unfold signRow
    split
    next => exact .single (.mark rfl (by simp))
    next => exact .nil
  have last : Spelled (k ++ ([')'] ++ [')'])) [.number x, .closer, .closer] :=
    .cons ((IsMantissa.whole digits).spelling exponent) closers
  have text := base.append (minus.append last)
  simp only [List.append_assoc] at text ⊢
  exact text

namespace Contributes

theorem scientific {m sign k rest : List Char} {n x : Numeral} {ts : List Formula.Token}
    (mantissa : IsMantissa m) (value : Numeral.read? m = some n) (signed : IsSignText sign)
    (digits : AreDigits k) (exponent : Numeral.read? k = some x) (stop : ∀ c ∈ rest.head?, IsStop c)
    (row : Contributes rest ts) :
    Contributes (m ++ 'e' :: (sign ++ (k ++ rest))) (powerOfTen n sign x ++ ts) := by
  have taken := mantissa.takeNumber_of_some
    (fun c first => by
      cases first
      decide)
    (takeExponent?_eq signed digits fun c first => (stop c first).isDigit)
  have first := tokens_of_mantissa mantissa ('e' :: (sign ++ (k ++ rest)))
  rw [taken] at first
  refine cons first ?_ ?_ row
  · intro u next
    obtain ⟨c, rfl⟩ := isMark_of_stop stop u next
    trivial
  · intro y name? contributed
    obtain ⟨rfl, -⟩ := contribution_number contributed
    simpa using spelled_powerOfTen mantissa value digits exponent

end Contributes

/-! ### Words -/

structure IsFunction (f F : String) : Prop where
  lower : f.toList ≠ [] ∧ ∀ c ∈ f.toList, c.isLower
  no_factor : f ≠ "Degree"
  no_underscore : f.toList.head? ≠ some 'G'
  starts : F.toList.head?.any Char.isAlpha
  word : ∀ c ∈ F.toList, isWordChar c
  no_literal : Text.lower F.toList ∉ literalWords

theorem isFunction_of_mem (entry : String × String) (member : entry ∈ functionNames) :
    IsFunction entry.1 entry.2 := by
  have lower : ∀ e ∈ functionNames, e.1.toList ≠ [] ∧ ∀ c ∈ e.1.toList, c.isLower := by
    simp [functionNames]
  have plain : ∀ e ∈ functionNames, e.1 ≠ "Degree" ∧ e.1.toList.head? ≠ some 'G' := by
    simp [functionNames]
  have starts : ∀ e ∈ functionNames, e.2.toList.head?.any Char.isAlpha := by
    simp [functionNames]
  have word : ∀ e ∈ functionNames, ∀ c ∈ e.2.toList, isWordChar c := by
    simp [functionNames, isWordChar]
  have no_literal : ∀ e ∈ functionNames, Text.lower e.2.toList ∉ literalWords := by
    simp [functionNames, Text.lower, literalWords, numberWords]
  exact ⟨lower entry member, (plain entry member).1, (plain entry member).2, starts entry member,
    word entry member, no_literal entry member⟩

theorem isFunction_of_canonical {f F : String} (function : canonicalFunction? f = some F) :
    IsFunction f F := by
  obtain ⟨entry, found, rfl⟩ := Option.map_eq_some_iff.1 function
  have same := List.find?_some found
  rw [decide_eq_true_eq] at same
  exact same ▸ isFunction_of_mem entry (List.mem_of_find?_eq_some found)

theorem Means.text_of_function {f F : String} {call : Bool} {m : Meaning}
    (means : Means f call m) (function : canonicalFunction? f = some F) : m.text = F := by
  cases means with
  | factor factor => exact absurd factor (isFunction_of_canonical function).no_factor
  | function _ _ same =>
    cases same.symm.trans function
    rfl
  | constant _ _ no_function | unknown _ _ no_function =>
    rw [no_function] at function
    cases function

def canonicalWord (w : String) : String := (canonicalConstant? w).getD w

theorem Means.text_of_name {w : String} {call : Bool} {m : Meaning}
    (means : Means w call m) (no_function : canonicalFunction? w = none) :
    m.text = canonicalWord w := by
  cases means with
  | factor factor =>
    rw [factor]
    decide
  | function _ _ function =>
    rw [no_function] at function
    cases function
  | constant _ _ _ constant =>
    rw [canonicalWord, constant]
    rfl
  | unknown _ _ _ no_constant =>
    rw [canonicalWord, no_constant]
    rfl

theorem spelling_identifier {x : String} (letter : x.toList.head?.any Char.isAlpha)
    (word : ∀ c ∈ x.toList, isWordChar c) (no_literal : lower x.toList ∉ literalWords) :
    Spelling (.identifier x) x.toList := by
  rcases chars : x.toList with _ | ⟨c, s⟩
  · rw [chars] at letter
    cases letter
  · rw [chars] at letter word no_literal
    have same : x = String.ofList (c :: s) := by rw [← chars, String.ofList_toList]
    rw [same]
    exact .name letter word (Formula.literalToken?_of_letter letter no_literal)

theorem tokens_word {w rest : List Char} (letter : w.head?.any Char.isAlpha)
    (word : ∀ c ∈ w, isWordChar c) (stop : ∀ c ∈ rest.head?, isWordChar c = false) :
    tokens (w ++ rest) = .word w :: tokens rest := by
  have taken : takeWord (w ++ rest) = (w, rest) := by
    have front : w.takeWhile isWordChar = w := List.takeWhile_eq_self_iff.2 word
    have none_left : w.dropWhile isWordChar = [] := List.dropWhile_eq_nil_iff.2 word
    cases rest with
    | nil => rw [List.append_nil, takeWord, front, none_left]
    | cons c more =>
      rw [takeWord, takeWhile_append_stop (stop c rfl), dropWhile_append_stop (stop c rfl), front,
        none_left, List.nil_append]
  cases w with
  | nil => cases letter
  | cons c more =>
    have first : c.isAlpha := letter
    rw [List.cons_append] at taken ⊢
    rw [tokens_letter (by rw [Formula.isDigit_of_isAlpha first]; decide) first, taken]

namespace Contributes

theorem word {w rest : List Char} {x : String} {ts : List Formula.Token}
    (letter : w.head?.any Char.isAlpha) (word : ∀ c ∈ w, isWordChar c)
    (stop : ∀ c ∈ rest.head?, isWordChar c = false)
    (means : ∀ call m, Means (String.ofList w) call m → m.text = x)
    (spelling : Spelling (.identifier x) x.toList) (row : Contributes rest ts) :
    Contributes (w ++ rest) (.identifier x :: ts) := by
  show Contributes (w ++ rest) ([Formula.Token.identifier x] ++ ts)
  refine cons (tokens_word letter word stop) (fun _ _ => trivial) ?_ row
  intro y name? contributed
  obtain ⟨call, m, -, meant, rfl, -⟩ := contribution_word contributed
  rw [means call m meant]
  exact .single spelling

theorem closed {w rest : List Char} {us ts : List Formula.Token} (inner : Contributes w us)
    (row : Contributes rest ts) : Contributes (w ++ ')' :: rest) (us ++ .closer :: ts) := by
  have stop : IsStop ')' := ⟨by decide, by decide⟩
  have closing : Contributes (')' :: rest) (.closer :: ts) := mark stop (.mark rfl (by simp)) row
  have cut : tokens (w ++ ')' :: rest) = tokens w ++ tokens (')' :: rest) :=
    tokens_append stop.1 stop.2 w rest fun sign => absurd sign (by decide)
  have first : tokens (')' :: rest) = .mark ')' :: tokens rest := tokens_mark stop.1 rest
  constructor
  · rw [cut]
    refine List.isChain_append.2 ⟨inner.apart, closing.apart, fun t _ u next => ?_⟩
    rw [first] at next
    cases next
    cases t <;> trivial
  · intro text names read
    have neutral : (Token.mark ')').IsNeutral := ⟨by decide, by decide⟩
    rw [cut, first, contributions_append neutral, ← first] at read
    obtain ⟨a, as, b, bs, of_inner, of_rest, rfl⟩ := joined_eq_ok read
    exact (inner.spelled a as of_inner).append (closing.spelled b bs of_rest)

end Contributes

/-! ### Brackets -/

def enclosed : Bracket → List Formula.Token → List Formula.Token
  | .plain, ts | .call, ts => .opener :: (ts ++ [.closer])
  | .degrees, ts => .opener :: .identifier "Degree" :: .star :: .opener :: (ts ++ [.closer, .closer])

theorem Contributes.enclosed {w rest : List Char} {us ts : List Formula.Token} (kind : Bracket)
    (inner : Contributes w us) (row : Contributes rest ts) :
    Contributes (kind.opener.toList ++ (w ++ (kind.closer.toList ++ rest)))
      (Line.enclosed kind us ++ ts) := by
  have opened {s : List Char} {vs : List Formula.Token} (later : Contributes s vs) :
      Contributes ('(' :: s) (.opener :: vs) :=
    mark ⟨by decide, by decide⟩ (.mark rfl (by simp)) later
  have simple := opened (inner.closed row)
  cases kind with
  | plain | call => simpa [Line.enclosed, Bracket.opener, Bracket.closer] using simple
  | degrees =>
    have closing : Contributes (')' :: rest) (.closer :: ts) :=
      mark ⟨by decide, by decide⟩ (.mark rfl (by simp)) row
    have factor : Contributes ('*' :: '(' :: (w ++ ')' :: ')' :: rest))
        (.star :: .opener :: (us ++ .closer :: .closer :: ts)) :=
      mark ⟨by decide, by decide⟩ (.mark rfl (by simp)) (opened (inner.closed closing))
    have means : ∀ call m, Means (String.ofList "Degree".toList) call m → m.text = "Degree" := by
      intro call m means
      rw [String.ofList_toList] at means
      exact means.text_of_name (by decide)
    have spelling : Spelling (.identifier "Degree") "Degree".toList :=
      spelling_identifier (by decide) (by simp [isWordChar])
        (by simp [lower, literalWords, numberWords])
    have product : Contributes ("Degree".toList ++ '*' :: '(' :: (w ++ ')' :: ')' :: rest))
        (.identifier "Degree" :: .star :: .opener :: (us ++ .closer :: .closer :: ts)) :=
      word (by decide) (by simp [isWordChar]) (by simp [isWordChar]) means spelling factor
    simpa [Line.enclosed, Bracket.opener, Bracket.closer] using opened product

end Simultaneous.Line
