import Simultaneous.Proofs.Line.Typed

/-!
Where a text may go on. Reading normal text character by character, all that matters for the next
character is whether an operand is awaited, a name or a number is going on, or a bracket was closed,
and how many brackets are open. The character pass keeps to these spots on every line that is
written as a formula is.
-/

namespace Simultaneous.Line

open Text

/-! ### Spots of normal text -/

inductive Spot where
  /-- nothing yet, an operator or an opener -/
  | awaiting
  | name
  | number
  | point
  | closed
deriving DecidableEq

def width : Bracket → Nat
  | .plain | .call => 1
  | .degrees => 2

namespace Spot

def isWord : Spot → Bool
  | name | number => true
  | _ => false

def isOperand : Spot → Bool
  | name | number | closed => true
  | _ => false

def word (spot : Spot) (c : Char) : Spot :=
  if spot.isWord then spot else if c.isDigit then number else name

/-- The spot after one more character and the number of brackets that are open there; nothing if
the character has no place. -/
def next? (spot : Spot) (depth : Nat) (c : Char) : Option (Spot × Nat) :=
  match c with
  | '.' => if spot.isWord then some (point, depth) else none
  | '-' => if spot = point then none else some (awaiting, depth)
  | '+' | '*' | '/' | '^' => if spot.isOperand then some (awaiting, depth) else none
  | '(' => if spot = number ∨ spot = closed then none else some (awaiting, depth + 1)
  | ')' => if spot.isOperand ∧ 0 < depth then some (closed, depth - 1) else none
  | c => if isWordChar c ∧ spot ≠ closed then some (spot.word c, depth) else none

def after? (spot : Spot) (depth : Nat) : List Char → Option (Spot × Nat)
  | [] => some (spot, depth)
  | c :: s => (spot.next? depth c).bind fun place => place.1.after? place.2 s

variable {spot mid last : Spot} {depth open_ opened : Nat} {c : Char} {s t : List Char}

theorem after?_append (s t : List Char) : spot.after? depth (s ++ t) =
    (spot.after? depth s).bind fun place => place.1.after? place.2 t := by
  induction s generalizing spot depth with
  | nil => rfl
  | cons c s ih =>
    rw [List.cons_append, after?, after?, Option.bind_assoc]
    exact Option.bind_congr fun place _ => ih

theorem after?_append_of (front : spot.after? depth s = some (mid, open_)) (t : List Char) :
    spot.after? depth (s ++ t) = mid.after? open_ t := by
  rw [after?_append, front, Option.bind_some]

theorem next?_word (in_word : isWordChar c) (no_closer : spot ≠ closed) :
    spot.next? depth c = some (spot.word c, depth) := by
  have other {d : Char} (no_word : isWordChar d = false) : c ≠ d := by
    rintro rfl
    rw [no_word] at in_word
    cases in_word
  unfold next?
  split
  case h_9 => rw [if_pos ⟨in_word, no_closer⟩]
  all_goals exact absurd in_word (by decide)

theorem isWord_word (spot : Spot) (c : Char) : (spot.word c).isWord := by
  unfold word
  split
  next going => exact going
  next => split <;> rfl

theorem word_of_isWord (going : spot.isWord) (c : Char) : spot.word c = spot := by
  rw [word, if_pos going]

theorem ne_closed_of_isWord (going : spot.isWord) : spot ≠ closed := by
  rintro rfl
  cases going

theorem after?_word (in_word : ∀ d ∈ s, isWordChar d) (going : spot.isWord) :
    spot.after? depth s = some (spot, depth) := by
  induction s with
  | nil => rfl
  | cons d s ih =>
    have first : spot.next? depth d = some (spot.word d, depth) :=
      next?_word (in_word d List.mem_cons_self) (ne_closed_of_isWord going)
    rw [after?, first, word_of_isWord going, Option.bind_some]
    exact ih fun e member => in_word e (List.mem_cons_of_mem d member)

theorem after?_cons_word (in_word : ∀ d ∈ c :: s, isWordChar d) (no_closer : spot ≠ closed) :
    spot.after? depth (c :: s) = some (spot.word c, depth) := by
  rw [after?, next?_word (in_word c List.mem_cons_self) no_closer, Option.bind_some]
  exact after?_word (fun d member => in_word d (List.mem_cons_of_mem c member)) (isWord_word spot c)

theorem next?_operator (member : c ∈ ['+', '-', '*', '/', '^'])
    (place : spot.isOperand ∨ c = '-' ∧ spot = awaiting) :
    spot.next? depth c = some (awaiting, depth) := by
  rcases place with operand | ⟨rfl, rfl⟩
  · have others : spot ≠ point := by
      rintro rfl
      cases operand
    simp only [List.mem_cons, List.not_mem_nil, or_false] at member
    rcases member with rfl | rfl | rfl | rfl | rfl <;> simp [next?, operand, others]
  · rfl

theorem after?_opener (kind : Bracket) (no_product : spot ≠ number ∧ spot ≠ closed) :
    spot.after? depth kind.opener.toList = some (awaiting, depth + width kind) := by
  obtain ⟨no_number, no_closer⟩ := no_product
  cases spot with
  | number => exact absurd rfl no_number
  | closed => exact absurd rfl no_closer
  | _ => cases kind <;> rfl

theorem next?_closer (operand : spot.isOperand) :
    spot.next? (depth + 1) ')' = some (closed, depth) :=
  if_pos ⟨operand, Nat.succ_pos depth⟩

theorem after?_closer (kind : Bracket) (operand : spot.isOperand) :
    spot.after? (depth + width kind) kind.closer.toList = some (closed, depth) := by
  have one (open_ : Nat) : spot.next? (open_ + 1) ')' = some (closed, open_) := next?_closer operand
  cases kind with
  | plain | call => exact (congrArg (Option.bind · _) (one depth)).trans rfl
  | degrees => exact (congrArg (Option.bind · _) (one (depth + 1))).trans rfl

end Spot

/-! ### Lines that keep to the spots -/

def isNameChar (c : Char) : Bool := isWordChar c || c == '_'

/-- A character stands after the one before it as it does in a formula: no factorial, no operator
without its left operand, no plus for a sign, and no name or number right after a closing bracket. -/
structure Regular (before : Option Char) (c : Char) : Prop where
  no_factorial : c ≠ '!'
  not_first : c ∈ ['*', '/', '^'] → before ≠ none
  no_sign : c = '+' → before.any fun b => isNameChar b || isCloser b
  apart : isNameChar c → before.any isCloser = false

instance (before : Option Char) (c : Char) : Decidable (Regular before c) :=
  decidable_of_iff (c ≠ '!' ∧ (c ∈ ['*', '/', '^'] → before ≠ none) ∧
    (c = '+' → before.any fun b => isNameChar b || isCloser b) ∧
    (isNameChar c → before.any isCloser = false))
    ⟨fun h => ⟨h.1, h.2.1, h.2.2.1, h.2.2.2⟩,
      fun h => ⟨h.no_factorial, h.not_first, h.no_sign, h.apart⟩⟩

def AllRegular (before : Option Char) : List Char → Prop
  | [] => True
  | c :: s => Regular before c ∧ AllRegular (some c) s

instance decidableAllRegular : (before : Option Char) → (s : List Char) →
    Decidable (AllRegular before s)
  | _, [] => isTrue trivial
  | before, c :: s =>
    have := decidableAllRegular (some c) s
    inferInstanceAs (Decidable (Regular before c ∧ AllRegular (some c) s))

/-! ### The spots of the pass -/

namespace Pass

def spot (p : Pass) : Spot :=
  match p.previous with
  | none => .awaiting
  | some b =>
    if isNameChar b then if p.endsWithNumber then .number else .name
    else if isSeparator b then .point
    else if isCloser b then .closed
    else .awaiting

def depth (p : Pass) : Nat := (p.brackets.map width).sum + if p.equality then 1 else 0

theorem depth_of_push {p q : Pass} {kind : Bracket} (pushed : q.brackets = kind :: p.brackets)
    (same : q.equality = p.equality) : q.depth = p.depth + width kind := by
  rw [depth, depth, pushed, same, List.map_cons, List.sum_cons, Nat.add_comm (width kind),
    Nat.add_right_comm]

/-- What was written is normal text up to a spot, and the pass knows this spot. -/
structure Stands (p : Pass) : Prop where
  path : Spot.after? .awaiting 0 p.written.reverse = some (p.spot, p.depth)
  going : p.previous.any isNameChar ↔ p.lastWord ≠ []
  unopened : p.previous = none → p.brackets = []
  opened : ∀ b ∈ p.previous, isOpener b → p.brackets ≠ []
  allowed : ∀ b ∈ p.previous, isAllowed b ∧ isSpace b = false

theorem stands_start : Pass.start.Stands :=
  ⟨rfl, by simp [start, lastWord], fun _ => rfl, nofun, nofun⟩

end Pass

/-! #### What stands before a spot -/

theorem isSeparator_marks {b : Char} (separator : isSeparator b) :
    isNameChar b = false ∧ isCloser b = false ∧ isOperator b ∧ takesSign b = false := by
  simp only [isSeparator, Bool.or_eq_true, beq_iff_eq] at separator
  rcases separator with rfl | rfl <;> decide

theorem isCloser_marks {b : Char} (closer : isCloser b) :
    isNameChar b = false ∧ isSeparator b = false ∧ isOperator b = false ∧ isOpener b = false := by
  simp only [isCloser, Bool.or_eq_true, beq_iff_eq] at closer
  rcases closer with rfl | rfl <;> decide

theorem isOpener_marks {b : Char} (opener : isOpener b) :
    isNameChar b = false ∧ isSeparator b = false ∧ isCloser b = false := by
  simp only [isOpener, Bool.or_eq_true, beq_iff_eq] at opener
  rcases opener with rfl | rfl <;> decide

theorem kind_of_allowed {b : Char} (allowed : isAllowed b) (visible : isSpace b = false)
    (no_operator : isOperator b = false) : isNameChar b ∨ isCloser b ∨ isOpener b := by
  unfold isAllowed at allowed
  unfold isNameChar
  rw [visible, no_operator] at allowed
  revert allowed
  cases isWordChar b <;> cases isCloser b <;> cases isOpener b <;> simp

namespace Pass

variable {p : Pass} {b : Char}

theorem spot_of_name (before : p.previous = some b) (name : isNameChar b) :
    p.spot = if p.endsWithNumber then .number else .name := by
  unfold spot
  rw [before]
  simp only [name, if_true]

theorem spot_of_closer (before : p.previous = some b) (closer : isCloser b) : p.spot = .closed := by
  obtain ⟨no_name, no_separator, -, -⟩ := isCloser_marks closer
  unfold spot
  rw [before]
  simp only [no_name, no_separator, closer, Bool.false_eq_true, if_false, if_true]

theorem spot_of_separator (before : p.previous = some b) (separator : isSeparator b) :
    p.spot = .point := by
  obtain ⟨no_name, -, -, -⟩ := isSeparator_marks separator
  unfold spot
  rw [before]
  simp only [no_name, separator, Bool.false_eq_true, if_false, if_true]

theorem spot_of_none (before : p.previous = none) : p.spot = .awaiting := by
  unfold spot
  rw [before]

theorem spot_of_mark (before : p.previous = some b) (no_name : isNameChar b = false)
    (no_separator : isSeparator b = false) (no_closer : isCloser b = false) :
    p.spot = .awaiting := by
  unfold spot
  rw [before]
  simp only [no_name, no_separator, no_closer, Bool.false_eq_true, if_false]

theorem isOperand_spot (before : p.previous = some b) (operand : isNameChar b ∨ isCloser b) :
    p.spot.isOperand := by
  rcases operand with name | closer
  · rw [spot_of_name before name]
    split <;> rfl
  · rw [spot_of_closer before closer]
    rfl

/-- After anything but a word and a closer an operand is awaited, or a number goes on after its
point. -/
theorem spot_of_others (no_name : p.previous.any isNameChar = false)
    (no_closer : p.previous.any isCloser = false) : p.spot = .awaiting ∨ p.spot = .point := by
  unfold spot
  cases before : p.previous with
  | none => exact .inl rfl
  | some b =>
    rw [before, Option.any_some] at no_name no_closer
    simp only [no_name, no_closer, Bool.false_eq_true, if_false]
    split
    next => exact .inr rfl
    next => exact .inl rfl

theorem isWord_spot (before : p.previous = some b) (name : isNameChar b) : p.spot.isWord := by
  rw [spot_of_name before name]
  split <;> rfl

namespace Stands

variable (stands : p.Stands)
include stands

/-- A number is going on or a bracket was closed just where a bracket multiplies. -/
theorem multiplies_iff : (p.previous.any isCloser || p.endsWithNumber) = true ↔
    p.spot = .number ∨ p.spot = .closed := by
  have number : p.endsWithNumber → p.previous.any isNameChar := by
    intro ends
    rw [stands.going]
    intro none_there
    rw [endsWithNumber, none_there] at ends
    cases ends
  cases before : p.previous with
  | none =>
    rw [before] at number
    rw [spot_of_none before]
    cases ends : p.endsWithNumber with
    | false => simp
    | true => exact absurd (number ends) (by simp)
  | some b =>
    rw [before] at number
    simp only [Option.any_some, Bool.or_eq_true] at number ⊢
    by_cases name : isNameChar b
    · have no_closer : isCloser b = false := by
        by_contra closer
        rw [(isCloser_marks (Bool.not_eq_false _ ▸ closer)).1] at name
        cases name
      rw [spot_of_name before name, no_closer]
      cases p.endsWithNumber <;> simp
    · have no_number : p.endsWithNumber = false := by
        by_contra ends
        exact name (number (Bool.not_eq_false _ ▸ ends))
      rw [no_number]
      by_cases closer : isCloser b
      · simp [spot_of_closer before closer, closer]
      · by_cases separator : isSeparator b
        · simp [spot_of_separator before separator, closer]
        · rw [spot_of_mark before (by simpa using name) (by simpa using separator)
            (by simpa using closer)]
          simp [closer]

theorem path_write {s : String} {spot : Spot} {depth : Nat}
    (goes : p.spot.after? p.depth s.toList = some (spot, depth)) :
    Spot.after? .awaiting 0 (p.write s).written.reverse = some (spot, depth) := by
  rw [write, List.reverse_append, List.reverse_reverse, Spot.after?_append_of stands.path]
  exact goes

/-! #### The pass from spot to spot -/

theorem name {c d : Char} {t : List Char} {s : String} (chars : s.toList = d :: t)
    (name : isNameChar c) (apart : p.previous.any isCloser = false)
    (word : ∀ e ∈ d :: t, isWordChar e) (allowed : isAllowed c ∧ isSpace c = false) :
    Stands { p.write s with previous := some c } := by
  have back : ∀ e ∈ (d :: t).reverse, isWordChar e := fun e member =>
    word e (List.mem_reverse.1 member)
  have last : lastWord { p.write s with previous := some c } = p.lastWord ++ d :: t := by
    simp only [lastWord, write, chars, List.takeWhile_append_of_pos back, List.reverse_append,
      List.reverse_reverse]
  have no_opener : isOpener c = false := by
    by_contra opener
    rw [(isOpener_marks (Bool.not_eq_false _ ▸ opener)).1] at name
    cases name
  have goes : p.spot.after? p.depth s.toList =
      some (spot { p.write s with previous := some c }, p.depth) := by
    have here : spot { p.write s with previous := some c } = _ := spot_of_name rfl name
    rw [here, endsWithNumber, last, chars]
    cases named : p.previous.any isNameChar with
    | true =>
      obtain ⟨b, before, is_name⟩ := (Option.any_eq_true ..).1 named
      have some_word := stands.going.1 named
      rw [Spot.after?_word word (isWord_spot before is_name), spot_of_name before is_name,
        endsWithNumber, List.head?_append_of_ne_nil _ some_word]
    | false =>
      have no_word : p.lastWord = [] := by
        by_contra some_word
        rw [stands.going.2 some_word] at named
        cases named
      rw [no_word, List.nil_append, List.head?_cons, Option.any_some]
      rcases spot_of_others named apart with awaiting | point
      · rw [awaiting, Spot.after?_cons_word word (by decide)]
        rfl
      · rw [point, Spot.after?_cons_word word (by decide)]
        rfl
  refine ⟨stands.path_write goes, ?_, ?_, ?_, ?_⟩
  · rw [last]
    simpa using name
  · intro first
    cases first
  · intro b before opener
    cases before
    rw [no_opener] at opener
    cases opener
  · intro b before
    cases before
    exact allowed

end Stands

theorem stands_of_mark {q : Pass} {c : Char} (before : q.previous = some c)
    (no_name : isNameChar c = false)
    (path : Spot.after? .awaiting 0 q.written.reverse = some (q.spot, q.depth))
    (fresh : q.lastWord = []) (opened : isOpener c → q.brackets ≠ [])
    (allowed : isAllowed c ∧ isSpace c = false) : q.Stands := by
  refine ⟨path, ?_, ?_, ?_, ?_⟩
  · rw [before, fresh]
    simpa using no_name
  · rw [before]
    nofun
  · intro b first
    rw [before] at first
    cases first
    exact opened
  · intro b first
    rw [before] at first
    cases first
    exact allowed

namespace Stands

variable (stands : p.Stands)
include stands

theorem operator {c : Char} (member : c ∈ ['+', '-', '*', '/', '^'])
    (place : p.spot.isOperand ∨ c = '-' ∧ p.spot = .awaiting) :
    Stands { p.write (String.singleton c) with previous := some c } := by
  have marks : isNameChar c = false ∧ isSeparator c = false ∧ isCloser c = false ∧
      isOpener c = false ∧ isAllowed c ∧ isSpace c = false ∧ isWordChar c = false := by
    simp only [List.mem_cons, List.not_mem_nil, or_false] at member
    rcases member with rfl | rfl | rfl | rfl | rfl <;> decide
  obtain ⟨no_name, no_separator, no_closer, no_opener, allowed, visible, no_word⟩ := marks
  have goes : p.spot.after? p.depth (String.singleton c).toList = some (.awaiting, p.depth) := by
    rw [String.toList_singleton, Spot.after?, Spot.next?_operator member place]
    rfl
  refine stands_of_mark rfl no_name ?_ ?_ (by simp [no_opener]) ⟨allowed, visible⟩
  · have here : spot { p.write (String.singleton c) with previous := some c } = .awaiting :=
      spot_of_mark rfl no_name no_separator no_closer
    rw [here]
    exact stands.path_write goes
  · simp [lastWord, write, no_word]

theorem separator {c : Char} (separator : isSeparator c) (number : p.previous.any Char.isDigit) :
    Stands { p.write "." with previous := some c } := by
  have marks : isNameChar c = false ∧ isOpener c = false ∧ isAllowed c ∧ isSpace c = false := by
    simp only [isSeparator, Bool.or_eq_true, beq_iff_eq] at separator
    rcases separator with rfl | rfl <;> decide
  obtain ⟨no_name, no_opener, allowed⟩ := marks
  obtain ⟨b, before, digit⟩ := (Option.any_eq_true ..).1 number
  have name : isNameChar b := by simp [isNameChar, isWordChar, Char.isAlphanum, digit]
  have goes : p.spot.after? p.depth ['.'] = some (.point, p.depth) := by
    rw [spot_of_name before name]
    split <;> rfl
  refine stands_of_mark rfl no_name ?_ ?_ (by simp [no_opener]) allowed
  · have here : spot { p.write "." with previous := some c } = .point :=
      spot_of_separator rfl separator
    rw [here]
    exact stands.path_write goes
  · simp [lastWord, write, show isWordChar '.' = false by decide]

/-- The equality sign begins a bracket and takes what it stands after for its left operand, if
that is one. -/
theorem equality (unseen : p.equality = false) (no_point : p.spot ≠ .point) :
    Stands { p.write "-1*(" with equality := true, previous := some '=' } := by
  have goes : p.spot.after? p.depth "-1*(".toList = some (.awaiting, p.depth + 1) := by
    cases spot : p.spot with
    | point => exact absurd spot no_point
    | _ => rfl
  have deeper : depth { p.write "-1*(" with equality := true, previous := some '=' } =
      p.depth + 1 := by
    simp [depth, write, unseen]
  refine stands_of_mark rfl (by decide) ?_ ?_ (fun opener => absurd opener (by decide)) (by decide)
  · rw [deeper]
    exact stands.path_write goes
  · simp [lastWord, write, show isWordChar '(' = false by decide]

theorem closer {c : Char} (closer : isCloser c) (operand : p.spot.isOperand) {kind : Bracket}
    {rest : OpenBrackets} (matched : p.brackets = kind :: rest) :
    Stands { p.write kind.closer with brackets := rest, previous := some c } := by
  have marks : isAllowed c ∧ isSpace c = false := by
    simp only [isCloser, Bool.or_eq_true, beq_iff_eq] at closer
    rcases closer with rfl | rfl <;> decide
  obtain ⟨no_name, -, -, no_opener⟩ := isCloser_marks closer
  have depths : p.depth =
      depth { p.write kind.closer with brackets := rest, previous := some c } + width kind :=
    depth_of_push matched rfl
  have goes : p.spot.after? p.depth kind.closer.toList = some (.closed, _) :=
    depths ▸ Spot.after?_closer kind operand
  refine stands_of_mark rfl no_name ?_ ?_ (by simp [no_opener]) marks
  · have here : spot { p.write kind.closer with brackets := rest, previous := some c } = .closed :=
      spot_of_closer rfl closer
    rw [here]
    exact stands.path_write goes
  · cases kind <;> simp [lastWord, write, Bracket.closer, show isWordChar ')' = false by decide]

theorem opener {mode : AngleMode} {c : Char} (opener : isOpener c) :
    Stands { openBracket mode p with previous := some c } := by
  obtain ⟨no_name, no_separator, no_closer⟩ := isOpener_marks opener
  have marks : isAllowed c ∧ isSpace c = false := by
    simp only [isOpener, Bool.or_eq_true, beq_iff_eq] at opener
    rcases opener with rfl | rfl <;> decide
  have opened {r : Pass} {s : Spot} (kind : Bracket) (alone : s ≠ .number ∧ s ≠ .closed)
      (path : Spot.after? .awaiting 0 r.written.reverse = some (s, r.depth)) :
      Stands { r.opened kind with previous := some c } := by
    have deeper : depth { r.opened kind with previous := some c } = r.depth + width kind :=
      depth_of_push rfl rfl
    refine stands_of_mark rfl no_name ?_ ?_ (fun _ => List.cons_ne_nil _ _) marks
    · have here : spot { r.opened kind with previous := some c } = .awaiting :=
        spot_of_mark rfl no_name no_separator no_closer
      rw [here, deeper, Pass.opened, write, List.reverse_append, List.reverse_reverse,
        Spot.after?_append_of path]
      exact Spot.after?_opener kind alone
    · cases kind <;>
        simp [lastWord, Pass.opened, write, Bracket.opener, show isWordChar '(' = false by decide]
  rw [openBracket_eq]
  split
  next joined =>
    have operand : p.spot.isOperand := by
      rcases stands.multiplies_iff.1 joined with number | closed
      · rw [number]
        rfl
      · rw [closed]
        rfl
    have goes : p.spot.after? p.depth "*".toList = some (.awaiting, p.depth) := by
      rw [show "*".toList = ['*'] from rfl, Spot.after?, Spot.next?_operator (by simp) (.inl operand)]
      rfl
    exact opened _ (by decide) (stands.path_write goes)
  next apart => exact opened _ (not_or.1 (mt stands.multiplies_iff.2 apart)) stands.path

theorem isOperand_spot_of_no (some_char : p.previous ≠ none)
    (no_operator : ∀ b ∈ p.previous, isOperator b = false)
    (no_opener : ∀ b ∈ p.previous, isOpener b = false) : p.spot.isOperand := by
  obtain ⟨b, before⟩ := Option.ne_none_iff_exists'.1 some_char
  obtain ⟨allowed, visible⟩ := stands.allowed b before
  rcases kind_of_allowed allowed visible (no_operator b before) with name | closer | opener
  · exact isOperand_spot before (.inl name)
  · exact isOperand_spot before (.inr closer)
  · rw [no_opener b before] at opener
    cases opener

end Stands

theorem previous_of_point (point : p.spot = .point) : ∃ b ∈ p.previous, isSeparator b := by
  by_contra none_there
  unfold spot at point
  split at point
  next => cases point
  next b before =>
    have no_separator : isSeparator b = false := by
      by_contra separator
      exact none_there ⟨b, before, Bool.not_eq_false _ ▸ separator⟩
    simp only [no_separator, Bool.false_eq_true, if_false] at point
    split at point
    next => split at point <;> cases point
    next => split at point <;> cases point

end Pass

/-! #### Rules that no character breaks -/

theorem of_doubledFault? {b c : Char} (fine : doubledFault? b c = none) (operator : isOperator c) :
    isOperator b = false ∨ isSign c ∧ takesSign b := by
  unfold doubledFault? at fine
  rw [operator] at fine
  revert fine
  cases isOperator b <;> cases isSign c <;> cases takesSign b <;> simp

theorem of_besideFault? {b c : Char} (fine : besideFault? b c = none) :
    (isCloser c → isOpener b = false ∧ isOperator b = false) ∧
      (c ∈ ['*', '/', '^'] → isOpener b = false) := by
  unfold besideFault? at fine
  split at fine
  next => cases fine
  next no_empty =>
    split at fine
    next => cases fine
    next no_begin =>
      split at fine
      next => cases fine
      next no_end =>
        constructor
        · intro closer
          simp_all
        · intro member
          by_contra opener
          refine no_begin (Bool.and_eq_true_iff.2 ⟨Bool.not_eq_false _ ▸ opener, ?_⟩)
          rw [List.contains_iff_mem]
          simp_all only [List.mem_cons, List.not_mem_nil, or_false]
          tauto

theorem mark_of_allowed {c : Char} (allowed : isAllowed c) (visible : isSpace c = false)
    (no_bracket : isOpener c = false ∧ isCloser c = false) (no_name : isNameChar c = false)
    (no_comma : c ≠ ',') (no_equality : c ≠ '=') :
    c = '.' ∨ c = '!' ∨ c ∈ ['+', '-', '*', '/', '^'] := by
  unfold isNameChar at no_name
  unfold isAllowed at allowed
  obtain ⟨no_word, no_underscore⟩ := Bool.or_eq_false_iff.1 no_name
  rw [no_word, no_bracket.1, no_bracket.2, no_underscore, visible] at allowed
  simp only [Bool.false_or, Bool.or_false, isOperator, List.contains_iff_mem, List.mem_cons,
    List.not_mem_nil, or_false] at allowed
  simp only [List.mem_cons, List.not_mem_nil, or_false]
  tauto

namespace Pass

variable {p : Pass}

namespace Stands

variable (stands : p.Stands)
include stands

theorem place_of_operator {c : Char} (member : c ∈ ['+', '-', '*', '/', '^'])
    (fine : fault? p c = none) (regular : Regular p.previous c) (no_point : p.spot ≠ .point) :
    p.spot.isOperand ∨ c = '-' ∧ p.spot = .awaiting := by
  obtain ⟨neighbour, -, -, doubled⟩ := fault?_eq_none.1 fine
  have factor (member : c ∈ ['*', '/', '^']) (operator : isOperator c) (no_sign : isSign c = false) :
      p.spot.isOperand := by
    refine stands.isOperand_spot_of_no (regular.not_first member) (fun b before => ?_)
      fun b before => (of_besideFault? (neighbour b before)).2 member
    refine (of_doubledFault? (doubled b before) operator).resolve_right fun sign => ?_
    rw [no_sign] at sign
    cases sign.1
  simp only [List.mem_cons, List.not_mem_nil, or_false] at member
  rcases member with rfl | rfl | rfl | rfl | rfl
  · obtain ⟨b, before, operand⟩ := (Option.any_eq_true ..).1 (regular.no_sign rfl)
    exact .inl (isOperand_spot before (Bool.or_eq_true_iff.1 operand))
  · cases spot : p.spot with
    | awaiting => exact .inr ⟨rfl, rfl⟩
    | point => exact absurd spot no_point
    | _ => exact .inl rfl
  · exact .inl (factor (by simp) rfl rfl)
  · exact .inl (factor (by simp) rfl rfl)
  · exact .inl (factor (by simp) rfl rfl)

theorem single {c : Char} (allowed : isAllowed c ∧ isSpace c = false) (fine : fault? p c = none)
    (regular : Regular p.previous c) (no_bracket : isOpener c = false ∧ isCloser c = false)
    (others : c ≠ '=' ∧ c ≠ '_' ∧ c ≠ ',') (no_point : isOperator c → p.spot ≠ .point) :
    Stands { p.write (String.singleton c) with previous := some c } := by
  obtain ⟨neighbour, number, -, doubled⟩ := fault?_eq_none.1 fine
  obtain ⟨no_equality, no_underscore, no_comma⟩ := others
  cases name : isNameChar c with
  | true =>
    have word : isWordChar c := by
      rw [isNameChar, beq_eq_false_iff_ne.2 no_underscore, Bool.or_false] at name
      exact name
    exact stands.name (String.toList_singleton c) name (regular.apart name) (by simpa using word)
      allowed
  | false =>
    rcases mark_of_allowed allowed.1 allowed.2 no_bracket name no_comma no_equality with
      rfl | factorial | member
    · exact stands.separator rfl (number rfl)
    · exact absurd factorial regular.no_factorial
    · have operator : isOperator c := by
        simp only [List.mem_cons, List.not_mem_nil, or_false] at member
        rcases member with rfl | rfl | rfl | rfl | rfl <;> rfl
      exact stands.operator member (stands.place_of_operator member fine regular (no_point operator))

/-- A character that breaks no rule and stands as in a formula leads to the next spot. -/
theorem emit {mode : AngleMode} {c : Char} {r : Pass} (allowed : isAllowed c ∧ isSpace c = false)
    (fine : fault? p c = none) (regular : Regular p.previous c) (emitted : emit mode p c = .ok r) :
    Stands { r with previous := some c } := by
  obtain ⟨neighbour, number, unseen, doubled⟩ := fault?_eq_none.1 fine
  have no_point (operator : isOperator c) : p.spot ≠ .point := by
    intro point
    obtain ⟨b, before, separator⟩ := previous_of_point point
    obtain ⟨-, -, is_operator, no_sign⟩ := isSeparator_marks separator
    rcases of_doubledFault? (doubled b before) operator with no_operator | ⟨-, takes⟩
    · rw [no_operator] at is_operator
      cases is_operator
    · rw [no_sign] at takes
      cases takes
  cases emit_eq_ok.1 emitted with
  | equality => exact stands.equality (unseen rfl) (no_point rfl)
  | underscore =>
    have chars : "Gg".toList = ['G', 'g'] := rfl
    exact stands.name chars rfl (regular.apart rfl) (by simp [isWordChar]) allowed
  | comma => exact stands.separator rfl (number rfl)
  | opener opens => exact stands.opener opens
  | closer closes matched =>
    have some_char : p.previous ≠ none := by
      intro none_before
      rw [stands.unopened none_before] at matched
      cases matched
    refine stands.closer closes (stands.isOperand_spot_of_no some_char ?_ ?_) matched
    · exact fun b before => ((of_besideFault? (neighbour b before)).1 closes).2
    · exact fun b before => ((of_besideFault? (neighbour b before)).1 closes).1
  | single others no_bracket => exact stands.single allowed fine regular no_bracket others no_point

end Stands

theorem Stands.run {mode : AngleMode} {line : List Char} {q : Pass} (stands : p.Stands)
    (regular : AllRegular p.previous (bare line)) (ran : Line.run mode p line = .ok q) : q.Stands :=
  run_keeps (fun stands regular allowed fine emitted =>
    ⟨stands.emit allowed fine regular.1 emitted, regular.2⟩) stands regular ran

/-- The normal text of a line that reads as a formula ends after a bracket, and with all brackets
closed. -/
theorem after?_normal {mode : AngleMode} {line text : List Char}
    (regular : AllRegular none (bare line)) (read : normal mode line = .ok (some text)) :
    Spot.after? .awaiting 0 text = some (.closed, 0) := by
  obtain ⟨p, ran, no_operator, balanced, seen, some_char, rfl⟩ := normal_eq_some read
  have stands := stands_start.run regular ran
  have closed : p.brackets = [] := List.isEmpty_iff.1 balanced
  have one : p.depth = 0 + width .plain := by rw [depth, closed, seen]; rfl
  have operand : p.spot.isOperand := by
    refine stands.isOperand_spot_of_no some_char (fun b before => ?_) fun b before => ?_
    · simpa using Option.filter_eq_none_iff.1 no_operator b before
    · by_contra opener
      exact stands.opened b before (Bool.not_eq_false _ ▸ opener) closed
  rw [Spot.after?_append_of stands.path, one]
  exact Spot.after?_closer .plain operand

end Pass

end Simultaneous.Line
