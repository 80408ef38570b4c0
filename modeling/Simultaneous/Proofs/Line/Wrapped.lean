import Mathlib.Data.List.Induction
import Simultaneous.Line.Equation

/-!
Texts with and without the factor of degrees. A factor stands right after the opening bracket of a
trigonometric call, and the bracket that it opens is closed beside one that is kept. Left to right, the
word that goes on tells where a call opens, and a row of flags which of the open brackets are those of
a factor. Deleting every factor with its closing bracket gives the text without them.
-/

namespace Simultaneous.Line

open Text

def factor : List Char := ['D', 'e', 'g', 'r', 'e', 'e', '*', '(']

def angleCalls : List String := ["Sin", "Cos", "Tan", "ArcSin", "ArcCos", "ArcTan"]

/-! ### Words that go on -/

def extend (word : List Char) (c : Char) : List Char := if isWordChar c then word ++ [c] else []

def endWord (s : List Char) : List Char := (s.reverse.takeWhile isWordChar).reverse

section Words

variable {word s t : List Char} {c : Char}

theorem extend_of_word (in_word : isWordChar c) : extend word c = word ++ [c] := if_pos in_word

theorem extend_of_stop (stop : isWordChar c = false) : extend word c = [] := by
  rw [extend, stop]
  rfl

theorem foldl_extend_nil (s : List Char) : s.foldl extend [] = endWord s := by
  induction s using List.reverseRecOn with
  | nil => rfl
  | append_singleton s c ih =>
    rw [List.foldl_append, List.foldl_cons, List.foldl_nil, ih, endWord, endWord,
      List.reverse_append, List.reverse_singleton, List.singleton_append]
    cases word : isWordChar c with
    | true => rw [extend_of_word word, List.takeWhile_cons_of_pos word, List.reverse_cons]
    | false =>
      rw [extend_of_stop word, List.takeWhile_cons_of_neg (by simp [word]), List.reverse_nil]

theorem foldl_extend_of_stop (last : s.getLast? = some c) (stop : isWordChar c = false) :
    s.foldl extend word = [] := by
  obtain ⟨front, rfl⟩ := List.getLast?_eq_some_iff.1 last
  rw [List.foldl_append]
  exact extend_of_stop stop

theorem foldl_extend_of_word (in_word : ∀ c ∈ s, isWordChar c) :
    s.foldl extend word = word ++ s := by
  induction s generalizing word with
  | nil => simp
  | cons c s ih =>
    obtain ⟨first, others⟩ := List.forall_mem_cons.1 in_word
    rw [List.foldl_cons, extend_of_word first, ih others, List.append_assoc, List.singleton_append]

end Words

/-! ### Deleting factors -/

/-- A text that goes on after a word and some open brackets, without the factors of trigonometric
calls and their closing brackets. The next characters that are to be skipped are those of a factor; a
bracket is flagged if it is that of one. -/
def unwrap (word : List Char) (skip : Nat) (open_ : List Bool) : List Char → List Char
  | [] => []
  | c :: s =>
    match skip with
    | skip + 1 => unwrap [] skip open_ s
    | 0 =>
      if c = '(' then
        if String.ofList word ∈ angleCalls ∧ factor <+: s then
          '(' :: unwrap [] factor.length (true :: false :: open_) s
        else '(' :: unwrap [] 0 (false :: open_) s
      else if c = ')' then
        if open_.head? = some true then unwrap [] 0 open_.tail s
        else ')' :: unwrap [] 0 open_.tail s
      else c :: unwrap (extend word c) 0 open_ s

theorem unwrap_skip (skipped s : List Char) (open_ : List Bool) :
    unwrap [] skipped.length open_ (skipped ++ s) = unwrap [] 0 open_ s := by
  induction skipped with
  | nil => rfl
  | cons c skipped ih => exact ih

theorem unwrap_closer (word s : List Char) (flag : Bool) (open_ : List Bool) :
    unwrap word 0 (flag :: open_) (')' :: s) =
      if flag then unwrap [] 0 open_ s else ')' :: unwrap [] 0 open_ s := by
  rw [unwrap, if_neg (by decide), if_pos rfl]
  cases flag <;> rfl

end Line

def LineEquation.unwrapped (e : LineEquation) : LineEquation :=
  { e with residual := String.ofList (Line.unwrap [] 0 [] e.residual.toList) }

namespace Line

open Text

/-! ### Two texts -/

/-- A text with factors and the same text without, after a word and some open brackets. -/
inductive Wraps (calls : List String) :
    (word : List Char) → (open_ : List Bool) → List Char → List Char → Prop
  | nil {word : List Char} : Wraps calls word [] [] []
  | plain {word : List Char} {open_ : List Bool} {c : Char} {x y : List Char} :
      c ∉ ['(', ')', 'D'] → Wraps calls (extend word c) open_ x y →
      Wraps calls word open_ (c :: x) (c :: y)
  | opener {word : List Char} {open_ : List Bool} {x y : List Char} :
      String.ofList word ∉ calls → Wraps calls [] (false :: open_) x y →
      Wraps calls word open_ ('(' :: x) ('(' :: y)
  | wrapped {word : List Char} {open_ : List Bool} {x y : List Char} :
      String.ofList word ∈ calls → Wraps calls [] (true :: false :: open_) x y →
      Wraps calls word open_ ('(' :: (factor ++ x)) ('(' :: y)
  | closer {word : List Char} {open_ : List Bool} {x y : List Char} :
      Wraps calls [] open_ x y → Wraps calls word (false :: open_) (')' :: x) (')' :: y)
  | pair {word : List Char} {open_ : List Bool} {x y : List Char} (factorFirst : Bool) :
      Wraps calls [] open_ x y →
      Wraps calls word (factorFirst :: (!factorFirst) :: open_) (')' :: ')' :: x) (')' :: y)

namespace Wraps

variable {calls : List String} {word : List Char} {open_ : List Bool} {x y s : List Char}

theorem append (plain : ∀ c ∈ s, c ∉ ['(', ')', 'D'])
    (wraps : Wraps calls (s.foldl extend word) open_ x y) :
    Wraps calls word open_ (s ++ x) (s ++ y) := by
  induction s generalizing word with
  | nil => exact wraps
  | cons c s ih =>
    obtain ⟨first, others⟩ := List.forall_mem_cons.1 plain
    exact .plain first (ih others wraps)

theorem not_factor (wraps : Wraps calls word open_ x y) : ¬factor <+: x := by
  rintro ⟨rest, rfl⟩
  cases wraps with
  | plain no_factor => exact no_factor (by simp)

theorem exists_segment (wraps : Wraps calls word open_ x y) :
    ∃ s x' y', x = s ++ x' ∧ y = s ++ y' ∧ (∀ c ∈ s, c ∉ ['(', ')', 'D']) ∧
      Wraps calls (s.foldl extend word) open_ x' y' ∧
      ((x' = [] ∧ y' = []) ∨ ∃ b ∈ ['(', ')'], ∃ x'' y'', x' = b :: x'' ∧ y' = b :: y'') := by
  induction wraps with
  | nil => exact ⟨[], [], [], rfl, rfl, nofun, .nil, .inl ⟨rfl, rfl⟩⟩
  | @plain word open_ c x y no_bracket _ ih =>
    obtain ⟨s, x', y', rfl, rfl, plain, wraps, ends⟩ := ih
    exact ⟨c :: s, x', y', rfl, rfl, List.forall_mem_cons.2 ⟨no_bracket, plain⟩, wraps, ends⟩
  | opener no_call wraps =>
    exact ⟨[], _, _, rfl, rfl, nofun, .opener no_call wraps, .inr ⟨'(', by simp, _, _, rfl, rfl⟩⟩
  | wrapped call wraps =>
    exact ⟨[], _, _, rfl, rfl, nofun, .wrapped call wraps, .inr ⟨'(', by simp, _, _, rfl, rfl⟩⟩
  | closer wraps =>
    exact ⟨[], _, _, rfl, rfl, nofun, .closer wraps, .inr ⟨')', by simp, _, _, rfl, rfl⟩⟩
  | pair first wraps =>
    exact ⟨[], _, _, rfl, rfl, nofun, .pair first wraps, .inr ⟨')', by simp, _, _, rfl, rfl⟩⟩

/-- Deleting the factors and their closing brackets gives the text without them. -/
theorem unwrap_eq (wraps : Wraps angleCalls word open_ x y) : unwrap word 0 open_ x = y := by
  induction wraps with
  | nil => rfl
  | @plain word open_ c x y no_bracket _ ih =>
    simp only [List.mem_cons, List.not_mem_nil, or_false, not_or] at no_bracket
    rw [unwrap, if_neg no_bracket.1, if_neg no_bracket.2.1, ih]
  | opener no_call _ ih => rw [unwrap, if_pos rfl, if_neg fun call => no_call call.1, ih]
  | wrapped call _ ih =>
    rw [unwrap, if_pos rfl, if_pos ⟨call, List.prefix_append _ _⟩, unwrap_skip, ih]
  | closer _ ih => rw [unwrap_closer, if_neg (by decide), ih]
  | pair first _ ih => cases first <;> simp [unwrap_closer, ih]

end Wraps

/-! ### Where the factors stand -/

/-- Going on after a word, a text has a factor after the opening bracket of each trigonometric call,
after no other one, and nowhere else. -/
def FactorsAtCalls (word : List Char) (inCall : Prop) : List Char → Prop
  | [] => True
  | c :: s =>
    (c = '(' → (String.ofList word ∈ angleCalls ↔ factor <+: s)) ∧ (c = 'D' → inCall) ∧
      FactorsAtCalls (extend word c) (c = '(' ∧ String.ofList word ∈ angleCalls) s

theorem FactorsAtCalls.append {s t word : List Char} {inCall : Prop}
    (plain : ∀ c ∈ s, c ∉ ['(', 'D'])
    (later : ∀ inCall, FactorsAtCalls (s.foldl extend word) inCall t) :
    FactorsAtCalls word inCall (s ++ t) := by
  induction s generalizing word inCall with
  | nil => exact later inCall
  | cons c s ih =>
    obtain ⟨first, others⟩ := List.forall_mem_cons.1 plain
    exact ⟨fun same => absurd (by simp [same]) first, fun same => absurd (by simp [same]) first,
      ih others later⟩

theorem Wraps.factorsAtCalls {word x y : List Char} {open_ : List Bool}
    (wraps : Wraps angleCalls word open_ x y) (inCall : Prop) : FactorsAtCalls word inCall x := by
  induction wraps generalizing inCall with
  | nil => trivial
  | plain no_bracket _ ih =>
    simp only [List.mem_cons, List.not_mem_nil, or_false, not_or] at no_bracket
    exact ⟨fun same => absurd same no_bracket.1, fun same => absurd same no_bracket.2.2, ih _⟩
  | opener no_call wraps ih =>
    exact ⟨fun _ => iff_of_false no_call wraps.not_factor, nofun, ih _⟩
  | @wrapped word open_ x y call wraps ih =>
    have no_call : String.ofList (['D', 'e', 'g', 'r', 'e', 'e', '*'].foldl extend []) ∉
        angleCalls := by decide
    have bracket (inCall : Prop) :
        FactorsAtCalls (['D', 'e', 'g', 'r', 'e', 'e', '*'].foldl extend []) inCall ('(' :: x) :=
      ⟨fun _ => iff_of_false no_call wraps.not_factor, nofun, ih _⟩
    have inside : FactorsAtCalls [] True (factor ++ x) :=
      ⟨nofun, fun _ => trivial,
        FactorsAtCalls.append (s := ['e', 'g', 'r', 'e', 'e', '*']) (by simp) bracket⟩
    have in_call : ('(' = '(' ∧ String.ofList word ∈ angleCalls) = True := by simp [call]
    exact ⟨fun _ => iff_of_true call (List.prefix_append _ _), nofun, in_call ▸ inside⟩
  | closer _ ih => exact ⟨nofun, nofun, ih _⟩
  | pair _ _ ih => exact ⟨nofun, nofun, nofun, nofun, ih _⟩

namespace FactorsAtCalls

variable {word front back : List Char} {inCall : Prop} {c : Char}

theorem drop (at_calls : FactorsAtCalls word inCall (front ++ back)) :
    ∃ inCall, FactorsAtCalls (front.foldl extend word) inCall back := by
  induction front generalizing word inCall with
  | nil => exact ⟨_, at_calls⟩
  | cons c front ih => exact ih at_calls.2.2

theorem opener (at_calls : FactorsAtCalls [] inCall (front ++ '(' :: back)) :
    String.ofList (endWord front) ∈ angleCalls ↔ factor <+: back := by
  obtain ⟨_, opens, -⟩ := at_calls.drop
  rw [← foldl_extend_nil]
  exact opens rfl

theorem factor (at_calls : FactorsAtCalls [] False (front ++ 'D' :: back)) :
    ∃ call, front = call ++ ['('] ∧ String.ofList (endWord call) ∈ angleCalls := by
  obtain rfl | ⟨call, c, rfl⟩ := front.eq_nil_or_concat
  · exact (at_calls.2.1 rfl).elim
  · rw [List.concat_eq_append] at at_calls ⊢
    rw [List.append_assoc] at at_calls
    obtain ⟨_, -, -, -, after, -⟩ := at_calls.drop
    obtain ⟨rfl, is_call⟩ := after rfl
    rw [foldl_extend_nil] at is_call
    exact ⟨call, rfl, is_call⟩

end FactorsAtCalls

end Simultaneous.Line
