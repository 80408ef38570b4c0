import Simultaneous.Proofs.Line.Accepted

/-!
The runs of letters and digits in normal text. If the token pass accepts the text, the names that it
lists are the runs that do not start with a digit, but for the factor of degrees and for functions
and constants.
-/

namespace Simultaneous.Line

open Text

/-! ### Runs of normal text -/

def wordRuns (text : List Char) : List (List Char) := pieces (fun c => !isWordChar c) text

def startsName (w : List Char) : Bool := w.head?.any fun c => !c.isDigit

section Runs

variable {c : Char} {w text rest : List Char}

theorem wordRuns_stop (stop : isWordChar c = false) (rest : List Char) :
    wordRuns (c :: rest) = [] :: wordRuns rest :=
  pieces_cut (by rw [stop]; rfl) rest

theorem wordRuns_word (word : ∀ d ∈ w, isWordChar d) {first : List Char}
    {others : List (List Char)} (runs : wordRuns rest = first :: others) :
    wordRuns (w ++ rest) = (w ++ first) :: others :=
  pieces_append_of_keep (fun d member => by rw [word d member]; rfl) runs

def lettered (text : List Char) : List (List Char) := (wordRuns text).filter startsName

theorem lettered_stop (stop : isWordChar c = false) (rest : List Char) :
    lettered (c :: rest) = lettered rest := by
  rw [lettered, wordRuns_stop stop]
  rfl

theorem lettered_word (word : ∀ d ∈ w, isWordChar d)
    (stop : ∀ d ∈ rest.head?, isWordChar d = false) :
    lettered (w ++ rest) = [w].filter startsName ++ lettered rest := by
  obtain ⟨others, runs⟩ : ∃ others, wordRuns rest = [] :: others := by
    cases rest with
    | nil => exact ⟨[], rfl⟩
    | cons c rest => exact ⟨_, wordRuns_stop (stop c rfl) rest⟩
  rw [lettered, lettered, wordRuns_word word runs, runs, List.append_nil, ← List.singleton_append,
    List.filter_append]
  rfl

theorem lettered_digits (digits : AreDigits w) {s : List Char} (word : ∀ d ∈ s, isWordChar d)
    (stop : ∀ d ∈ rest.head?, isWordChar d = false) :
    lettered (w ++ (s ++ rest)) = lettered rest := by
  obtain ⟨some_digits, digits⟩ := digits
  have chars : ∀ d ∈ w ++ s, isWordChar d := by
    intro d member
    rcases List.mem_append.1 member with digit | inside
    · exact isWordChar_of_isDigit (digits d digit)
    · exact word d inside
  have number : startsName (w ++ s) = false := by
    cases w with
    | nil => exact absurd rfl some_digits
    | cons c w =>
      rw [List.cons_append, startsName, List.head?_cons, Option.any_some,
        digits c List.mem_cons_self]
      rfl
  rw [← List.append_assoc, lettered_word chars stop, List.filter_singleton, number]
  rfl

theorem lettered_number {m sign k : List Char} (mantissa : IsMantissa m) (signed : IsSignText sign)
    (exponent : k = [] ∨ ∃ e, AreDigits e ∧ k = 'e' :: (sign ++ e))
    (stop : ∀ d ∈ rest.head?, isWordChar d = false) :
    lettered (m ++ (k ++ rest)) = lettered rest := by
  have whole {d : List Char} (digits : AreDigits d) :
      lettered (d ++ (k ++ rest)) = lettered rest := by
    rcases exponent with rfl | ⟨e, some_digits, rfl⟩
    · exact lettered_digits (s := []) digits nofun stop
    · have word : ∀ d ∈ e, isWordChar d := fun d member =>
        isWordChar_of_isDigit (some_digits.2 d member)
      have alone : lettered (e ++ rest) = lettered rest :=
        lettered_digits (s := []) some_digits nofun stop
      rcases signed with rfl | rfl | rfl
      · refine lettered_digits (s := 'e' :: e) digits (fun d member => ?_) stop
        rcases List.mem_cons.1 member with rfl | inside
        · decide
        · exact word d inside
      all_goals
        refine (lettered_digits (s := ['e']) digits ?_ ?_).trans
          ((lettered_stop (by decide) _).trans alone)
        · simp [isWordChar]
        · simp [isWordChar]
  cases mantissa with
  | whole digits => exact whole digits
  | @fraction s t digits decimals =>
    rw [List.append_assoc]
    exact (lettered_digits (s := []) digits nofun (by simp [isWordChar])).trans
      ((lettered_stop (by decide) _).trans (whole decimals))

end Runs

/-! ### The token pass -/

def wordsIn (ts : List Token) : List (List Char) :=
  ts.filterMap fun
    | .word w => some w
    | _ => none

/-- If the tokens of a text are accepted, its words are the runs that start with a letter. -/
theorem wordsIn_tokens {text read : List Char} {names : List String}
    (contributed : contributions (tokens text) = .ok (read, names)) :
    wordsIn (tokens text) = lettered text := by
  fun_induction tokens text generalizing read names with
  | case1 => rfl
  | case2 c rest digit ih =>
    obtain ⟨x, name?, y, others, first, later, -, -⟩ := contributions_cons_eq_ok contributed
    obtain ⟨m, after, mantissa, no_digit, ⟨text, taken⟩ | ⟨sign, k, signed, digits, text, taken⟩⟩ :=
      takeNumber_cases (s := rest) digit
    · have stop := apart_of_number digit first
      rw [taken] at stop later ih ⊢
      rw [text, ← List.nil_append after]
      exact (ih later).trans (lettered_number mantissa (.inl rfl) (.inl rfl) stop).symm
    · have stop := apart_of_number digit first
      rw [taken] at stop later ih ⊢
      rw [text, ← List.append_assoc sign k, ← List.cons_append]
      exact (ih later).trans
        (lettered_number mantissa signed (.inr ⟨k, digits, rfl⟩) stop).symm
  | case3 c rest no_digit letter ih =>
    obtain ⟨x, name?, y, others, -, later, -, -⟩ := contributions_cons_eq_ok contributed
    have word : ∀ d ∈ (takeWord (c :: rest)).1, isWordChar d := fun d member =>
      List.mem_takeWhile_imp member
    have starts : startsName (takeWord (c :: rest)).1 = true := by
      rw [takeWord_of_letter letter, startsName, List.head?_cons, Option.any_some,
        Formula.isDigit_of_isAlpha letter]
      rfl
    have parts := lettered_word word (takeWord_stops (c :: rest))
    rw [takeWord_append, List.filter_singleton, starts] at parts
    rw [parts, wordsIn, List.filterMap_cons]
    exact congrArg _ (ih later)
  | case4 c rest no_digit no_letter ih =>
    obtain ⟨x, name?, y, others, -, later, -, -⟩ := contributions_cons_eq_ok contributed
    have stop := isWordChar_eq_false_iff.2 ⟨no_digit, no_letter⟩
    rw [lettered_stop stop]
    exact ih later

def isFixed (word : String) : Bool :=
  (canonicalFunction? word).isSome || (canonicalConstant? word).isSome

theorem Means.spec {w : String} {call : Bool} {m : Meaning} (means : Means w call m) :
    w.toList.head? ≠ some 'G' ∧
      (m.unknown? = none ∧ (w = "Degree" ∨ isFixed w = true) ∨
        m = .unknown w ∧ w ≠ "Degree" ∧ isFixed w = false) := by
  cases means with
  | factor factor => exact ⟨by rw [factor]; decide, .inl ⟨rfl, .inl factor⟩⟩
  | function _ plain function => exact ⟨plain, .inl ⟨rfl, .inr (by rw [isFixed, function]; rfl)⟩⟩
  | constant _ plain _ constant =>
    exact ⟨plain, .inl ⟨rfl, .inr (by rw [isFixed, constant, Option.isSome_some, Bool.or_true])⟩⟩
  | unknown no_factor plain no_function no_constant =>
    exact ⟨plain, .inr ⟨rfl, no_factor, by rw [isFixed, no_function, no_constant]; rfl⟩⟩

theorem unknown_of_contribution {w x : List Char} {later : List Token} {name? : Option String}
    (contributed : contribution (.word w) later = .ok (x, name?)) :
    name?.toList = (([w].filter (· ≠ "Degree".toList)).map String.ofList).filter (!isFixed ·) ∧
      w.head? ≠ some 'G' := by
  have factor : w = "Degree".toList ↔ String.ofList w = "Degree" := by
    rw [← String.toList_inj]
    simp only [String.toList_ofList]
  obtain ⟨call, m, -, means, -, rfl⟩ := contribution_word contributed
  obtain ⟨head, ⟨no_name, same⟩ | ⟨rfl, other, free⟩⟩ := means.spec
  all_goals
    rw [String.toList_ofList] at head
    refine ⟨?_, head⟩
  · rw [no_name]
    by_cases degree : w = "Degree".toList
    · rw [List.filter_singleton, degree]
      rfl
    · have fixed := same.resolve_left (mt factor.2 degree)
      rw [List.filter_singleton, decide_eq_true degree]
      simp [fixed]
  · rw [List.filter_singleton, decide_eq_true (mt factor.1 other)]
    simp [free, Meaning.unknown?]

/-- The names that tokens contribute are their words but for the factor of degrees and the fixed
ones, and no word starts with an underscore. -/
theorem names_of_contributions {ts : List Token} {text : List Char} {names : List String}
    (contributed : contributions ts = .ok (text, names)) :
    names = (((wordsIn ts).filter (· ≠ "Degree".toList)).map String.ofList).filter (!isFixed ·) ∧
      ∀ w ∈ wordsIn ts, w.head? ≠ some 'G' := by
  induction ts generalizing text names with
  | nil =>
    cases contributed
    exact ⟨rfl, nofun⟩
  | cons t rest ih =>
    obtain ⟨x, name?, y, others, first, later, -, rfl⟩ := contributions_cons_eq_ok contributed
    obtain ⟨same, heads⟩ := ih later
    cases t with
    | word w =>
      obtain ⟨unknown, head⟩ := unknown_of_contribution first
      have words : wordsIn (.word w :: rest) = [w] ++ wordsIn rest := rfl
      rw [words, List.filter_append, List.map_append, List.filter_append, ← unknown, ← same]
      refine ⟨rfl, fun v member => ?_⟩
      rcases List.mem_append.1 member with here | there
      · rwa [List.mem_singleton.1 here]
      · exact heads v there
    | number read written | mark c =>
      cases name? with
      | none => exact ⟨same, heads⟩
      | some name => cases (contribution_name first).1

end Simultaneous.Line
