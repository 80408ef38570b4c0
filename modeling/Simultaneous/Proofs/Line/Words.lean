import Simultaneous.Proofs.Line.Runs

/-!
The words of an equation line and of its normal text. The character pass writes the letters, digits
and underscores of a word one by one, and something that belongs to no word for every other visible
character. So the runs of normal text are the words of the line, with their stored names, and a one
or a factor of degrees that is put between them.
-/

namespace Simultaneous.Line

open Text

/-! ### The character pass -/

def userWords (runs : List (List Char)) : List (List Char) :=
  (runs.filter startsName).filter (· ≠ "Degree".toList)

theorem userWords_append (front back : List (List Char)) :
    userWords (front ++ back) = userWords front ++ userWords back := by
  rw [userWords, List.filter_append, List.filter_append]
  rfl

def IsMarks (piece : List Char) : Prop :=
  ∃ inner, userWords inner = [] ∧ ∀ t, wordRuns (piece ++ t) = [] :: (inner ++ wordRuns t)

section Marks

variable {c d : Char} {w a b : List Char}

theorem isMarks_stop (stop : isWordChar c = false) : IsMarks [c] :=
  ⟨[], rfl, wordRuns_stop stop⟩

theorem IsMarks.append (front : IsMarks a) (back : IsMarks b) : IsMarks (a ++ b) := by
  obtain ⟨inner, none, runs⟩ := front
  obtain ⟨later, none_later, runs_later⟩ := back
  refine ⟨inner ++ [] :: later, ?_, fun t => ?_⟩
  · rw [userWords_append, none, List.nil_append]
    exact none_later
  · rw [List.append_assoc, runs, runs_later, List.append_assoc, List.cons_append]

theorem isMarks_enclosed (opens : isWordChar c = false) (closes : isWordChar d = false)
    (word : ∀ x ∈ w, isWordChar x) (none : userWords [w] = []) :
    IsMarks (c :: (w ++ [d])) := by
  refine ⟨[w], none, fun t => ?_⟩
  rw [List.cons_append, wordRuns_stop opens, List.append_assoc, List.singleton_append,
    wordRuns_word word (wordRuns_stop closes t), List.append_nil]
  rfl

theorem isMarks_opener (kind : Bracket) : IsMarks kind.opener.toList := by
  have opener : IsMarks ['('] := isMarks_stop (by decide)
  cases kind with
  | plain | call => exact opener
  | degrees =>
    have factor : IsMarks ('(' :: ("Degree".toList ++ ['*'])) :=
      isMarks_enclosed (by decide) (by decide) (by simp [isWordChar]) (by decide)
    exact factor.append opener

theorem isMarks_closer (kind : Bracket) : IsMarks kind.closer.toList := by
  have closer : IsMarks [')'] := isMarks_stop (by decide)
  cases kind with
  | plain | call => exact closer
  | degrees => exact closer.append closer

theorem isMarks_inserted : IsMarks inserted := by
  have once : IsMarks ('-' :: (['1'] ++ ['*'])) :=
    isMarks_enclosed (by decide) (by decide) (by simp [isWordChar]) (by decide)
  exact once.append (isMarks_stop (c := '(') (by decide))

end Marks

def IsPieceFor (c : Char) (piece : List Char) : Prop :=
  Name.isNameChar c = true ∧ piece = Name.storedChar c ∨
    Name.isNameChar c = false ∧ IsMarks piece

inductive Prints : List Char → List Char → Prop
  | nil : Prints [] [')']
  | cons {c : Char} {s piece out : List Char} : c.toLower = c → IsPieceFor c piece →
      Prints s out → Prints (c :: s) (piece ++ out)

section Pass

variable {mode : AngleMode} {p q : Pass}

theorem exists_marks_openBracket (mode : AngleMode) (p : Pass) :
    ∃ piece, (openBracket mode p).written = piece.reverse ++ p.written ∧ IsMarks piece := by
  rw [openBracket_eq]
  split
  next =>
    have times : IsMarks ['*'] := isMarks_stop (by decide)
    refine ⟨['*'] ++ ((p.write "*").bracketKind mode).opener.toList, ?_,
      times.append (isMarks_opener _)⟩
    rw [List.reverse_append, List.append_assoc]
    rfl
  next => exact ⟨_, rfl, isMarks_opener _⟩

theorem exists_piece_of_emit {c : Char} (low : c.toLower = c) (emitted : emit mode p c = .ok q) :
    ∃ piece, q.written = piece.reverse ++ p.written ∧ IsPieceFor c piece := by
  cases emit_eq_ok.1 emitted with
  | equality => exact ⟨inserted, rfl, .inr ⟨by decide, isMarks_inserted⟩⟩
  | underscore => exact ⟨['G', 'g'], rfl, .inl ⟨by decide, rfl⟩⟩
  | comma => exact ⟨['.'], rfl, .inr ⟨by decide, isMarks_stop (by decide)⟩⟩
  | opener opens =>
    obtain ⟨piece, written, marks⟩ := exists_marks_openBracket mode p
    exact ⟨piece, written, .inr ⟨(isOpener_marks opens).1, marks⟩⟩
  | closer closes => exact ⟨_, rfl, .inr ⟨(isCloser_marks closes).1, isMarks_closer _⟩⟩
  | single others =>
    refine ⟨[c], by rw [Pass.write, String.toList_singleton], ?_⟩
    cases name : Name.isNameChar c with
    | true => exact .inl ⟨name, by rw [Name.storedChar_of_ne others.2.1, low]⟩
    | false => exact .inr ⟨name, isMarks_stop (Bool.or_eq_false_iff.1 name).1⟩

/-- The pass over a text without blanks in lower case writes pieces for its characters. -/
theorem exists_prints {s : List Char} (plain : ∀ c ∈ s, c.toLower = c ∧ isSpace c = false)
    (ran : run mode p s = .ok q) :
    ∃ out, (q.write ")").written.reverse = p.written.reverse ++ out ∧ Prints s out := by
  induction s generalizing p with
  | nil =>
    cases ran
    exact ⟨[')'], List.reverse_append, .nil⟩
  | cons c rest ih =>
    obtain ⟨low, visible⟩ := plain c List.mem_cons_self
    obtain ⟨r, stepped, ran_rest⟩ := run_cons.1 ran
    obtain ⟨x, emitted, rfl⟩ := step_visible low visible stepped
    obtain ⟨piece, first, kind⟩ := exists_piece_of_emit low emitted
    obtain ⟨out, later, prints⟩ :=
      ih (fun d member => plain d (List.mem_cons_of_mem c member)) ran_rest
    refine ⟨piece ++ out, ?_, .cons low kind prints⟩
    rw [later, first, List.reverse_append, List.reverse_reverse, List.append_assoc]

end Pass

/-! ### Words of a line and of its normal text -/

theorem isWordChar_of_mem_storedChar {c d : Char} (name : Name.isNameChar c) (low : c.toLower = c)
    (member : d ∈ Name.storedChar c) : isWordChar d := by
  unfold Name.storedChar at member
  split at member
  next =>
    have chars : d = 'G' ∨ d = 'g' := by simpa using member
    rcases chars with rfl | rfl <;> decide
  next plain =>
    rw [low, List.mem_singleton] at member
    rw [member]
    simpa [Name.isNameChar, plain] using name

theorem userWords_storedChars {w : List Char} (low : ∀ c ∈ w, c.toLower = c) :
    userWords [Name.storedChars w] = ([w].filter startsName).map Name.storedChars := by
  cases w with
  | nil => rfl
  | cons c w =>
    have first : c.toLower = c := low c List.mem_cons_self
    have same : startsName (Name.storedChars (c :: w)) = startsName (c :: w) ∧
        Name.storedChars (c :: w) ≠ "Degree".toList := by
      rw [Name.storedChars_cons]
      by_cases underscore : c = '_'
      · subst underscore
        exact ⟨rfl, fun factor => absurd (List.cons.inj factor).1 (by decide)⟩
      · rw [Name.storedChar_of_ne underscore, first, List.singleton_append]
        refine ⟨rfl, fun factor => ?_⟩
        have upper : c = 'D' := (List.cons.inj factor).1
        rw [upper] at first
        exact absurd first (by decide)
    rw [userWords, List.filter_singleton, same.1, List.filter_singleton]
    cases startsName (c :: w) with
    | true => exact List.filter_cons_of_pos (decide_eq_true same.2)
    | false => rfl

theorem Prints.userWords_eq {s out : List Char} (prints : Prints s out) :
    ∃ first others printed, Name.runs s = first :: others ∧
      wordRuns out = Name.storedChars first :: printed ∧ (∀ c ∈ first, c.toLower = c) ∧
      userWords printed = (others.filter startsName).map Name.storedChars := by
  induction prints with
  | nil => exact ⟨[], [], [[]], rfl, rfl, nofun, rfl⟩
  | @cons c s piece out low kind _ ih =>
    obtain ⟨first, others, printed, runs, word_runs, lows, same⟩ := ih
    obtain ⟨name, rfl⟩ | ⟨no_name, inner, none, parts⟩ := kind
    · refine ⟨c :: first, others, printed, pieces_keep (by rw [name]; rfl) runs, ?_, ?_, same⟩
      · rw [Name.storedChars_cons]
        exact wordRuns_word (fun d member => isWordChar_of_mem_storedChar name low member) word_runs
      · intro d member
        rcases List.mem_cons.1 member with rfl | later
        · exact low
        · exact lows d later
    · refine ⟨[], first :: others, inner ++ Name.storedChars first :: printed, ?_, ?_, nofun, ?_⟩
      · rw [← runs]
        exact pieces_cut (by rw [no_name]; rfl) s
      · rw [parts, word_runs]
        rfl
      · rw [userWords_append, none, List.nil_append, ← List.singleton_append, userWords_append,
          same, userWords_storedChars lows, ← List.map_append, ← List.filter_append]
        rfl

/-- The words of normal text are those of the line it was made from, under their stored names. -/
theorem userWords_normal {mode : AngleMode} {line text : List Char}
    (read : normal mode line = .ok (some text)) :
    userWords (wordRuns text) = ((Name.runs (bare line)).filter startsName).map Name.storedChars := by
  obtain ⟨p, ran, -, -, -, -, closed⟩ := normal_eq_some read
  have plain : ∀ c ∈ bare line, c.toLower = c ∧ isSpace c = false := by
    intro c member
    obtain ⟨d, inside, rfl⟩ := List.mem_map.1 member
    exact ⟨Char.toLower_toLower_eq_toLower d, by
      rw [isSpace_toLower]
      simpa using (List.mem_filter.1 inside).2⟩
  obtain ⟨out, written, prints⟩ := exists_prints plain (run_bare ran)
  have text_eq : text = out := by
    rw [closed, ← List.nil_append out]
    exact (List.reverse_append).symm.trans written
  obtain ⟨first, others, printed, runs, word_runs, low, same⟩ := prints.userWords_eq
  rw [text_eq, word_runs, runs, ← List.singleton_append, userWords_append,
    userWords_storedChars low, same, ← List.map_append, ← List.filter_append]
  rfl

/-! ### Blanks -/

def Unbroken : List Char → Prop
  | [] => True
  | c :: s =>
    (Name.isNameChar c → s.head?.any isSpace → (s.find? (!isSpace ·)).any Name.isNameChar = false) ∧
      Unbroken s

instance decidableUnbroken : (s : List Char) → Decidable (Unbroken s)
  | [] => isTrue trivial
  | _ :: s =>
    have := decidableUnbroken s
    inferInstanceAs (Decidable (_ ∧ _))

def visible (s : List Char) : List Char := s.filter (!isSpace ·)

theorem runs_name {c : Char} {s first : List Char} {others : List (List Char)}
    (name : Name.isNameChar c = true) (runs : Name.runs s = first :: others) :
    Name.runs (c :: s) = (c :: first) :: others :=
  pieces_keep (by rw [name]; rfl) runs

theorem runs_stop {c : Char} (no_name : Name.isNameChar c = false) (s : List Char) :
    Name.runs (c :: s) = [] :: Name.runs s :=
  pieces_cut (by rw [no_name]; rfl) s

theorem isNameChar_of_isSpace {c : Char} (space : isSpace c = true) : Name.isNameChar c = false := by
  simp only [isSpace, Bool.or_eq_true, beq_iff_eq] at space
  rcases space with rfl | rfl <;> decide

theorem first_run_of_head {s seen : List Char} {later : List (List Char)}
    (runs : Name.runs s = seen :: later) (no_name : s.head?.any Name.isNameChar = false) :
    seen = [] := by
  cases s with
  | nil =>
    cases runs
    rfl
  | cons c s =>
    rw [runs_stop no_name] at runs
    exact (List.cons.inj runs).1.symm

/-- The runs that start a name are the same without blanks. The first run is told apart, as it may
go on with what stands before the text. -/
theorem runs_visible {s : List Char} (unbroken : Unbroken s) :
    ∃ first others seen later, Name.runs s = first :: others ∧
      Name.runs (visible s) = seen :: later ∧
      (s.head?.any isSpace = false ∧ first = seen ∧
          others.filter startsName = later.filter startsName ∨
        s.head?.any isSpace = true ∧ first = [] ∧
          others.filter startsName = (seen :: later).filter startsName) := by
  induction s with
  | nil => exact ⟨[], [], [], [], rfl, rfl, .inl ⟨rfl, rfl, rfl⟩⟩
  | cons c s ih =>
    obtain ⟨apart, unbroken⟩ := unbroken
    obtain ⟨first, others, seen, later, runs, seen_runs, cases⟩ := ih unbroken
    cases space : isSpace c with
    | true =>
      have dropped : visible (c :: s) = visible s := by simp [visible, space]
      refine ⟨[], first :: others, seen, later, ?_, by rw [dropped, seen_runs],
        .inr ⟨space, rfl, ?_⟩⟩
      · rw [runs_stop (isNameChar_of_isSpace space), runs]
      · obtain ⟨-, rfl, same⟩ | ⟨-, rfl, same⟩ := cases
        · rw [List.filter_cons, List.filter_cons, same]
        · exact same
    | false =>
      have kept : visible (c :: s) = c :: visible s := by simp [visible, space]
      rw [kept]
      cases name : Name.isNameChar c with
      | true =>
        have alike : first = seen ∧ others.filter startsName = later.filter startsName := by
          obtain ⟨-, rfl, same⟩ | ⟨blank, rfl, same⟩ := cases
          · exact ⟨rfl, same⟩
          · have next := apart name blank
            rw [← List.head?_filter] at next
            obtain rfl := first_run_of_head seen_runs next
            exact ⟨rfl, same⟩
        obtain ⟨rfl, same⟩ := alike
        exact ⟨c :: first, others, c :: first, later, runs_name name runs,
          runs_name name seen_runs, .inl ⟨space, rfl, same⟩⟩
      | false =>
        refine ⟨[], first :: others, [], seen :: later, by rw [runs_stop name, runs],
          by rw [runs_stop name, seen_runs], .inl ⟨space, rfl, ?_⟩⟩
        obtain ⟨-, rfl, same⟩ | ⟨-, rfl, same⟩ := cases
        · rw [List.filter_cons, List.filter_cons, same]
        · exact same

theorem filter_runs_visible {s : List Char} (unbroken : Unbroken s) :
    (Name.runs (visible s)).filter startsName = (Name.runs s).filter startsName := by
  obtain ⟨first, others, seen, later, runs, seen_runs, ⟨-, rfl, same⟩ | ⟨-, rfl, same⟩⟩ :=
    runs_visible unbroken
  · rw [runs, seen_runs, List.filter_cons, List.filter_cons, same]
  · rw [runs, seen_runs, ← same]
    rfl

/-! ### Case -/

theorem isDigit_toLower (c : Char) : c.toLower.isDigit = c.isDigit := by
  cases upper : c.isUpper with
  | false => rw [Char.toLower_eq_of_not_isUpper (by rw [upper]; decide)]
  | true =>
    have letter : c.isAlpha = true := by rw [Char.isAlpha, upper, Bool.true_or]
    have lowered : c.toLower.isAlpha = true := by rw [Char.isAlpha_toLower_eq_isAlpha, letter]
    rw [Formula.isDigit_of_isAlpha letter, Formula.isDigit_of_isAlpha lowered]

theorem isNameChar_toLower (c : Char) : Name.isNameChar c.toLower = Name.isNameChar c := by
  have underscore : (c.toLower == '_') = (c == '_') := by
    rw [Bool.eq_iff_iff, beq_iff_eq, beq_iff_eq]
    exact toLower_eq_mark (by decide)
  rw [Name.isNameChar, Name.isNameChar, underscore, isWordChar, isWordChar, Char.isAlphanum,
    Char.isAlphanum, Char.isAlpha_toLower_eq_isAlpha, isDigit_toLower]

theorem runs_lower (s : List Char) : Name.runs (lower s) = (Name.runs s).map lower := by
  induction s with
  | nil => rfl
  | cons c s ih =>
    change Name.runs (c.toLower :: lower s) = _
    obtain ⟨first, others, runs⟩ := exists_first_piece (fun c => !Name.isNameChar c) s
    have parts : Name.runs s = first :: others := runs
    rw [parts] at ih
    cases name : Name.isNameChar c with
    | true =>
      rw [runs_name name parts, runs_name ((isNameChar_toLower c).trans name) ih]
      rfl
    | false =>
      rw [runs_stop name, runs_stop ((isNameChar_toLower c).trans name), parts, ih]
      rfl

theorem startsName_lower (w : List Char) : startsName (lower w) = startsName w := by
  cases w with
  | nil => rfl
  | cons c w => exact congrArg not (isDigit_toLower c)

theorem storedChars_lower (w : List Char) : Name.storedChars (lower w) = Name.storedChars w := by
  have char (c : Char) : Name.storedChar c.toLower = Name.storedChar c := by
    have same : c.toLower = '_' ↔ c = '_' := toLower_eq_mark (by decide)
    simp only [Name.storedChar, same, Char.toLower_toLower_eq_toLower]
  rw [Name.storedChars, lower, List.flatMap_map]
  exact List.flatMap_congr fun c _ => char c

theorem storedChars_runs_bare {line : List Char} (unbroken : Unbroken line) :
    ((Name.runs (bare line)).filter startsName).map Name.storedChars =
      ((Name.runs line).filter startsName).map Name.storedChars := by
  have lowered : Name.runs (bare line) = (Name.runs (visible line)).map lower :=
    runs_lower (visible line)
  have starts : startsName ∘ lower = startsName := funext startsName_lower
  have stores : Name.storedChars ∘ lower = Name.storedChars := funext storedChars_lower
  rw [lowered, List.filter_map, starts, List.map_map, stores, filter_runs_visible unbroken]

/-! ### Functions and constants -/

theorem isLower_of_isFixed {word : String} (fixed : isFixed word = true) :
    ∀ c ∈ word.toList, c.isLower := by
  rcases Bool.or_eq_true_iff.1 fixed with function | constant
  · obtain ⟨F, found⟩ := Option.isSome_iff_exists.1 function
    exact (isFunction_of_canonical found).lower.2
  · unfold canonicalConstant? at constant
    split at constant
    next pi =>
      rw [pi]
      simp
    next =>
      split at constant
      next e =>
        rw [e]
        simp
      next => cases constant

theorem isFixed_stored (word : String) : isFixed (Name.stored word) = Name.isReserved word := by
  have reserved : Name.isReserved word = isFixed (lowerName word) := rfl
  rw [reserved]
  by_cases underscore : '_' ∈ word.toList
  · have stored_pair : 'G' ∈ (Name.stored word).toList := by
      rw [Name.stored, String.toList_ofList]
      exact List.mem_flatMap.2 ⟨'_', underscore, by decide⟩
    have lowered : '_' ∈ (lowerName word).toList := by
      rw [lowerName, String.toList_ofList]
      exact List.mem_map.2 ⟨'_', underscore, by decide⟩
    rw [Bool.eq_false_iff.2 fun fixed => absurd (isLower_of_isFixed fixed _ stored_pair) (by decide),
      Bool.eq_false_iff.2 fun fixed => absurd (isLower_of_isFixed fixed _ lowered) (by decide)]
  · have same : Name.stored word = lowerName word := by
      rw [Name.stored, lowerName, Name.storedChars, lower, List.map_eq_flatMap]
      refine congrArg String.ofList (List.flatMap_congr fun c member => ?_)
      exact Name.storedChar_of_ne fun bad => underscore (bad ▸ member)
    rw [same]

/-! ### Unknowns -/

theorem isNameChar_of_mem_runs {s w : List Char} (member : w ∈ Name.runs s) :
    ∀ c ∈ w, Name.isNameChar c = true := by
  induction s generalizing w with
  | nil =>
    obtain rfl := List.mem_singleton.1 member
    exact nofun
  | cons c s ih =>
    obtain ⟨first, others, runs⟩ := exists_first_piece (fun c => !Name.isNameChar c) s
    have parts : Name.runs s = first :: others := runs
    rw [parts] at ih
    cases name : Name.isNameChar c with
    | true =>
      rw [runs_name name parts] at member
      rcases List.mem_cons.1 member with rfl | later
      · intro d inside
        rcases List.mem_cons.1 inside with rfl | tail
        · exact name
        · exact ih List.mem_cons_self d tail
      · exact ih (List.mem_cons_of_mem first later)
    | false =>
      rw [runs_stop name, parts] at member
      rcases List.mem_cons.1 member with rfl | later
      · exact nofun
      · exact ih later

theorem startsName_eq {s w : List Char} (member : w ∈ Name.runs s)
    (plain : startsName w = true → w.head? ≠ some '_') :
    startsName w = w.head?.any Char.isAlpha := by
  cases w with
  | nil => rfl
  | cons c w =>
    have name := isNameChar_of_mem_runs member c List.mem_cons_self
    change (!c.isDigit) = c.isAlpha
    cases digit : c.isDigit with
    | true =>
      cases letter : c.isAlpha with
      | true =>
        rw [Formula.isDigit_of_isAlpha letter] at digit
        cases digit
      | false => rfl
    | false =>
      have other : c ≠ '_' := fun same =>
        plain (by rw [startsName, List.head?_cons, Option.any_some, digit]; rfl) (congrArg some same)
      rw [Name.isNameChar, isWordChar, Char.isAlphanum, digit, Bool.or_false,
        beq_eq_false_iff_ne.2 other, Bool.or_false] at name
      rw [name]
      rfl

/-- The names of an accepted line are its free words under their stored names. -/
theorem names_of_normal {mode : AngleMode} {line : String} {text residual : List Char}
    {names : List String} (unbroken : Unbroken line.toList)
    (read : normal mode line.toList = .ok (some text))
    (contributed : contributions (tokens text) = .ok (residual, names)) :
    names = (Name.freeWords line).map Name.stored := by
  obtain ⟨listed, heads⟩ := names_of_contributions contributed
  have words : (wordsIn (tokens text)).filter (· ≠ "Degree".toList) =
      ((Name.runs line.toList).filter startsName).map Name.storedChars := by
    rw [wordsIn_tokens contributed, ← storedChars_runs_bare unbroken, ← userWords_normal read]
    rfl
  -- the stored name of a word with an underscore in front starts with the `G` of the pair
  have plain : ∀ w ∈ Name.runs line.toList, startsName w = true → w.head? ≠ some '_' := by
    intro w member starts underscore
    have inside : Name.storedChars w ∈ (wordsIn (tokens text)).filter (· ≠ "Degree".toList) := by
      rw [words]
      exact List.mem_map_of_mem (List.mem_filter.2 ⟨member, starts⟩)
    refine heads _ (List.mem_filter.1 inside).1 ?_
    obtain ⟨rest, rfl⟩ := List.head?_eq_some_iff.1 underscore
    rfl
  have free : ∀ w ∈ Name.runs line.toList,
      (!isFixed (String.ofList (Name.storedChars w)) && startsName w) =
        (w.head?.any Char.isAlpha && !Name.isReserved (String.ofList w)) := by
    intro w member
    have reserved := isFixed_stored (String.ofList w)
    rw [Name.stored, String.toList_ofList] at reserved
    rw [reserved, startsName_eq member (plain w member), Bool.and_comm]
  let store (w : List Char) : String := String.ofList (Name.storedChars w)
  calc
    names = ((((Name.runs line.toList).filter startsName).map Name.storedChars).map
        String.ofList).filter (!isFixed ·) := by rw [listed, words]
    _ = ((Name.runs line.toList).filter fun w => !isFixed (store w) && startsName w).map store := by
      rw [List.map_map, List.filter_map, List.filter_filter]
      rfl
    _ = ((Name.runs line.toList).filter fun w =>
        w.head?.any Char.isAlpha && !Name.isReserved (String.ofList w)).map store := by
      rw [List.filter_congr free]
    _ = (Name.freeWords line).map Name.stored := by
      rw [Name.freeWords, List.filter_map, List.map_map]
      simp only [Function.comp_def, Name.stored, String.toList_ofList, store]

end Simultaneous.Line
