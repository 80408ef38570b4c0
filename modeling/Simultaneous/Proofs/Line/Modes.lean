import Simultaneous.Proofs.Line.Degrees

/-!
The token pass over the two texts of a line. Up to a bracket both have the same tokens, and what these
contribute depends on the next token only, which is the same, too. A trigonometric name before a
bracket becomes the canonical name of the same call and no other word does, so the factors stand in
the residual where they stand in normal text.
-/

namespace Simultaneous.Line

open Text

/-! ### Rows that differ in factors -/

def BothContribute (word : List Char) (open_ : List Bool)
    (long short : Except LineError (List Char × List String)) : Prop :=
  (∃ e, long = .error e ∧ short = .error e) ∨ ∃ x y names,
    long = .ok (x, names) ∧ short = .ok (y, names) ∧ Wraps angleCalls word open_ x y

section Rows

variable {word out : List Char} {open_ : List Bool} {us vs : List Token} {t : Token}

theorem head?_append_congr (heads : us.head? = vs.head?) (ts : List Token) :
    (ts ++ us).head? = (ts ++ vs).head? := by
  rw [List.head?_append, List.head?_append, heads]

theorem BothContribute.cons (heads : us.head? = vs.head?)
    (later : ∀ a name?, contribution t us = .ok (a, name?) → ∃ next,
      BothContribute next open_ (contributions us) (contributions vs) ∧
        ∀ x y, Wraps angleCalls next open_ x y → Wraps angleCalls out open_ (a ++ x) (a ++ y)) :
    BothContribute out open_ (contributions (t :: us)) (contributions (t :: vs)) := by
  rw [contributions, contributions, ← contribution_congr heads]
  cases contributed : contribution t us with
  | error e => exact .inl ⟨e, rfl, rfl⟩
  | ok first =>
    obtain ⟨a, name?⟩ := first
    obtain ⟨next, ⟨e, failed, failed'⟩ | ⟨x, y, names, read, read', wraps⟩, goes⟩ :=
      later a name? contributed
    · rw [failed, failed']
      exact .inl ⟨e, rfl, rfl⟩
    · rw [read, read']
      exact .inr ⟨_, _, _, rfl, rfl, goes x y wraps⟩

end Rows

/-! ### Numbers -/

section Numbers

variable {word m k sign x y : List Char} {open_ : List Bool} {c : Char} {s : List Char}

theorem plain_of_digit (digit : c.isDigit) : c ∉ ['(', ')', 'D'] := by
  intro member
  simp only [List.mem_cons, List.not_mem_nil, or_false] at member
  rcases member with rfl | rfl | rfl <;> cases digit

theorem plain_of_mantissa (mantissa : IsMantissa m) : ∀ c ∈ m, c ∉ ['(', ')', 'D'] := by
  intro c member
  rcases mantissa.digits c member with digit | rfl
  · exact plain_of_digit digit
  · decide

theorem wraps_powerOfTen (mantissa : IsMantissa m) (digits : AreDigits k)
    (wraps : Wraps angleCalls [] open_ x y) :
    let text := "(".toList ++ m ++ "*10^(".toList ++ (if sign = ['-'] then ['-'] else []) ++ k ++
      "))".toList
    Wraps angleCalls [] open_ (text ++ x) (text ++ y) := by
  intro text
  have minus : ∀ c ∈ (if sign = ['-'] then ['-'] else []), c ∉ ['(', ')', 'D'] := by
    split <;> simp
  have closers : Wraps angleCalls ((m ++ "*10^".toList).foldl extend []) (false :: open_)
      ('(' :: ((if sign = ['-'] then ['-'] else []) ++ (k ++ ("))".toList ++ x))))
      ('(' :: ((if sign = ['-'] then ['-'] else []) ++ (k ++ ("))".toList ++ y)))) := by
    have no_word : (m ++ "*10^".toList).foldl extend [] = [] :=
      foldl_extend_of_stop (c := '^') (by simp) (by decide)
    have digit : ∀ c ∈ k, c ∉ ['(', ')', 'D'] := fun c member => plain_of_digit (digits.2 c member)
    refine .opener ?_ (.append minus (.append digit (.closer (.closer wraps))))
    rw [no_word]
    decide
  have power : ∀ c ∈ "*10^".toList, c ∉ ['(', ')', 'D'] := by simp
  have front : ∀ c ∈ m ++ "*10^".toList, c ∉ ['(', ')', 'D'] := by
    intro c member
    rcases List.mem_append.1 member with inside | inside
    · exact plain_of_mantissa mantissa c inside
    · exact power c inside
  have no_call : String.ofList [] ∉ angleCalls := by decide
  have whole := Wraps.opener no_call (Wraps.append front closers)
  simpa [text] using whole

theorem no_call_of_digit (word : List Char) (digit : c.isDigit) (last : s.getLast? = some c) :
    String.ofList (s.foldl extend word) ∉ trigonometric ∧
      String.ofList (s.foldl extend word) ∉ angleCalls := by
  obtain ⟨front, rfl⟩ := List.getLast?_eq_some_iff.1 last
  have in_word := isWordChar_of_isDigit digit
  have other {calls : List String} (letters : ∀ n ∈ calls, ∀ d ∈ n.toList, d.isDigit = false) :
      String.ofList ((front ++ [c]).foldl extend word) ∉ calls := by
    intro call
    have inside : c ∈ (String.ofList ((front ++ [c]).foldl extend word)).toList := by
      rw [String.toList_ofList, List.foldl_append, List.foldl_cons, List.foldl_nil,
        extend_of_word in_word]
      simp
    rw [letters _ call c inside] at digit
    cases digit
  exact ⟨other (by simp [trigonometric]), other (by simp [angleCalls])⟩

theorem exists_last_digit (digits : AreDigits k) : ∃ c, k.getLast? = some c ∧ c.isDigit :=
  ⟨_, List.getLast?_eq_some_getLast digits.1, digits.2 _ (List.getLast_mem digits.1)⟩

theorem IsMantissa.exists_last (mantissa : IsMantissa m) : ∃ c, m.getLast? = some c ∧ c.isDigit := by
  cases mantissa with
  | whole digits => exact exists_last_digit digits
  | @fraction s t _ decimals =>
    obtain ⟨c, last, digit⟩ := exists_last_digit decimals
    exact ⟨c, by rw [List.getLast?_append, List.getLast?_cons, last]; rfl, digit⟩

end Numbers

/-! ### Words -/

theorem plain_of_word {c : Char} (word : isWordChar c) (other : c ≠ 'D') : c ∉ ['(', ')', 'D'] := by
  intro member
  simp only [List.mem_cons, List.not_mem_nil, or_false] at member
  rcases member with rfl | rfl | rfl
  · cases word
  · cases word
  · exact other rfl

theorem call_of_mem_functionNames : ∀ entry ∈ functionNames,
    (entry.1 ∈ trigonometric ↔ entry.2 ∈ angleCalls) ∧
      ∀ c ∈ entry.2.toList, isWordChar c ∧ c ≠ 'D' := by
  simp [functionNames, trigonometric, angleCalls, isWordChar]

theorem Means.call_text {w : String} {call : Bool} {m : Meaning} (means : Means w call m)
    (word : ∀ c ∈ w.toList, isWordChar c ∧ c ≠ 'D') :
    (∀ c ∈ m.text.toList, isWordChar c ∧ c ≠ 'D') ∧
      (call → (w ∈ trigonometric ↔ m.text ∈ angleCalls)) := by
  cases means with
  | factor same =>
    rw [same] at word
    exact absurd rfl (word 'D' (by simp)).2
  | function _ _ function =>
    obtain ⟨entry, found, rfl⟩ := Option.map_eq_some_iff.1 function
    have same : entry.1 = w := by simpa using List.find?_some found
    obtain ⟨calls, chars⟩ := call_of_mem_functionNames entry (List.mem_of_find?_eq_some found)
    exact ⟨chars, fun _ => same ▸ calls⟩
  | constant _ _ _ canonical =>
    refine ⟨?_, nofun⟩
    unfold canonicalConstant? at canonical
    split_ifs at canonical <;> cases canonical <;> simp [Meaning.text, isWordChar]
  | unknown => exact ⟨word, nofun⟩

/-! ### The token pass -/

section Segments

variable {c : Char} {s : List Char} {us vs : List Token} {open_ : List Bool}

theorem apart_of_number_append {x : List Char} {name? : Option String} (digit : c.isDigit)
    (contributed : contribution (takeNumber (c :: s)).1 (tokens (takeNumber (c :: s)).2 ++ us) =
      .ok (x, name?)) : ∀ d ∈ (takeNumber (c :: s)).2.head?, isWordChar d = false := by
  cases row : tokens (takeNumber (c :: s)).2 with
  | nil =>
    have none_left := read_tokens (takeNumber (c :: s)).2
    rw [row] at none_left
    rw [← none_left]
    nofun
  | cons u more =>
    have alone : contribution (takeNumber (c :: s)).1 (tokens (takeNumber (c :: s)).2) =
        .ok (x, name?) := by
      rw [← contributed]
      apply contribution_congr
      rw [row]
      rfl
    exact apart_of_number digit alone

/-- Text without brackets before two rows that begin alike. Where a row begins with a bracket, the
word before it and what was written for the word are calls of the same kind. -/
theorem bothContribute_segment (plain : ∀ c ∈ s, c ∉ ['(', ')', 'D']) (heads : us.head? = vs.head?)
    {word out : List Char} (fresh : ∀ c ∈ s.head?, isWordChar c → word = [] ∧ out = [])
    (alike : s = [] → us.head? = some (.mark '(') →
      (String.ofList word ∈ trigonometric ↔ String.ofList out ∈ angleCalls))
    (later : ∀ out, (us.head? = some (.mark '(') →
      (String.ofList (s.foldl extend word) ∈ trigonometric ↔ String.ofList out ∈ angleCalls)) →
        BothContribute out open_ (contributions us) (contributions vs)) :
    BothContribute out open_ (contributions (tokens s ++ us)) (contributions (tokens s ++ vs)) := by
  fun_induction tokens s generalizing word out with
  | case1 => exact later out (alike rfl)
  | case2 c rest digit ih =>
    have in_word := isWordChar_of_isDigit digit
    obtain ⟨rfl, rfl⟩ := fresh c rfl in_word
    refine .cons (head?_append_congr heads _) fun a name? contributed => ?_
    have apart := apart_of_number_append digit contributed
    obtain ⟨m, after, mantissa, -, ⟨chars, taken⟩ | ⟨sign, k, signed, digits, chars, taken⟩⟩ :=
      takeNumber_cases (s := rest) digit
    · rw [taken] at contributed apart ih ⊢
      obtain ⟨rfl, -⟩ := contribution_number contributed
      obtain ⟨d, last, is_digit⟩ := mantissa.exists_last
      obtain ⟨no_call, no_call'⟩ := no_call_of_digit [] is_digit last
      rw [chars, List.foldl_append] at later
      rw [chars] at plain
      refine ⟨_, ih (fun d member => plain d (List.mem_append_right _ member)) ?_
        (fun _ _ => iff_of_false no_call no_call') later,
        fun x y => Wraps.append (plain_of_mantissa mantissa)⟩
      exact fun d first word => absurd (word.symm.trans (apart d first)) (by decide)
    · rw [taken] at contributed apart ih ⊢
      obtain ⟨rfl, -⟩ := contribution_number contributed
      obtain ⟨d, last, is_digit⟩ := exists_last_digit digits
      have last : (m ++ 'e' :: (sign ++ k)).getLast? = some d := by
        rw [List.getLast?_append, List.getLast?_cons, List.getLast?_append, last]
        rfl
      obtain ⟨no_call, -⟩ := no_call_of_digit [] is_digit last
      have parts : c :: rest = (m ++ 'e' :: (sign ++ k)) ++ after := by simp [chars]
      rw [parts, List.foldl_append] at later
      rw [parts] at plain
      refine ⟨[], ih (fun d member => plain d (List.mem_append_right _ member)) ?_
        (fun _ _ => iff_of_false no_call (by decide)) later,
        fun x y => wraps_powerOfTen mantissa digits⟩
      exact fun d first word => absurd (word.symm.trans (apart d first)) (by decide)
  | case3 c rest no_digit letter ih =>
    have in_word := isWordChar_of_isAlpha letter
    obtain ⟨rfl, rfl⟩ := fresh c rfl in_word
    refine .cons (head?_append_congr heads _) fun a name? contributed => ?_
    have word : ∀ d ∈ (takeWord (c :: rest)).1, isWordChar d := fun d member =>
      List.mem_takeWhile_imp member
    have parts := takeWord_append (c :: rest)
    have whole : (takeWord (c :: rest)).1.foldl extend [] = (takeWord (c :: rest)).1 :=
      foldl_extend_of_word word
    have inside (d : Char) (member : d ∈ (takeWord (c :: rest)).1) : d ≠ 'D' := by
      rintro rfl
      exact plain 'D' (parts ▸ List.mem_append_left _ member) (by simp)
    obtain ⟨before, m, called, means, rfl, -⟩ := contribution_word contributed
    obtain ⟨chars, call⟩ := means.call_text fun d member => by
      rw [String.toList_ofList] at member
      exact ⟨word d member, inside d member⟩
    rw [← parts, List.foldl_append, whole] at later
    have written : m.text.toList.foldl extend [] = m.text.toList :=
      foldl_extend_of_word fun d member => (chars d member).1
    refine ⟨m.text.toList, ih (fun d member => plain d (parts ▸ List.mem_append_right _ member))
      (fun d first word => ?_) (fun none_left opens => ?_) later, fun x y wraps => ?_⟩
    · exact absurd (word.symm.trans (takeWord_stops (c :: rest) d first)) (by decide)
    · rw [String.ofList_toList]
      refine call (called.2 ?_)
      rwa [none_left, tokens]
    · exact Wraps.append (fun d member => plain_of_word (chars d member).1 (chars d member).2)
        (written.symm ▸ wraps)
  | case4 c rest no_digit no_letter ih =>
    have stop := isWordChar_eq_false_iff.2 ⟨no_digit, no_letter⟩
    obtain ⟨first, others⟩ := List.forall_mem_cons.1 plain
    refine .cons (head?_append_congr heads _) fun a name? contributed => ?_
    obtain ⟨-, rfl, -⟩ := contribution_mark contributed
    rw [List.foldl_cons, extend_of_stop stop] at later
    refine ⟨[], ih others (fun _ _ _ => ⟨rfl, rfl⟩)
      (fun _ _ => iff_of_false (by decide) (by decide)) later, fun x y wraps => ?_⟩
    have next : Wraps angleCalls (extend out c) open_ x y := by rwa [extend_of_stop stop]
    exact .plain first next

end Segments

theorem tokens_factor (s : List Char) : tokens (factor ++ s) =
    .word "Degree".toList :: .mark '*' :: .mark '(' :: tokens s := by
  have word : ∀ c ∈ "Degree".toList, isWordChar c := by simp [isWordChar]
  have first : tokens (factor ++ s) = .word "Degree".toList :: tokens ('*' :: '(' :: s) :=
    tokens_word (by simp) word (by simp [isWordChar])
  rw [first, tokens_mark (by decide), tokens_mark (by decide)]

theorem contributions_factor (ts : List Token) :
    contributions (.mark '(' :: .word "Degree".toList :: .mark '*' :: .mark '(' :: ts) =
      joined (.ok ('(' :: factor, [])) (contributions ts) := by
  have means (b : Bool) : meaning "Degree" b = .ok (.fixed "Degree") := by simp [meaning]
  rcases row : contributions ts with e | ⟨text, names⟩ <;>
    simp [contributions, contribution, joined, row, means, factor]

theorem contributions_bracket {b : Char} (bracket : b ≠ '.') (ts : List Token) :
    contributions (.mark b :: ts) = joined (.ok ([b], [])) (contributions ts) := by
  rcases row : contributions ts with e | ⟨text, names⟩ <;>
    simp [contributions, contribution, joined, row, bracket]

theorem joined_bracket (a : List Char) (ts : List Token) :
    joined (.ok (a, [])) (contributions (.mark ')' :: ts)) =
      joined (.ok (a ++ [')'], [])) (contributions ts) := by
  rw [contributions_bracket (by decide)]
  rcases contributions ts with e | ⟨text, names⟩ <;> simp [joined]

theorem BothContribute.joined {out next a b : List Char} {open_ more : List Bool}
    {long short : Except LineError (List Char × List String)}
    (both : BothContribute next more long short)
    (goes : ∀ x y, Wraps angleCalls next more x y → Wraps angleCalls out open_ (a ++ x) (b ++ y)) :
    BothContribute out open_ (Line.joined (.ok (a, [])) long) (Line.joined (.ok (b, [])) short) := by
  obtain ⟨e, rfl, rfl⟩ | ⟨x, y, names, rfl, rfl, wraps⟩ := both
  · exact .inl ⟨e, rfl, rfl⟩
  · exact .inr ⟨_, _, _, rfl, rfl, goes x y wraps⟩

/-- The token pass over two texts that differ in factors. -/
theorem bothContribute_of_wraps {x y : List Char} {open_ : List Bool}
    (wraps : Wraps trigonometric [] open_ x y) :
    BothContribute [] open_ (contributions (tokens x)) (contributions (tokens y)) := by
  -- strong induction: a factor is read at once, not character by character
  induction size : x.length using Nat.strong_induction_on generalizing x y open_ with
  | _ size_x ih =>
  subst size
  obtain ⟨s, x', y', rfl, rfl, plain, wraps, ⟨rfl, rfl⟩ | ⟨b, bracket, x, y, rfl, rfl⟩⟩ :=
    wraps.exists_segment
  · have none_left : tokens [] = [] := by rw [tokens]
    cases wraps with
    | nil =>
      rw [List.append_nil, ← List.append_nil (tokens s)]
      exact bothContribute_segment plain rfl (fun _ _ _ => ⟨rfl, rfl⟩)
        (fun _ first => absurd first (by simp))
        fun out _ => .inr ⟨[], [], [], rfl, rfl, .nil⟩
  · have stop : isWordChar b = false ∧ b ≠ '.' ∧ isSign b = false := by
      simp only [List.mem_cons, List.not_mem_nil, or_false] at bracket
      rcases bracket with rfl | rfl <;> decide
    have cut (t : List Char) : tokens (s ++ b :: t) = tokens s ++ .mark b :: tokens t := by
      rw [tokens_append stop.1 stop.2.1 s t fun sign => absurd sign (by simp [stop.2.2]),
        tokens_mark stop.1]
    have shorter {t : List Char} (within : t.length ≤ x.length) :
        t.length < (s ++ b :: x).length := by
      rw [List.length_append, List.length_cons]
      omega
    have heads : (Token.mark b :: tokens x).head? = (Token.mark b :: tokens y).head? := rfl
    rw [cut, cut]
    refine bothContribute_segment plain heads (fun _ _ _ => ⟨rfl, rfl⟩) ?_ fun out alike => ?_
    · exact fun _ _ => iff_of_false (by decide) (by decide)
    · cases wraps with
      | plain no_bracket =>
        simp only [List.mem_cons, List.not_mem_nil, or_false] at bracket no_bracket
        exact absurd (bracket.imp_right .inl) no_bracket
      | opener no_call wraps =>
        rw [contributions_bracket stop.2.1, contributions_bracket stop.2.1]
        exact (ih _ (shorter le_rfl) wraps rfl).joined fun x y =>
          .opener (mt (alike rfl).2 no_call)
      | @wrapped _ _ x y call wraps =>
        rw [tokens_factor, contributions_factor, contributions_bracket stop.2.1]
        have within : x.length ≤ (factor ++ x).length := by simp
        exact (ih _ (shorter within) wraps rfl).joined fun x y => .wrapped ((alike rfl).1 call)
      | closer wraps =>
        rw [contributions_bracket stop.2.1, contributions_bracket stop.2.1]
        exact (ih _ (shorter le_rfl) wraps rfl).joined fun x y => .closer
      | @pair _ _ x y first wraps =>
        have within : x.length ≤ (')' :: x).length := by simp
        rw [tokens_mark (by decide) x, contributions_bracket stop.2.1, joined_bracket,
          contributions_bracket stop.2.1]
        exact (ih _ (shorter within) wraps rfl).joined fun x y => .pair first

/-- In both modes a line is refused for the same fault, is blank, or states equations with the same
unknowns whose residuals differ in factors. -/
theorem ofLine_modes (line : String) :
    (∃ e, LineEquation.ofLine .degrees line = .error e ∧
        LineEquation.ofLine .radians line = .error e) ∨
      (LineEquation.ofLine .degrees line = .ok none ∧
        LineEquation.ofLine .radians line = .ok none) ∨
      ∃ x y unknowns,
        LineEquation.ofLine .degrees line = .ok (some ⟨String.ofList x, unknowns⟩) ∧
        LineEquation.ofLine .radians line = .ok (some ⟨String.ofList y, unknowns⟩) ∧
        Wraps angleCalls [] [] x y := by
  unfold LineEquation.ofLine
  obtain ⟨e, failed, failed'⟩ | ⟨blank, blank'⟩ | ⟨x, y, read, read', wraps⟩ :=
    normal_modes line.toList
  · rw [failed, failed']
    exact .inl ⟨e, rfl, rfl⟩
  · rw [blank, blank']
    exact .inr (.inl ⟨rfl, rfl⟩)
  · rw [read, read']
    obtain ⟨e, refused, refused'⟩ | ⟨a, b, names, made, made', wraps⟩ :=
      bothContribute_of_wraps wraps
    · simp only [refused, refused']
      exact .inl ⟨e, rfl, rfl⟩
    · simp only [made, made']
      exact .inr (.inr ⟨a, b, _, rfl, rfl, wraps⟩)

/-- In radians a line becomes what it becomes in degrees without the factors of trigonometric calls
and the closing brackets of these: the same fault, nothing for a blank line, or an equation with the
same unknowns. A factor stands in the residual after an opening bracket just if this is that of a
trigonometric call, and nowhere else. -/
theorem degrees_wrap_angles (line : String) :
    LineEquation.ofLine .radians line =
      (LineEquation.ofLine .degrees line).map (Option.map LineEquation.unwrapped) ∧
    ∀ equation, LineEquation.ofLine .degrees line = .ok (some equation) →
      (∀ front back, equation.residual.toList = front ++ '(' :: back →
        (String.ofList (endWord front) ∈ angleCalls ↔ factor <+: back)) ∧
      ∀ front back, equation.residual.toList = front ++ "Degree".toList ++ back →
        ∃ call, front = call ++ ['('] ∧ String.ofList (endWord call) ∈ angleCalls := by
  obtain ⟨e, failed, failed'⟩ | ⟨blank, blank'⟩ | ⟨x, y, unknowns, read, read', wraps⟩ :=
    ofLine_modes line
  · rw [failed, failed']
    exact ⟨rfl, nofun⟩
  · rw [blank, blank']
    exact ⟨rfl, nofun⟩
  · rw [read, read']
    refine ⟨?_, fun equation same => ?_⟩
    · have deleted := wraps.unwrap_eq
      simp only [Except.map, Option.map_some, LineEquation.unwrapped, String.toList_ofList, deleted]
    · cases same
      have at_calls := wraps.factorsAtCalls False
      rw [String.toList_ofList]
      constructor
      · rintro front back rfl
        exact at_calls.opener
      · rintro front back parts
        rw [List.append_assoc] at parts
        have placed : FactorsAtCalls [] False (front ++ 'D' :: ("egree".toList ++ back)) :=
          parts ▸ at_calls
        exact placed.factor

theorem enclosed_sine_is_wrapped :
    LineEquation.ofLine .degrees "[sin(x = 1) + 2]" =
        .ok (some ⟨"(Sin(Degree*(x-1*(1))+2))", ["x"]⟩) ∧
      LineEquation.ofLine .radians "[sin(x = 1) + 2]" = .ok (some ⟨"(Sin(x-1*(1)+2))", ["x"]⟩) ∧
      (String.ofList (endWord "(Sin".toList) ∈ angleCalls ↔
        factor <+: "Degree*(x-1*(1))+2))".toList) ∧
      ∃ call, "(Sin(".toList = call ++ ['('] ∧ String.ofList (endWord call) ∈ angleCalls := by
  have accepted : LineEquation.ofLine .degrees "[sin(x = 1) + 2]" =
      .ok (some ⟨"(Sin(Degree*(x-1*(1))+2))", ["x"]⟩) := by cbv
  obtain ⟨radians, places⟩ := degrees_wrap_angles "[sin(x = 1) + 2]"
  obtain ⟨openers, factors⟩ := places _ accepted
  have deleted : LineEquation.unwrapped ⟨"(Sin(Degree*(x-1*(1))+2))", ["x"]⟩ =
      ⟨"(Sin(x-1*(1)+2))", ["x"]⟩ := by decide +kernel
  rw [accepted] at radians
  exact ⟨accepted, radians.trans (by rw [← deleted]; rfl), openers "(Sin".toList _ (by rfl),
    factors "(Sin(".toList "*(x-1*(1))+2))".toList (by rfl)⟩

end Simultaneous.Line
