import Mathlib
import Simultaneous.Text.Blank
import Simultaneous.Text.Word

/-!
Cutting text: what is cut at the first or the last mark is put together again by the mark, and
trimming takes away just the blanks at both ends. Lines are the pieces between line feeds, up to
blanks at their ends.
-/

namespace Simultaneous.Text

/-! ### At a mark -/

theorem cutWhere?_eq_some_iff {p : Char → Bool} {s before after : List Char} :
    cutWhere? p s = some (before, after) ↔
      ∃ c, p c ∧ (∀ b ∈ before, p b = false) ∧ s = before ++ c :: after := by
  induction s generalizing before with
  | nil => simp [cutWhere?]
  | cons c rest ih =>
    rw [cutWhere?]
    cases stops : p c with
    | true =>
      rw [if_pos rfl, Option.some.injEq, Prod.mk.injEq]
      constructor
      · rintro ⟨rfl, rfl⟩
        exact ⟨c, stops, List.forall_mem_nil _, rfl⟩
      · rintro ⟨mark, -, none, same⟩
        cases before with
        | nil => exact ⟨rfl, (List.cons.inj same).2⟩
        | cons b more =>
          rw [(List.cons.inj same).1, none b List.mem_cons_self] at stops
          cases stops
    | false =>
      rw [if_neg Bool.false_ne_true]
      constructor
      · intro found
        obtain ⟨⟨first, last⟩, later, same⟩ := Option.map_eq_some_iff.1 found
        cases same
        obtain ⟨mark, marks, none, rfl⟩ := ih.1 later
        exact ⟨mark, marks, List.forall_mem_cons.2 ⟨stops, none⟩, rfl⟩
      · rintro ⟨mark, marks, none, same⟩
        cases before with
        | nil =>
          rw [(List.cons.inj same).1, marks] at stops
          cases stops
        | cons b more =>
          obtain ⟨rfl, rfl⟩ := List.cons.inj same
          have later := ih.2 ⟨mark, marks, (List.forall_mem_cons.1 none).2, rfl⟩
          rw [later]
          rfl

theorem cutAt?_eq_some_iff {mark : Char} {s before after : List Char} :
    cutAt? mark s = some (before, after) ↔ mark ∉ before ∧ s = before ++ mark :: after := by
  rw [cutAt?, cutWhere?_eq_some_iff]
  constructor
  · rintro ⟨c, marks, none, rfl⟩
    rw [beq_iff_eq] at marks
    rw [marks]
    refine ⟨fun member => ?_, rfl⟩
    have other := none mark member
    rw [beq_self_eq_true] at other
    cases other
  · rintro ⟨absent, rfl⟩
    refine ⟨mark, beq_self_eq_true mark, fun b member => ?_, rfl⟩
    rw [beq_eq_false_iff_ne]
    exact fun same => absent (same ▸ member)

theorem cutAtLast?_of_notMem {mark : Char} {s : List Char} (absent : mark ∉ s) :
    cutAtLast? mark s = none := by
  induction s with
  | nil => rfl
  | cons c rest ih =>
    obtain ⟨other, later⟩ := not_or.1 (mt List.mem_cons.2 absent)
    rw [cutAtLast?, ih later]
    exact if_neg (Ne.symm other)

theorem cutAtLast?_append {mark : Char} (before : List Char) {after : List Char}
    (absent : mark ∉ after) : cutAtLast? mark (before ++ mark :: after) = some (before, after) := by
  induction before with
  | nil =>
    rw [List.nil_append, cutAtLast?, cutAtLast?_of_notMem absent]
    exact if_pos rfl
  | cons c rest ih => rw [List.cons_append, cutAtLast?, ih]

/-! ### At a word in any case -/

theorem dropStartAnyCase?_append {needle word : List Char} (same : lower word = lower needle)
    (rest : List Char) : dropStartAnyCase? needle (word ++ rest) = some rest := by
  induction needle generalizing word with
  | nil =>
    rw [List.map_eq_nil_iff.1 same]
    rfl
  | cons n ns ih =>
    cases word with
    | nil => cases same
    | cons c cs =>
      obtain ⟨first, later⟩ := List.cons.inj same
      rw [List.cons_append, dropStartAnyCase?, if_pos first.symm]
      exact ih later

theorem cutAtAnyCase?_append {n : Char} {ns gap word : List Char}
    (apart : ∀ c ∈ gap, n.toLower ≠ c.toLower) (same : lower word = lower (n :: ns))
    (rest : List Char) :
    cutAtAnyCase? (n :: ns) (gap ++ (word ++ rest)) = some (gap, rest) := by
  induction gap with
  | nil =>
    have found := dropStartAnyCase?_append same rest
    cases word with
    | nil => cases same
    | cons c cs =>
      rw [List.cons_append] at found
      rw [List.nil_append, List.cons_append, cutAtAnyCase?, found]
  | cons c cs ih =>
    obtain ⟨other, later⟩ := List.forall_mem_cons.1 apart
    rw [List.cons_append, cutAtAnyCase?, dropStartAnyCase?, if_neg other, ih later]
    rfl

/-! ### Into pieces -/

/-- Marked characters are cut into pieces before the marked ones are taken out, or after, where
those at a cut stay. -/
theorem pieces_map_filter {β : Type} (cut : Char → Bool) (f : β → Char) (keep : β → Bool)
    (l : List β) :
    pieces cut ((l.filter fun b => keep b || cut (f b)).map f) =
      (l.splitOnP fun b => cut (f b)).map fun part => (part.filter keep).map f := by
  induction l with
  | nil => rfl
  | cons b l ih =>
    rw [List.splitOnP_cons_eq_if_modifyHead]
    cases cuts : cut (f b) with
    | true =>
      rw [List.filter_cons_of_pos (by rw [cuts, Bool.or_true]), List.map_cons, pieces_cut cuts, ih]
      rfl
    | false =>
      obtain ⟨first, others, split⟩ :=
        List.exists_cons_of_ne_nil (List.splitOnP_ne_nil (fun b => cut (f b)) l)
      rw [split, List.map_cons] at ih
      rw [if_neg Bool.false_ne_true, split, List.modifyHead_cons, List.map_cons]
      cases keeps : keep b with
      | true =>
        rw [List.filter_cons_of_pos (by rw [keeps, Bool.true_or]), List.map_cons,
          pieces_keep cuts ih, List.filter_cons_of_pos keeps, List.map_cons]
      | false =>
        rw [List.filter_cons_of_neg (by rw [keeps, cuts]; decide), ih,
          List.filter_cons_of_neg (by rw [keeps]; decide)]

theorem notMem_of_mem_pieces {mark : Char} {s part : List Char}
    (member : part ∈ pieces (· == mark) s) : mark ∉ part := by
  induction s generalizing part with
  | nil =>
    rw [List.mem_singleton.1 member]
    exact List.not_mem_nil
  | cons c s ih =>
    cases cuts : c == mark with
    | true =>
      rw [@pieces_cut (· == mark) c cuts s] at member
      rcases List.mem_cons.1 member with rfl | later
      · exact List.not_mem_nil
      · exact ih later
    | false =>
      obtain ⟨first, others, parts⟩ := exists_first_piece (· == mark) s
      rw [@pieces_keep (· == mark) c s cuts first others parts] at member
      rw [parts] at ih
      rcases List.mem_cons.1 member with rfl | later
      · rw [List.mem_cons, not_or]
        exact ⟨Ne.symm (beq_eq_false_iff_ne.1 cuts), ih List.mem_cons_self⟩
      · exact ih (List.mem_cons_of_mem _ later)

theorem pieces_eq_iff {mark : Char} {s : List Char} {parts : List (List Char)} :
    pieces (· == mark) s = parts ↔
      parts ≠ [] ∧ (∀ part ∈ parts, mark ∉ part) ∧ [mark].intercalate parts = s := by
  have split : pieces (· == mark) s = s.splitOn mark := by
    simpa [List.splitOn] using pieces_map_filter (· == mark) id (fun _ => true) s
  constructor
  · rintro rfl
    refine ⟨pieces_ne_nil _ s, fun part member => notMem_of_mem_pieces member, ?_⟩
    rw [split]
    exact List.intercalate_splitOn mark
  · rintro ⟨some_part, apart, rfl⟩
    rw [split]
    exact List.splitOn_intercalate mark apart some_part

/-! ### Word characters -/

theorem toNat_of_isWordChar {c : Char} (word : isWordChar c) :
    (48 ≤ c.toNat ∧ c.toNat ≤ 57) ∨ (65 ≤ c.toNat ∧ c.toNat ≤ 90) ∨
      (97 ≤ c.toNat ∧ c.toNat ≤ 122) := by
  simp only [isWordChar, Char.isAlphanum, Char.isAlpha, Char.isUpper, Char.isLower, Char.isDigit,
    Bool.or_eq_true, Bool.and_eq_true, decide_eq_true_eq, ge_iff_le, UInt32.le_iff_toNat_le] at word
  have same : c.toNat = c.val.toNat := rfl
  rw [same]
  rcases word with (upper | lower) | digit
  · exact .inr (.inl upper)
  · exact .inr (.inr lower)
  · exact .inl digit

theorem isBlank_of_isWordChar {c : Char} (word : isWordChar c) : isBlank c = false := by
  have codes := toNat_of_isWordChar word
  rw [Bool.eq_false_iff]
  intro blank
  simp only [isBlank, Bool.or_eq_true, Bool.and_eq_true, decide_eq_true_eq, beq_iff_eq] at blank
  omega

/-! ### Trimming -/

theorem trimStart_append {blanks : List Char} (blank : ∀ c ∈ blanks, isBlank c) (s : List Char) :
    trimStart (blanks ++ s) = trimStart s :=
  List.dropWhile_append_of_pos blank

theorem trimEnd_append (s : List Char) {blanks : List Char} (blank : ∀ c ∈ blanks, isBlank c) :
    trimEnd (s ++ blanks) = trimEnd s := by
  have reversed : ∀ c ∈ blanks.reverse, isBlank c :=
    fun c member => blank c (List.mem_reverse.1 member)
  rw [trimEnd, List.reverse_append, List.dropWhile_append_of_pos reversed]
  rfl

theorem trim_append (s : List Char) {blanks : List Char} (blank : ∀ c ∈ blanks, isBlank c) :
    trim (s ++ blanks) = trim s := by
  rw [trim, trim, trimStart, trimStart, List.dropWhile_append]
  split
  next none =>
    have gone : blanks.dropWhile isBlank = [] := List.dropWhile_eq_nil_iff.2 blank
    rw [gone, List.isEmpty_iff.1 none]
  next => exact trimEnd_append _ blank

theorem trim_padded {before after : List Char} (blank_before : ∀ c ∈ before, isBlank c)
    (blank_after : ∀ c ∈ after, isBlank c) (s : List Char) : trim (before ++ s ++ after) = trim s := by
  rw [trim_append _ blank_after, trim, trimStart_append blank_before]
  rfl

theorem trim_of_blank {s : List Char} (blank : ∀ c ∈ s, isBlank c) : trim s = [] :=
  (trim_append [] blank).trans rfl

theorem exists_padding (s : List Char) :
    ∃ before after, (∀ c ∈ before, isBlank c) ∧ (∀ c ∈ after, isBlank c) ∧
      s = before ++ trim s ++ after := by
  refine ⟨s.takeWhile isBlank, (trimStart s).rtakeWhile isBlank,
    fun c member => List.mem_takeWhile_imp member,
    fun c member => List.mem_rtakeWhile_imp member, ?_⟩
  have back : trim s ++ (trimStart s).rtakeWhile isBlank = trimStart s :=
    List.rdropWhile_append_rtakeWhile ..
  rw [List.append_assoc, back]
  exact List.takeWhile_append_dropWhile.symm

theorem mem_of_mem_trim {s : List Char} {c : Char} (member : c ∈ trim s) : c ∈ s := by
  obtain ⟨before, after, -, -, same⟩ := exists_padding s
  rw [same]
  exact List.mem_append_left _ (List.mem_append_right _ member)

theorem trim_trim (s : List Char) : trim (trim s) = trim s := by
  obtain ⟨before, after, blank_before, blank_after, same⟩ := exists_padding s
  have padded := trim_padded blank_before blank_after (trim s)
  rw [← same] at padded
  exact padded.symm

theorem trim_of_visible {s : List Char} (visible : ∀ c ∈ s, isBlank c = false) : trim s = s := by
  obtain ⟨before, after, blank_before, blank_after, same⟩ := exists_padding s
  have none (blanks : List Char) (blank : ∀ c ∈ blanks, isBlank c) (inside : blanks ⊆ s) :
      blanks = [] := by
    rw [List.eq_nil_iff_forall_not_mem]
    intro c member
    have seen := visible c (inside member)
    rw [blank c member] at seen
    cases seen
  have inside_before : before ⊆ s := by
    rw [same, List.append_assoc]
    exact List.subset_append_left _ _
  have inside_after : after ⊆ s := by
    rw [same]
    exact List.subset_append_right _ _
  rw [none before blank_before inside_before, none after blank_after inside_after] at same
  simpa using same.symm

theorem trim_enclosed {first last : Char} (visible_first : isBlank first = false)
    (visible_last : isBlank last = false) (s : List Char) :
    trim (first :: s ++ [last]) = first :: s ++ [last] := by
  have start : trimStart (first :: s ++ [last]) = first :: s ++ [last] :=
    List.dropWhile_cons_of_neg (Bool.not_eq_true _ ▸ visible_first)
  rw [trim, start]
  exact List.rdropWhile_concat_neg isBlank (first :: s) last (Bool.not_eq_true _ ▸ visible_last)

/-! ### Lines -/

theorem trim_dropReturn (s : List Char) : trim (dropReturn s) = trim s := by
  rw [dropReturn]
  split
  next last =>
    obtain ⟨front, rfl⟩ := List.getLast?_eq_some_iff.1 last
    rw [List.dropLast_concat]
    exact (trim_append front (List.forall_mem_singleton.2 (by decide))).symm
  next => rfl

/-- Trimmed lines are trimmed pieces; only an empty last piece is no line. -/
theorem exists_linesOfPieces (parts : List (List Char)) :
    ∃ dropped, (dropped = [] ∨ dropped = [[]]) ∧
      ∃ kept, parts = kept ++ dropped ∧ (linesOfPieces parts).map trim = kept.map trim := by
  fun_induction linesOfPieces parts with
  | case1 => exact ⟨[], .inl rfl, [], rfl, rfl⟩
  | case2 last empty =>
    rw [List.isEmpty_iff.1 empty]
    exact ⟨[[]], .inr rfl, [], rfl, rfl⟩
  | case3 last visible => exact ⟨[], .inl rfl, [last], rfl, rfl⟩
  | case4 piece next rest ih =>
    obtain ⟨dropped, few, kept, split, same⟩ := ih
    refine ⟨dropped, few, piece :: kept, by rw [split]; rfl, ?_⟩
    rw [List.map_cons, List.map_cons, same, trim_dropReturn]

end Simultaneous.Text
