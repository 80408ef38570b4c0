import Mathlib.Data.List.Basic
import Simultaneous.Text.Comment

/-!
Texts with comments, from left to right: characters outside comments, comments from an opener to the
first closer after it, and perhaps an opener without a closer, which takes the rest of the text.
Every text is read in this way and in no other. Main statements: stripping keeps the characters
outside comments and all line feeds, and it fails just for an opener without a closer.
-/

namespace Simultaneous.Text.Comment

def opener : List Char := ['/', '*']

def closer : List Char := ['*', '/']

/-! ### The first closer -/

theorem closer_prefix_iff {c d : Char} {s : List Char} :
    closer <+: c :: d :: s ↔ c = '*' ∧ d = '/' := by
  simp [closer, List.cons_prefix_cons, eq_comm]

theorem split_of_cutAtCloser? {s body after : List Char}
    (cut : cutAtCloser? s = some (body, after)) :
    ¬closer <:+: body ∧ s = body ++ (closer ++ after) := by
  fun_induction cutAtCloser? s generalizing body with
  | case1 => cases cut
  | case2 => cases cut
  | case3 c d rest mark =>
    obtain ⟨rfl, rfl⟩ := mark
    cases cut
    exact ⟨by decide, rfl⟩
  | case4 c d rest other ih =>
    obtain ⟨⟨inside, tail⟩, found, same⟩ := Option.map_eq_some_iff.1 cut
    cases same
    obtain ⟨none, split⟩ := ih found
    refine ⟨?_, by rw [split]; rfl⟩
    rw [List.infix_cons_iff]
    rintro (start | later)
    · cases inside with
      | nil => exact absurd start (by simp [closer])
      | cons e more =>
        rw [(List.cons.inj split).1] at other
        exact other (closer_prefix_iff.1 start)
    · exact none later

theorem cutAtCloser?_append {body : List Char} (none : ¬closer <:+: body) (after : List Char) :
    cutAtCloser? (body ++ (closer ++ after)) = some (body, after) := by
  induction body with
  | nil => rfl
  | cons c more ih =>
    obtain ⟨start, later⟩ := not_or.1 (mt List.infix_cons_iff.2 none)
    cases more with
    | nil =>
      change cutAtCloser? (c :: '*' :: '/' :: after) = _
      rw [cutAtCloser?, if_neg (by simp)]
      rfl
    | cons d rest =>
      have other : ¬(c = '*' ∧ d = '/') := mt closer_prefix_iff.2 start
      rw [List.cons_append, List.cons_append, cutAtCloser?, if_neg other]
      rw [List.cons_append] at ih
      rw [ih later]
      rfl

theorem cutAtCloser?_eq_none_iff {s : List Char} : cutAtCloser? s = none ↔ ¬closer <:+: s := by
  constructor
  · intro none
    fun_induction cutAtCloser? s with
    | case1 => decide
    | case2 c => simp [closer, List.infix_cons_iff]
    | case3 c d rest mark => cases none
    | case4 c d rest other ih =>
      rw [List.infix_cons_iff, closer_prefix_iff, not_or]
      exact ⟨other, ih (Option.map_eq_none_iff.1 none)⟩
  · intro absent
    cases cut : cutAtCloser? s with
    | none => rfl
    | some parts =>
      have split := (split_of_cutAtCloser? cut).2
      exact absurd ⟨parts.1, parts.2, by rw [List.append_assoc]; exact split.symm⟩ absent

/-! ### Segments -/

inductive Segment where
  /-- a character outside comments -/
  | plain (c : Char)
  /-- a comment with its body -/
  | comment (body : List Char)
  /-- an opener without a closer, and the rest of the text -/
  | unclosed (rest : List Char)

def Segment.text : Segment → List Char
  | plain c => [c]
  | comment body => opener ++ (body ++ closer)
  | unclosed rest => opener ++ rest

/-- The segments of a text: a comment starts at an opener outside comments and ends with the first
closer after the opener. -/
inductive Reads : List Char → List Segment → Prop where
  | nil : Reads [] []
  | plain {c : Char} {s : List Char} {segments : List Segment} : ¬opener <+: c :: s →
      Reads s segments → Reads (c :: s) (.plain c :: segments)
  | comment {body s : List Char} {segments : List Segment} : ¬closer <:+: body →
      Reads s segments → Reads (opener ++ (body ++ (closer ++ s))) (.comment body :: segments)
  | unclosed {rest : List Char} : ¬closer <:+: rest → Reads (opener ++ rest) [.unclosed rest]

theorem Reads.text_eq {s : List Char} {segments : List Segment} (reads : Reads s segments) :
    segments.flatMap Segment.text = s := by
  induction reads with
  | nil => rfl
  | plain _ _ ih => rw [List.flatMap_cons, ih]; rfl
  | comment _ _ ih => rw [List.flatMap_cons, ih, Segment.text, List.append_assoc, List.append_assoc]
  | unclosed _ => rw [List.flatMap_singleton]; rfl

theorem exists_reads (s : List Char) : ∃ segments, Reads s segments := by
  induction length : s.length using Nat.strongRecOn generalizing s with
  | ind n ih =>
    subst length
    by_cases opens : opener <+: s
    · obtain ⟨rest, rfl⟩ := opens
      cases cut : cutAtCloser? rest with
      | none => exact ⟨_, .unclosed (cutAtCloser?_eq_none_iff.1 cut)⟩
      | some parts =>
        obtain ⟨none, split⟩ := split_of_cutAtCloser? cut
        obtain ⟨segments, reads⟩ := ih parts.2.length
          (by rw [split]; simp only [List.length_append, opener, List.length_cons]; omega) _ rfl
        rw [split]
        exact ⟨_, .comment none reads⟩
    · cases s with
      | nil => exact ⟨_, .nil⟩
      | cons c rest =>
        obtain ⟨segments, reads⟩ := ih rest.length (Nat.lt_succ_self _) rest rfl
        exact ⟨_, .plain opens reads⟩

theorem Reads.unique {s : List Char} {segments other : List Segment} (reads : Reads s segments)
    (reads_other : Reads s other) : other = segments := by
  induction reads generalizing other with
  | nil =>
    cases reads_other with
    | nil => rfl
  | @plain c s _ apart later ih =>
    cases reads_other with
    | plain _ later_other => rw [ih later_other]
    | comment _ _ => exact absurd (List.prefix_append opener _) apart
    | unclosed _ => exact absurd (List.prefix_append opener _) apart
  | @comment body s _ none later ih =>
    generalize same : opener ++ (body ++ (closer ++ s)) = text at reads_other
    cases reads_other with
    | nil => cases same
    | plain apart _ => exact absurd ⟨_, same⟩ apart
    | @comment body_other s_other _ none_other later_other =>
      have cut := cutAtCloser?_append none s
      rw [List.append_cancel_left same, cutAtCloser?_append none_other, Option.some.injEq,
        Prod.mk.injEq] at cut
      obtain ⟨rfl, rfl⟩ := cut
      rw [ih later_other]
    | @unclosed rest absent =>
      have cut := cutAtCloser?_append none s
      rw [List.append_cancel_left same, cutAtCloser?_eq_none_iff.2 absent] at cut
      cases cut
  | @unclosed rest absent =>
    generalize same : opener ++ rest = text at reads_other
    cases reads_other with
    | nil => cases same
    | plain apart _ => exact absurd ⟨_, same⟩ apart
    | @comment body s _ none later =>
      have cut := cutAtCloser?_append none s
      rw [← List.append_cancel_left same, cutAtCloser?_eq_none_iff.2 absent] at cut
      cases cut
    | unclosed _ => rw [List.append_cancel_left same]

/-! ### Stripping -/

def Segment.kept : Segment → List Char
  | plain c => [c]
  | comment body => feeds body
  | unclosed rest => feeds rest

theorem length_feeds (s : List Char) : (feeds s).length = s.count '\n' :=
  List.countP_eq_length_filter.symm

theorem strip_plain {c : Char} {s : List Char} (apart : ¬opener <+: c :: s) (line : Nat) :
    strip line (c :: s) = (strip (line + [c].count '\n') s).map (c :: ·) := by
  have number : (if c = '\n' then line + 1 else line) = line + [c].count '\n' := by
    by_cases feed : c = '\n' <;> simp [feed]
  cases s with
  | nil => simp [strip, Except.map]
  | cons d rest =>
    have other : ¬(c = '/' ∧ d = '*') := by
      rintro ⟨rfl, rfl⟩
      exact apart (List.prefix_append opener rest)
    rw [strip, if_neg other, number]

theorem strip_comment {body : List Char} (none : ¬closer <:+: body) (s : List Char) (line : Nat) :
    strip line (opener ++ (body ++ (closer ++ s))) =
      (strip (line + body.count '\n') s).map (feeds body ++ ·) := by
  have cut := cutAtCloser?_append none s
  rw [opener, List.cons_append, List.cons_append, List.nil_append, strip, if_pos ⟨rfl, rfl⟩]
  split
  next missing =>
    rw [cut] at missing
    cases missing
  next found =>
    rw [cut] at found
    cases found
    rw [length_feeds]

theorem strip_unclosed {rest : List Char} (absent : ¬closer <:+: rest) (line : Nat) :
    strip line (opener ++ rest) = .error line := by
  have cut := cutAtCloser?_eq_none_iff.2 absent
  rw [opener, List.cons_append, List.cons_append, List.nil_append, strip, if_pos ⟨rfl, rfl⟩]
  split
  next => rfl
  next found =>
    rw [cut] at found
    cases found

def Closed (segments : List Segment) : Prop := ∀ rest, .unclosed rest ∉ segments

theorem Closed.tail {segment : Segment} {segments : List Segment}
    (closed : Closed (segment :: segments)) : Closed segments :=
  fun rest member => closed rest (List.mem_cons_of_mem segment member)

theorem Reads.strip_of_closed {s : List Char} {segments : List Segment} (reads : Reads s segments)
    (closed : Closed segments) (line : Nat) :
    strip line s = .ok (segments.flatMap Segment.kept) := by
  induction reads generalizing line with
  | nil => rw [strip]; rfl
  | plain apart _ ih =>
    rw [strip_plain apart, ih closed.tail]
    rfl
  | comment none _ ih =>
    rw [strip_comment none, ih closed.tail]
    rfl
  | @unclosed rest _ => exact absurd List.mem_cons_self (closed rest)

/-- The error is the line of the opener: one more for each line feed of the text before it. -/
theorem Reads.strip_of_unclosed {s : List Char} {segments before : List Segment} {rest : List Char}
    (reads : Reads s segments) (last : segments = before ++ [.unclosed rest]) (line : Nat) :
    strip line s = .error (line + (before.flatMap Segment.text).count '\n') := by
  induction reads generalizing before line with
  | nil => cases before <;> cases last
  | @plain c s _ apart _ ih =>
    cases before with
    | nil => cases last
    | cons _ before =>
      obtain ⟨rfl, later⟩ := List.cons.inj last
      rw [strip_plain apart, ih later, List.flatMap_cons, List.count_append, Segment.text,
        ← Nat.add_assoc]
      rfl
  | @comment body s _ none _ ih =>
    cases before with
    | nil => cases last
    | cons _ before =>
      obtain ⟨rfl, later⟩ := List.cons.inj last
      have feeds_of_marks : (opener ++ (body ++ closer)).count '\n' = body.count '\n' := by
        simp [opener, closer]
      rw [strip_comment none, ih later, List.flatMap_cons, List.count_append, Segment.text,
        feeds_of_marks, ← Nat.add_assoc]
      rfl
  | @unclosed tail absent =>
    cases before with
    | nil => exact strip_unclosed absent line
    | cons _ before =>
      cases before <;> cases (List.cons.inj last).2

theorem Reads.last_of_mem {s : List Char} {segments : List Segment} (reads : Reads s segments)
    {rest : List Char} (member : .unclosed rest ∈ segments) :
    ∃ before, segments = before ++ [.unclosed rest] := by
  induction reads with
  | nil => cases member
  | @plain c _ _ _ _ ih =>
    obtain ⟨before, rfl⟩ := ih (List.mem_of_ne_of_mem Segment.noConfusion member)
    exact ⟨.plain c :: before, rfl⟩
  | @comment body _ _ _ _ ih =>
    obtain ⟨before, rfl⟩ := ih (List.mem_of_ne_of_mem Segment.noConfusion member)
    exact ⟨.comment body :: before, rfl⟩
  | @unclosed last _ =>
    rw [List.mem_singleton.1 member]
    exact ⟨[], rfl⟩

theorem Reads.strip_eq_ok_iff {s : List Char} {segments : List Segment} (reads : Reads s segments)
    {line : Nat} {plain : List Char} :
    strip line s = .ok plain ↔ Closed segments ∧ plain = segments.flatMap Segment.kept := by
  constructor
  · intro stripped
    have closed : Closed segments := by
      intro rest member
      obtain ⟨before, last⟩ := reads.last_of_mem member
      rw [reads.strip_of_unclosed last] at stripped
      cases stripped
    rw [reads.strip_of_closed closed] at stripped
    exact ⟨closed, (Except.ok.inj stripped).symm⟩
  · rintro ⟨closed, rfl⟩
    exact reads.strip_of_closed closed line

theorem Reads.strip_eq_error_iff {s : List Char} {segments : List Segment}
    (reads : Reads s segments) {line opened : Nat} :
    strip line s = .error opened ↔ ∃ before rest, segments = before ++ [.unclosed rest] ∧
      opened = line + (before.flatMap Segment.text).count '\n' := by
  constructor
  · intro failed
    by_cases closed : Closed segments
    · rw [reads.strip_of_closed closed] at failed
      cases failed
    · obtain ⟨rest, member⟩ : ∃ rest, .unclosed rest ∈ segments := by
        simpa only [Closed, not_forall, not_not] using closed
      obtain ⟨before, last⟩ := reads.last_of_mem member
      rw [reads.strip_of_unclosed last] at failed
      exact ⟨before, rest, last, (Except.error.inj failed).symm⟩
  · rintro ⟨before, rest, last, rfl⟩
    exact reads.strip_of_unclosed last line

theorem stripped_eq_ok_iff {text plain : String} :
    stripped text = .ok plain ↔ strip 1 text.toList = .ok plain.toList := by
  rw [stripped]
  cases strip 1 text.toList with
  | error line => simp [Except.map]
  | ok s =>
    rw [Except.map, Except.ok.injEq, Except.ok.injEq]
    constructor
    · rintro rfl
      exact String.toList_ofList.symm
    · rintro rfl
      exact String.ofList_toList

theorem stripped_eq_error_iff {text : String} {line : Nat} :
    stripped text = .error line ↔ strip 1 text.toList = .error line := by
  rw [stripped]
  cases strip 1 text.toList <;> simp [Except.map]

/-! ### Marked characters -/

def Segment.marked : Segment → List (Char × Bool)
  | plain c => [(c, false)]
  | comment body => (opener ++ (body ++ closer)).map (·, true)
  | unclosed rest => (opener ++ rest).map (·, true)

theorem Segment.map_fst_marked (segment : Segment) : segment.marked.map Prod.fst = segment.text := by
  cases segment <;> simp [marked, text, Function.comp_def]

/-- What is left are the characters outside comments and all line feeds, in their order. -/
theorem Segment.kept_eq (segment : Segment) :
    segment.kept = (segment.marked.filter fun p => !p.2 || p.1 == '\n').map Prod.fst := by
  cases segment <;>
    simp [marked, kept, feeds, opener, closer, List.filter_map, Function.comp_def] <;> rfl

def marked (segments : List Segment) : List (Char × Bool) := segments.flatMap Segment.marked

theorem map_fst_marked (segments : List Segment) :
    (marked segments).map Prod.fst = segments.flatMap Segment.text := by
  rw [marked, List.map_flatMap]
  exact List.flatMap_congr fun segment _ => segment.map_fst_marked

theorem flatMap_kept (segments : List Segment) :
    segments.flatMap Segment.kept =
      ((marked segments).filter fun p => !p.2 || p.1 == '\n').map Prod.fst := by
  rw [marked, List.filter_flatMap, List.map_flatMap]
  exact List.flatMap_congr fun segment _ => segment.kept_eq

end Simultaneous.Text.Comment
