import Simultaneous.Script
import Simultaneous.Proofs.Text.Comment
import Simultaneous.Proofs.Text.Cut

/-!
Lines of scripts and their numbers. The characters of a text are marked with whether they belong to
a comment, and the marked text is cut at its line feeds, also at those inside comments. Main
statement: the lines of a script are these lines without what is marked, under their own numbers.
-/

namespace Simultaneous.Script

open Text Text.Comment

/-! ### Marked lines -/

def outside (line : List (Char × Bool)) : List Char := (line.filter (!·.2)).map Prod.fst

def markedLines (segments : List Segment) : List (List (Char × Bool)) :=
  (marked segments).splitOnP (·.1 == '\n')

theorem pieces_flatMap_kept (segments : List Segment) :
    pieces (· == '\n') (segments.flatMap Segment.kept) = (markedLines segments).map outside := by
  rw [flatMap_kept]
  exact pieces_map_filter (· == '\n') Prod.fst (!·.2) (marked segments)

theorem map_fst_markedLines (segments : List Segment) :
    (markedLines segments).map (List.map Prod.fst) =
      (segments.flatMap Segment.text).splitOn '\n' := by
  have of_chars := pieces_map_filter (· == '\n') id (fun _ => true) (segments.flatMap Segment.text)
  have of_marked := pieces_map_filter (· == '\n') Prod.fst (fun _ => true) (marked segments)
  simp only [Bool.true_or, List.filter_true, List.map_id_fun', List.map_id_fun, id_eq]
    at of_chars of_marked
  rw [map_fst_marked, of_chars] at of_marked
  exact of_marked.symm

/-! ### The lines of a script -/

def IsMarker (line : List Char) : Prop := line = endOfEquations ∨ line = endOfStarts

theorem exists_of_map_eq_ok {ε α β : Type} {f : α → β} {x : Except ε α} {b : β}
    (made : x.map f = .ok b) : ∃ a, x = .ok a ∧ f a = b := by
  cases x with
  | error e => cases made
  | ok a => exact ⟨a, rfl, Except.ok.inj made⟩

theorem lines_of_starts {lines : List (Nat × List Char)} {script : Script}
    (read : ofLines .starts lines = .ok script) : script.lines = [] := by
  induction lines generalizing script with
  | nil => cases read; rfl
  | cons first rest ih =>
    rw [ofLines] at read
    split at read
    · cases read; rfl
    split at read
    · exact ih read
    split at read
    next => cases read
    next =>
      obtain ⟨s, later, rfl⟩ := exists_of_map_eq_ok read
      exact (ih later : s.lines = [])

/-- The equations are all lines before the first marker line, with their numbers. -/
theorem listed_of_ofLines {lines : List (List Char)} {number : Nat} {script : Script}
    (read : ofLines .equations ((lines.zipIdx number).map Prod.swap) = .ok script) :
    ∃ listed rest, lines = listed ++ rest ∧ (∀ line ∈ listed, ¬IsMarker line) ∧
      (rest = [] ∨ ∃ marker later, rest = marker :: later ∧ IsMarker marker) ∧
      script.lines = (listed.zipIdx number).map fun (line, n) => (n, String.ofList line) := by
  induction lines generalizing number script with
  | nil =>
    cases read
    exact ⟨[], [], rfl, fun _ => nofun, .inl rfl, rfl⟩
  | cons line lines ih =>
    rw [List.zipIdx_cons, List.map_cons, Prod.swap_prod_mk, ofLines] at read
    split at read
    next marks =>
      exact ⟨[], line :: lines, rfl, fun _ => nofun, .inr ⟨line, lines, rfl, .inl marks⟩,
        lines_of_starts read⟩
    split at read
    next marks =>
      cases read
      exact ⟨[], line :: lines, rfl, fun _ => nofun, .inr ⟨line, lines, rfl, .inr marks⟩, rfl⟩
    next other_equations other_starts =>
      obtain ⟨s, later, rfl⟩ := exists_of_map_eq_ok read
      obtain ⟨listed, rest, rfl, apart, ends, same⟩ := ih later
      have other : ¬IsMarker line := not_or.2 ⟨other_equations, other_starts⟩
      refine ⟨line :: listed, rest, rfl, List.forall_mem_cons.2 ⟨other, apart⟩, ends, ?_⟩
      rw [addLine, same]
      rfl

theorem numbered_eq (s : List Char) :
    numbered s = (((Text.lines s).map trim).zipIdx 1).map Prod.swap := by
  rw [numbered, List.zipIdx_map, List.map_map]
  rfl

/-- A script lists marked lines without what is marked, from line 1 on and up to the first marker
line or to the end, where a last line that is empty counts as none. -/
def Lists (script : Script) (lines : List (List (Char × Bool))) : Prop :=
  ∃ listed rest, lines = listed ++ rest ∧ (∀ line ∈ listed, ¬IsMarker (trim (outside line))) ∧
    (rest = [] ∨ (∃ last, rest = [last] ∧ outside last = []) ∨
      ∃ marker later, rest = marker :: later ∧ IsMarker (trim (outside marker))) ∧
    script.lines = (listed.zipIdx 1).map fun (line, n) => (n, String.ofList (trim (outside line)))

theorem lists_of_ofLines {segments : List Segment} {script : Script}
    (read : ofLines .equations (numbered (segments.flatMap Segment.kept)) = .ok script) :
    Lists script (markedLines segments) := by
  rw [numbered_eq, Text.lines, pieces_flatMap_kept] at read
  obtain ⟨dropped, few, kept, split, same⟩ :=
    exists_linesOfPieces ((markedLines segments).map outside)
  rw [same] at read
  obtain ⟨listed, rest, split_kept, apart, ends, lines⟩ := listed_of_ofLines read
  -- both splits are those of the marked lines
  obtain ⟨front, last, split_marked, rfl, rfl⟩ := List.map_eq_append_iff.1 split
  rw [List.map_map] at split_kept
  obtain ⟨before, after, rfl, rfl, rfl⟩ := List.map_eq_append_iff.1 split_kept
  refine ⟨before, after ++ last, by rw [split_marked, List.append_assoc],
    fun line member => apart _ (List.mem_map_of_mem member), ?_, ?_⟩
  · obtain none | ⟨marker, later, first, marks⟩ := ends
    · rw [List.map_eq_nil_iff.1 none, List.nil_append]
      obtain none | empty := few
      · exact .inl (List.map_eq_nil_iff.1 none)
      · obtain ⟨line, rfl, visible⟩ := List.map_eq_singleton_iff.1 empty
        exact .inr (.inl ⟨line, rfl, visible⟩)
    · obtain ⟨line, lines, rfl, rfl, -⟩ := List.map_eq_cons_iff.1 first
      exact .inr (.inr ⟨line, lines ++ last, rfl, marks⟩)
  · rw [lines, List.zipIdx_map, List.map_map]
    rfl

/-- A text has just one reading as segments. Its comments can be taken out unless one is not closed,
and then the error is the line of its opener; what is left are the characters outside comments and
all line feeds. The lines of its script are its lines without comments and without blanks at their
ends, each under its number in the text, up to the first marker line. -/
theorem lines_keep_their_numbers (text : String) :
    ∃ segments, Reads text.toList segments ∧
      (∀ other, Reads text.toList other → other = segments) ∧
      (marked segments).map Prod.fst = text.toList ∧
      (markedLines segments).map (List.map Prod.fst) = text.toList.splitOn '\n' ∧
      (∀ plain, stripped text = .ok plain ↔ Closed segments ∧
        plain.toList = ((marked segments).filter fun p => !p.2 || p.1 == '\n').map Prod.fst) ∧
      (∀ line, stripped text = .error line ↔
        ∃ before rest, segments = before ++ [.unclosed rest] ∧
          line = 1 + (before.flatMap Segment.text).count '\n') ∧
      ∀ script, ofText text = .ok script → Lists script (markedLines segments) := by
  obtain ⟨segments, reads⟩ := exists_reads text.toList
  refine ⟨segments, reads, fun other => reads.unique, ?_, ?_, fun plain => ?_, fun line => ?_,
    fun script read => ?_⟩
  · rw [map_fst_marked, reads.text_eq]
  · rw [map_fst_markedLines, reads.text_eq]
  · rw [stripped_eq_ok_iff, reads.strip_eq_ok_iff, flatMap_kept]
  · rw [stripped_eq_error_iff, reads.strip_eq_error_iff]
  · rw [ofText] at read
    split at read
    next => cases read
    next plain ok =>
      obtain ⟨-, rfl⟩ := reads.strip_eq_ok_iff.1 ok
      exact lists_of_ofLines read

def commented : String :=
  "/* a\nb */ x = 1\ny /*/ c */ = 2 /* d */ /* e\n*/\n@$@%@EndOfInitialVariableValueData@$@%@\nz"

theorem ofText_commented :
    ofText commented = .ok ⟨[(1, ""), (2, "x = 1"), (3, "y  = 2"), (4, "")], []⟩ := by
  decide +kernel

theorem commented_lines_keep_their_numbers :
    ∃ segments, Reads commented.toList segments ∧ Closed segments ∧
      Lists ⟨[(1, ""), (2, "x = 1"), (3, "y  = 2"), (4, "")], []⟩ (markedLines segments) := by
  obtain ⟨segments, reads, -, -, -, taken, -, lists⟩ := lines_keep_their_numbers commented
  have plain : stripped commented =
      .ok "\n x = 1\ny  = 2  \n\n@$@%@EndOfInitialVariableValueData@$@%@\nz" := by decide +kernel
  exact ⟨segments, reads, ((taken _).1 plain).1, lists _ ofText_commented⟩

end Simultaneous.Script
