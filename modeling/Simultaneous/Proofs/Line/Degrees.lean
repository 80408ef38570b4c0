import Simultaneous.Proofs.Line.Joined
import Simultaneous.Proofs.Line.Wrapped

/-!
A line in either angle mode. The two passes read the same characters, know the same last word and the
same open brackets up to their kind, so they refuse a line alike; and what they write differs only in
the factors of trigonometric calls and the closing brackets of these. The token pass reads the same
tokens between brackets, and it writes a trigonometric call where it reads one.
-/

namespace Simultaneous

def Bracket.inRadians : Bracket → Bracket
  | plain => plain
  | call | degrees => call

/-- The round brackets of an opener, the innermost first, flagged if it is that of a factor. -/
def Bracket.flags : Bracket → List Bool
  | plain | call => [false]
  | degrees => [true, false]

namespace Line

open Text
open Formula (constantNames)

/-! ### The open brackets -/

/-- The round brackets that are open, the innermost first; that of the equality sign is among them
once the sign was read, behind those that were opened after it. -/
inductive Opens : (equality : Bool) → OpenBrackets → List Bool → Prop
  | left (brackets : OpenBrackets) : Opens false brackets (brackets.flatMap Bracket.flags)
  | right (inner outer : OpenBrackets) : Opens true (inner ++ outer)
      (inner.flatMap Bracket.flags ++ false :: outer.flatMap Bracket.flags)

namespace Opens

variable {equality : Bool} {brackets : OpenBrackets} {open_ : List Bool} {kind : Bracket}

theorem push (opens : Opens equality brackets open_) (kind : Bracket) :
    Opens equality (kind :: brackets) (kind.flags ++ open_) := by
  cases opens with
  | left => exact .left (kind :: brackets)
  | right inner outer =>
    rw [← List.append_assoc]
    exact .right (kind :: inner) outer

theorem sign (opens : Opens false brackets open_) : Opens true brackets (false :: open_) := by
  cases opens with
  | left => exact .right [] brackets

/-- A closer closes the brackets of its opener, or that of the equality sign and all but the outermost
of its opener, which is no factor's. -/
theorem pop (opens : Opens equality (kind :: brackets) open_) :
    ∃ rest, Opens equality brackets rest ∧ ∀ calls word x y, Wraps calls [] rest x y →
      Wraps calls word open_ (kind.closer.toList ++ x) (kind.inRadians.closer.toList ++ y) := by
  generalize own : kind :: brackets = all at opens
  cases opens with
  | left =>
    subst own
    refine ⟨_, .left brackets, fun calls word x y wraps => ?_⟩
    cases kind with
    | plain | call => exact .closer wraps
    | degrees => exact .pair true wraps
  | right inner outer =>
    cases inner with
    | nil =>
      obtain rfl : kind :: brackets = outer := own
      refine ⟨_, .right [] brackets, fun calls word x y wraps => ?_⟩
      cases kind with
      | plain | call => exact .closer wraps
      | degrees => exact .pair false wraps
    | cons first inner =>
      obtain ⟨rfl, rfl⟩ := List.cons.inj own
      refine ⟨_, .right inner outer, fun calls word x y wraps => ?_⟩
      cases kind with
      | plain | call => exact .closer wraps
      | degrees => exact .pair true wraps

theorem eq_singleton (opens : Opens true [] open_) : open_ = [false] := by
  generalize none : ([] : OpenBrackets) = all at opens
  cases opens with
  | right inner outer =>
    obtain ⟨rfl, rfl⟩ := List.append_eq_nil_iff.1 none.symm
    rfl

end Opens

/-! ### The character pass -/

theorem Pass.lastWord_eq (p : Pass) : p.lastWord = p.written.reverse.foldl extend [] := by
  rw [foldl_extend_nil, endWord, List.reverse_reverse, lastWord]

theorem Pass.lastWord_write (p : Pass) (s : String) :
    (p.write s).lastWord = s.toList.foldl extend p.lastWord := by
  rw [lastWord_eq, lastWord_eq, write, List.reverse_append, List.reverse_reverse, List.foldl_append]

structure Abreast (open_ : List Bool) (long short : Pass) : Prop where
  text : ∀ x y, Wraps trigonometric long.lastWord open_ x y →
    Wraps trigonometric [] [] (long.written.reverse ++ x) (short.written.reverse ++ y)
  word : short.lastWord = long.lastWord
  brackets : short.brackets = long.brackets.map Bracket.inRadians
  equality : short.equality = long.equality
  previous : short.previous = long.previous
  opens : Opens long.equality long.brackets open_

namespace Abreast

variable {open_ : List Bool} {long short : Pass} {c : Char}

theorem start : Abreast [] .start .start :=
  ⟨fun _ _ wraps => wraps, rfl, rfl, rfl, rfl, .left []⟩

theorem read (abreast : Abreast open_ long short) (c : Char) :
    Abreast open_ { long with previous := some c } { short with previous := some c } :=
  ⟨abreast.text, abreast.word, abreast.brackets, abreast.equality, rfl, abreast.opens⟩

theorem write (abreast : Abreast open_ long short) {more : List Bool} {s t : String} {p q : Pass}
    (text : ∀ x y, Wraps trigonometric (s.toList.foldl extend long.lastWord) more x y →
      Wraps trigonometric long.lastWord open_ (s.toList ++ x) (t.toList ++ y))
    (word : t.toList.foldl extend long.lastWord = s.toList.foldl extend long.lastWord)
    (long_eq : p.written = (long.write s).written) (short_eq : q.written = (short.write t).written)
    (brackets : q.brackets = p.brackets.map Bracket.inRadians) (equality : q.equality = p.equality)
    (previous : q.previous = p.previous) (opens : Opens p.equality p.brackets more) :
    Abreast more p q := by
  have long_word : p.lastWord = s.toList.foldl extend long.lastWord := by
    rw [← Pass.lastWord_write, Pass.lastWord, long_eq, Pass.lastWord]
  have short_word : q.lastWord = t.toList.foldl extend long.lastWord := by
    rw [← abreast.word, ← Pass.lastWord_write, Pass.lastWord, short_eq, Pass.lastWord]
  refine ⟨fun x y wraps => ?_, by rw [short_word, word, long_word], brackets, equality, previous,
    opens⟩
  rw [long_word] at wraps
  have later := abreast.text _ _ (text x y wraps)
  simpa [long_eq, short_eq, Pass.write] using later

theorem write_plain (abreast : Abreast open_ long short) (s : String)
    (plain : ∀ c ∈ s.toList, c ∉ ['(', ')', 'D']) :
    Abreast open_ (long.write s) (short.write s) :=
  abreast.write (fun _ _ => Wraps.append plain) rfl rfl rfl abreast.brackets abreast.equality
    abreast.previous abreast.opens

theorem multiplies_eq (abreast : Abreast open_ long short) :
    (short.previous.any isCloser || short.endsWithNumber) =
      (long.previous.any isCloser || long.endsWithNumber) := by
  rw [abreast.previous, Pass.endsWithNumber, Pass.endsWithNumber, abreast.word]

theorem push (abreast : Abreast open_ long short) :
    let kind := long.bracketKind .degrees
    Abreast (kind.flags ++ open_) (long.opened kind) (short.opened (short.bracketKind .radians)) := by
  intro kind
  have function : ∀ w ∈ trigonometric, canonicalFunction? w ≠ none := by decide
  have kinds : short.bracketKind .radians = kind.inRadians ∧
      (kind = .degrees ↔ String.ofList long.lastWord ∈ trigonometric) := by
    unfold kind Pass.bracketKind
    rw [abreast.word]
    simp only [reduceCtorEq, false_and, if_false, true_and, Option.isNone_iff_eq_none]
    split_ifs with no_function call <;> simp_all [Bracket.inRadians]
    exact fun call => function _ call no_function
  have no_word (b : Bracket) : b.opener.toList.foldl extend long.lastWord = [] := by
    have ends : b.opener.toList.getLast? = some '(' := by cases b <;> rfl
    exact foldl_extend_of_stop ends (by decide)
  obtain ⟨same, degrees⟩ := kinds
  rw [same]
  refine abreast.write (s := kind.opener) (t := kind.inRadians.opener) (fun x y wraps => ?_)
    ((no_word _).trans (no_word _).symm) rfl rfl ?_ abreast.equality
    abreast.previous (abreast.opens.push kind)
  · rw [no_word] at wraps
    cases which : kind with
    | plain | call =>
      rw [which] at wraps
      exact .opener (fun call => absurd (degrees.2 call) (by simp [which])) wraps
    | degrees =>
      rw [which] at wraps
      exact .wrapped (degrees.1 which) wraps
  · show kind.inRadians :: short.brackets = _
    rw [abreast.brackets]
    rfl

theorem openBracket (abreast : Abreast open_ long short) :
    ∃ more, Abreast more (openBracket .degrees long) (openBracket .radians short) := by
  rw [openBracket_eq, openBracket_eq, abreast.multiplies_eq]
  split
  next => exact ⟨_, (abreast.write_plain "*" (by simp)).push⟩
  next => exact ⟨_, abreast.push⟩

end Abreast

def BothRead (long short : Except LineError Pass) : Prop :=
  (∃ e, long = .error e ∧ short = .error e) ∨
    ∃ open_ p q, long = .ok p ∧ short = .ok q ∧ Abreast open_ p q

namespace BothRead

theorem error (e : LineError) : BothRead (.error e) (.error e) := .inl ⟨e, rfl, rfl⟩

theorem ok {open_ : List Bool} {p q : Pass} (abreast : Abreast open_ p q) :
    BothRead (.ok p) (.ok q) := .inr ⟨open_, p, q, rfl, rfl, abreast⟩

end BothRead

namespace Abreast

variable {open_ : List Bool} {long short : Pass} {c : Char}

theorem fault?_eq (abreast : Abreast open_ long short) (c : Char) :
    fault? short c = fault? long c := by
  unfold fault?
  rw [abreast.previous, abreast.equality]

theorem emit (abreast : Abreast open_ long short) (fine : fault? long c = none)
    (small : c ≠ 'D') : BothRead (emit .degrees long c) (emit .radians short c) := by
  unfold Line.emit
  split
  next sign =>
    have unseen : long.equality = false := (fault?_eq_none.1 fine).2.2.1 sign
    have opens : Opens true long.brackets (false :: open_) := (unseen ▸ abreast.opens).sign
    refine .ok (abreast.write (s := "-1*(") (t := "-1*(") (fun x y wraps => ?_) rfl rfl rfl
      abreast.brackets rfl abreast.previous opens)
    refine Wraps.append (s := "-1*".toList) (by simp) (.opener ?_ wraps)
    have no_word : "-1*".toList.foldl extend long.lastWord = [] :=
      foldl_extend_of_stop (c := '*') rfl (by decide)
    rw [no_word]
    decide
  next =>
    split
    next => exact .ok (abreast.write_plain "Gg" (by simp))
    next =>
      split
      next => exact .ok (abreast.write_plain "." (by simp))
      next =>
        split
        next =>
          obtain ⟨more, next⟩ := abreast.openBracket
          exact .ok next
        next no_opener =>
          split
          next =>
            rw [abreast.brackets]
            cases own : long.brackets with
            | nil => exact .error _
            | cons kind rest =>
              obtain ⟨more, opens, closes⟩ := (own ▸ abreast.opens).pop
              have no_word (b : Bracket) : b.closer.toList.foldl extend long.lastWord = [] := by
                have ends : b.closer.toList.getLast? = some ')' := by cases b <;> rfl
                exact foldl_extend_of_stop ends (by decide)
              refine .ok (abreast.write (s := kind.closer) (t := kind.inRadians.closer)
                (fun x y wraps => closes _ _ x y (no_word kind ▸ wraps))
                ((no_word _).trans (no_word _).symm) rfl rfl rfl abreast.equality
                abreast.previous opens)
          next no_closer =>
            refine .ok (abreast.write_plain _ ?_)
            simp only [isOpener, isCloser, Bool.or_eq_true, beq_iff_eq, not_or] at no_opener no_closer
            simp [no_opener, no_closer, small]

theorem step (abreast : Abreast open_ long short) (raw : Char) :
    BothRead (step .degrees long raw) (step .radians short raw) := by
  have small : raw.toLower ≠ 'D' := by
    intro upper
    have low := raw.isUpper_toLower_eq_false
    rw [upper] at low
    cases low
  unfold Line.step
  simp only [abreast.fault?_eq]
  split
  next => exact .error _
  next =>
    split
    next => exact .ok abreast
    next =>
      cases fine : fault? long raw.toLower with
      | some e => exact .error e
      | none =>
        obtain ⟨e, failed, failed'⟩ | ⟨more, p, q, emitted, emitted', next⟩ :=
          abreast.emit fine small
        · rw [failed, failed']
          exact .error e
        · rw [emitted, emitted']
          exact .ok (next.read raw.toLower)

theorem run (abreast : Abreast open_ long short) (line : List Char) :
    BothRead (run .degrees long line) (run .radians short line) := by
  induction line generalizing open_ long short with
  | nil => exact .ok abreast
  | cons c rest ih =>
    rw [Line.run, Line.run]
    obtain ⟨e, failed, failed'⟩ | ⟨more, p, q, stepped, stepped', next⟩ := abreast.step c
    · rw [failed, failed']
      exact .error e
    · rw [stepped, stepped']
      exact ih next

theorem finish (abreast : Abreast open_ long short) (line : List Char) :
    (∃ e, long.finish line = .error e ∧ short.finish line = .error e) ∨
      (long.finish line = .ok none ∧ short.finish line = .ok none) ∨
      ∃ x y, long.finish line = .ok (some x) ∧ short.finish line = .ok (some y) ∧
        Wraps trigonometric [] [] x y := by
  have balanced : short.brackets.isBalanced = long.brackets.isBalanced := by
    rw [abreast.brackets, OpenBrackets.isBalanced, OpenBrackets.isBalanced, List.isEmpty_map]
  unfold Pass.finish
  rw [abreast.previous, balanced, abreast.equality]
  split
  next => exact .inr (.inl ⟨rfl, rfl⟩)
  next =>
    split
    next => exact .inl ⟨_, rfl, rfl⟩
    next =>
      split
      next => exact .inl ⟨_, rfl, rfl⟩
      next closed =>
        split
        next => exact .inl ⟨_, rfl, rfl⟩
        next seen =>
          refine .inr (.inr ⟨_, _, rfl, rfl, ?_⟩)
          have none_open : long.brackets = [] := by simpa [OpenBrackets.isBalanced] using closed
          have sign : long.equality = true := by simpa using seen
          have opens := abreast.opens
          rw [none_open, sign] at opens
          have last := abreast.text [')'] [')'] (opens.eq_singleton ▸ .closer .nil)
          simpa [Pass.write] using last

end Abreast

/-- A line is refused in both modes for the same fault or is blank in both, or its texts differ in
factors only. -/
theorem normal_modes (line : List Char) :
    (∃ e, normal .degrees line = .error e ∧ normal .radians line = .error e) ∨
      (normal .degrees line = .ok none ∧ normal .radians line = .ok none) ∨
      ∃ x y, normal .degrees line = .ok (some x) ∧ normal .radians line = .ok (some y) ∧
        Wraps trigonometric [] [] x y := by
  unfold normal
  obtain ⟨e, failed, failed'⟩ | ⟨more, p, q, ran, ran', last⟩ := Abreast.start.run line
  · rw [failed, failed']
    exact .inl ⟨e, rfl, rfl⟩
  · rw [ran, ran']
    exact last.finish line

end Line

end Simultaneous
