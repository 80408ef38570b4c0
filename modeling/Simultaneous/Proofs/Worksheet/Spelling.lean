import Simultaneous.Proofs.Line.Words
import Simultaneous.Proofs.Unknowns

/-!
The names under which a worksheet keeps unknowns, spellings and starting values. An equation line
lists its unknowns under the stored names of its words, and a spelling or a starting value that is
given for a word is kept under its internal name. These agree unless the word has a pair `Gg`.
-/

namespace Simultaneous.Worksheet

open Line

section Keys

variable {α : Type} {word : String} (plain : ¬['G', 'g'] <:+: word.toList)
include plain

theorem get?_initial_setInitial (w : Worksheet α) (x : α) (v : String) :
    (w.setInitial word x).initial.get? v =
      if Name.stored word = v then some x else w.initial.get? v := by
  rw [Worksheet.setInitial, (Name.internal_eq_stored_iff word).2 plain, Assoc.get?_insert]

theorem get?_spellings_spell (u : Unknowns α) (v : String) :
    (u.spell word).spellings.get? v =
      if Name.stored word = v then some ((u.spellings.get? v).getD word)
      else u.spellings.get? v := by
  rw [Unknowns.spell, (Name.internal_eq_stored_iff word).2 plain, Assoc.get?_insertNew]

end Keys

/-- An accepted line without blanks inside its words lists its words that are free under their
stored names. -/
theorem unknowns_are_stored_words (α : Type) {mode : AngleMode} {line : String} {e : LineEquation}
    (read : LineEquation.ofLine mode line = .ok (some e)) (unbroken : Unbroken line.toList) :
    e.unknowns = firstOccurrences ((Name.freeWords line).map Name.stored) ∧
    ∀ word ∈ Name.identifiersIn line,
      Name.stored word ∈ e.unknowns ∧
      Name.internal word = Name.stored (Name.spelled word) ∧
      (Name.internal word = Name.stored word ↔ ¬['G', 'g'] <:+: word.toList) ∧
      (¬['G', 'g'] <:+: word.toList →
        (∀ (w : Worksheet α) (x : α) (v : String), (w.setInitial word x).initial.get? v =
          if Name.stored word = v then some x else w.initial.get? v) ∧
        ∀ (u : Unknowns α) (v : String), (u.spell word).spellings.get? v =
          if Name.stored word = v then some ((u.spellings.get? v).getD word)
          else u.spellings.get? v) := by
  have unknowns : e.unknowns = firstOccurrences ((Name.freeWords line).map Name.stored) := by
    unfold LineEquation.ofLine at read
    split at read
    next => cases read
    next => cases read
    next text normal_text =>
      split at read
      next => cases read
      next residual names contributed =>
        cases read
        exact congrArg firstOccurrences (names_of_normal unbroken normal_text contributed)
  refine ⟨unknowns, fun word member => ⟨?_, Name.internal_eq_stored_spelled word,
    Name.internal_eq_stored_iff word,
    fun plain => ⟨get?_initial_setInitial plain, get?_spellings_spell plain⟩⟩⟩
  rw [unknowns, mem_firstOccurrences]
  exact List.mem_map_of_mem (Name.mem_freeWords_of_mem_identifiersIn member)

section Example

def flow : LineEquation := ⟨"flowGgrate-1*(2*Sin(t1))", ["flowGgrate", "t1"]⟩

theorem flow_accepted :
    LineEquation.ofLine .radians "Flow_Rate = 2*sin(T1)" = .ok (some flow) := by
  decide +kernel

theorem paired_accepted :
    LineEquation.ofLine .radians "aGgb = 2" = .ok (some ⟨"aggb-1*(2)", ["aggb"]⟩) := by
  decide +kernel

end Example

theorem flow_unknowns_are_stored_words :
    LineEquation.ofLine .radians "Flow_Rate = 2*sin(T1)" = .ok (some flow) ∧
      Unbroken "Flow_Rate = 2*sin(T1)".toList ∧
      flow.unknowns =
        firstOccurrences ((Name.freeWords "Flow_Rate = 2*sin(T1)").map Name.stored) ∧
      "Flow_Rate" ∈ Name.identifiersIn "Flow_Rate = 2*sin(T1)" ∧
      ¬['G', 'g'] <:+: "Flow_Rate".toList ∧
      ∀ (w : Worksheet Nat) (x : Nat) (v : String),
        (w.setInitial "Flow_Rate" x).initial.get? v =
          if Name.stored "Flow_Rate" = v then some x else w.initial.get? v := by
  have unbroken : Unbroken "Flow_Rate = 2*sin(T1)".toList := by decide +kernel
  have word : "Flow_Rate" ∈ Name.identifiersIn "Flow_Rate = 2*sin(T1)" := by decide +kernel
  have plain : ¬['G', 'g'] <:+: "Flow_Rate".toList := by decide +kernel
  have accepted := unknowns_are_stored_words Nat flow_accepted
  have listed := accepted unbroken
  exact ⟨flow_accepted, unbroken, listed.1, word, plain, ((listed.2 _ word).2.2.2 plain).1⟩

/-- Not every word is listed under the name under which its spelling and its starting value are
kept. -/
theorem not_every_word_is_listed_under_its_key :
    ¬∀ {mode : AngleMode} {line : String} {e : LineEquation},
      LineEquation.ofLine mode line = .ok (some e) → Unbroken line.toList →
      ∀ word ∈ Name.identifiersIn line, Name.internal word ∈ e.unknowns := by
  intro listed
  have unbroken : Unbroken "aGgb = 2".toList := by decide +kernel
  have word : "aGgb" ∈ Name.identifiersIn "aGgb = 2" := by decide +kernel
  have keys := listed paired_accepted
  exact absurd (keys unbroken "aGgb" word) (by decide +kernel)

end Simultaneous.Worksheet
