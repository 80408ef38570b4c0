import Simultaneous.Proofs.Worksheet.Later

/-!
The two stores of a worksheet, unknowns that are open and unknowns with values. Equations open no
unknown that has a value, and solving closes what it gives a value. Differential problems open all
their identifiers. Main statement: an unknown is in both stores exactly if a differential problem
named it when it had a value.
-/

namespace Simultaneous

namespace Unknowns

variable {α : Type} (u : Unknowns α)

def InBoth (spelling : String) : Prop := u.isPending spelling ∧ u.isSolved spelling

theorem isPending_iff (v : String) :
    u.isPending v ↔ Name.internal v ∈ u.pending.map (·.name) := by
  rw [isPending, find?, List.find?_isSome, List.mem_map]
  simp only [decide_eq_true_eq]

theorem map_name_changeUses (entries : List Unknown) (name : String) (change : Nat → Nat) :
    (changeUses entries name change).map (·.name) = entries.map (·.name) := by
  rw [changeUses, List.map_map]
  apply List.map_congr_left
  intro e _
  rw [Function.comp_apply]
  split <;> rfl

theorem isPending_use (spelling : String) (n : Nat) (v : String) :
    (u.use spelling n).1.isPending v ↔
      u.isPending v ∨ Name.internal spelling = Name.internal v := by
  cases found : u.find? spelling with
  | some e =>
    have same : (u.use spelling n).1.isPending v ↔ u.isPending v := by
      rw [use, found, isPending_iff, isPending_iff, map_name_changeUses]
    have opened : u.isPending spelling := by rw [isPending, found, Option.isSome_some]
    rw [same]
    refine ⟨.inl, ?_⟩
    rintro (before | equal)
    · exact before
    · rwa [isPending_iff, ← equal, ← isPending_iff]
  | none =>
    rw [use, found, isPending_iff, isPending_iff, List.map_append, List.mem_append,
      List.map_singleton, List.mem_singleton, eq_comm (a := Name.internal v)]

theorem isPending_foldl_use (names : List String) (v : String) :
    (names.foldl (fun u name => (u.use name 1).1.spell name) u).isPending v ↔
      u.isPending v ∨ ∃ name ∈ names, Name.internal name = Name.internal v := by
  induction names generalizing u with
  | nil => simp only [List.foldl_nil, List.not_mem_nil, false_and, exists_false, or_false]
  | cons first rest ih =>
    have step : ((u.use first 1).1.spell first).isPending v ↔
        u.isPending v ∨ Name.internal first = Name.internal v := u.isPending_use first 1 v
    rw [List.foldl_cons, ih, step]
    simp only [List.mem_cons, exists_eq_or_imp, or_assoc]

end Unknowns

namespace Worksheet

open Unknowns

variable {α : Type}

theorem inBoth_useAll (u : Unknowns α) (names : List String) (v : String) :
    (useAll u names).InBoth v ↔ u.InBoth v := by
  induction names generalizing u with
  | nil => rfl
  | cons name rest ih =>
    rw [useAll, List.foldl_cons, ← useAll, ih]
    split
    next => rfl
    next fresh =>
      rw [InBoth, InBoth, isPending_use, isSolved_eq, solved_use, ← isSolved_eq]
      constructor
      · rintro ⟨before | same, solved⟩
        · exact ⟨before, solved⟩
        · rw [isSolved_eq, ← same, ← isSolved_eq] at solved
          exact absurd solved fresh
      · rintro ⟨before, solved⟩
        exact ⟨.inl before, solved⟩

theorem pending_spellAll (w : Worksheet α) (text : String) :
    (w.spellAll text).unknowns.pending = w.unknowns.pending := by
  change ((Name.identifiersIn text).foldl Unknowns.spell w.unknowns).pending = _
  generalize Name.identifiersIn text = names
  generalize w.unknowns = u
  induction names generalizing u with
  | nil => rfl
  | cons name rest ih => exact ih (u.spell name)

theorem inBoth_congr {u u' : Unknowns α} (pending : u'.pending = u.pending)
    (solved : u'.solved = u.solved) (v : String) : u'.InBoth v ↔ u.InBoth v := by
  rw [InBoth, InBoth, isPending_iff, isPending_iff, isSolved_eq, isSolved_eq, pending, solved]

theorem inBoth_addEquation (w : Worksheet α) (e : LineEquation) (line : String) (number : Nat)
    (v : String) : (w.addEquation e line number).unknowns.InBoth v ↔ w.unknowns.InBoth v :=
  (inBoth_congr (pending_spellAll { w with unknowns := useAll w.unknowns e.unknowns } line)
    (solved_spellAll _ line) v).trans (inBoth_useAll w.unknowns e.unknowns v)

theorem inBoth_addDifferential (w : Worksheet α) (d : Differential) (v : String) :
    (w.addDifferential d).unknowns.InBoth v ↔
      w.unknowns.InBoth v ∨
        w.unknowns.isSolved v ∧ ∃ name ∈ d.identifiers, Name.internal name = Name.internal v := by
  have opened : (w.addDifferential d).unknowns.isPending v ↔
      w.unknowns.isPending v ∨ ∃ name ∈ d.identifiers, Name.internal name = Name.internal v :=
    isPending_foldl_use ((w.unknowns.spell d.target).spell d.independent) d.identifiers v
  rw [InBoth, opened, isSolved_eq, solved_addDifferential, ← isSolved_eq, InBoth, or_and_right,
    and_comm (a := w.unknowns.isSolved v = true)]

theorem Accounts.inBoth_iff {w : Worksheet α} {r : Run α} (a : w.Accounts r) (v : String) :
    r.worksheet.unknowns.InBoth v ↔ w.unknowns.InBoth v := by
  have closed : r.worksheet.unknowns.isPending v ↔
      w.unknowns.isPending v ∧ Name.internal v ∉ namesWritten r.blocks := by
    rw [a.worksheet_eq, isPending_iff, isPending_iff, after]
    simp only [List.mem_map, List.mem_filter, decide_eq_true_eq]
    constructor
    · rintro ⟨e, ⟨member, kept⟩, named⟩
      exact ⟨⟨e, member, named⟩, named ▸ kept⟩
    · rintro ⟨⟨e, member, named⟩, kept⟩
      exact ⟨e, ⟨member, named.symm ▸ kept⟩, named⟩
  have solved : r.worksheet.unknowns.isSolved v ↔
      w.unknowns.isSolved v ∨ Name.internal v ∈ namesWritten r.blocks := by
    rw [a.worksheet_eq]
    exact w.isSolved_after a.filled v
  have fresh : w.unknowns.isSolved v → Name.internal v ∉ namesWritten r.blocks := by
    intro known written
    have unknown := a.fresh _ written
    rw [isSolved_eq, a.internal _ written, ← isSolved_eq, known] at unknown
    cases unknown
  rw [InBoth, closed, solved, InBoth]
  constructor
  · rintro ⟨⟨before, kept⟩, known | written⟩
    · exact ⟨before, known⟩
    · exact absurd written kept
  · rintro ⟨before, known⟩
    exact ⟨⟨before, fresh known⟩, .inl known⟩

def NewlyNamed (w w' : Worksheet α) (v : String) : Prop :=
  ∃ d, w'.differentials = w.differentials ++ [d] ∧
    ∃ name ∈ d.identifiers, Name.internal name = Name.internal v

theorem newlyNamed_addDifferential (w : Worksheet α) (d : Differential) (v : String) :
    NewlyNamed w (w.addDifferential d) v ↔
      ∃ name ∈ d.identifiers, Name.internal name = Name.internal v := by
  constructor
  · rintro ⟨other, added, named⟩
    have same : [d] = [other] := List.append_cancel_left added
    cases same
    exact named
  · exact fun named => ⟨d, rfl, named⟩

theorem not_newlyNamed {w w' : Worksheet α} (same : w'.differentials = w.differentials)
    (v : String) : ¬NewlyNamed w w' v := by
  rintro ⟨d, added, _⟩
  have longer := congrArg List.length added
  rw [same, List.length_append, List.length_singleton] at longer
  omega

theorem inBoth_iff_of_same {w w' : Worksheet α} {v : String}
    (differentials : w'.differentials = w.differentials)
    (stores : w'.unknowns.InBoth v ↔ w.unknowns.InBoth v) :
    w'.unknowns.InBoth v ↔
      w.unknowns.InBoth v ∨ w.unknowns.isSolved v ∧ NewlyNamed w w' v := by
  rw [stores]
  refine ⟨.inl, ?_⟩
  rintro (before | ⟨_, named⟩)
  · exact before
  · exact absurd named (not_newlyNamed differentials v)

variable [Scalar α]

/-- An unknown comes into both stores by a step that adds a differential problem naming it while it
has a value, and by no other step. No step takes it out again. -/
theorem Step.inBoth_iff {w w' : Worksheet α} (step : Step w w') (s : w.Sound) (v : String) :
    w'.unknowns.InBoth v ↔
      w.unknowns.InBoth v ∨ w.unknowns.isSolved v ∧ NewlyNamed w w' v := by
  have adds : ∀ d, (w.addDifferential d).unknowns.InBoth v ↔
      w.unknowns.InBoth v ∨ w.unknowns.isSolved v ∧ NewlyNamed w (w.addDifferential d) v := by
    intro d
    rw [newlyNamed_addDifferential]
    exact w.inBoth_addDifferential d v
  cases step with
  | enterAt mode line number =>
    obtain same | ⟨d, same⟩ | ⟨e, same⟩ := w.enterAt_cases mode line number
    · rw [same]
      exact inBoth_iff_of_same rfl .rfl
    · rw [same]
      exact adds d
    · rw [same]
      exact inBoth_iff_of_same rfl (inBoth_addEquation _ e line number v)
  | addDifferential _ => exact adds _
  | spellAll text =>
    exact inBoth_iff_of_same rfl
      (inBoth_congr (w.pending_spellAll text) (w.solved_spellAll text) v)
  | setInitial spelling value => exact inBoth_iff_of_same rfl .rfl
  | solve complete =>
    have a := s.accounts_solve complete
    exact inBoth_iff_of_same (by rw [a.worksheet_eq]; rfl) (a.inBoth_iff v)
  | review precision =>
    obtain ⟨high, failed, same⟩ := w.review_eq precision
    rw [same]
    exact inBoth_iff_of_same rfl .rfl
  | fail => exact inBoth_iff_of_same rfl .rfl

theorem Later.inBoth {w w' : Worksheet α} (later : Later w w') (reachable : Reachable w)
    {v : String} (both : w.unknowns.InBoth v) : w'.unknowns.InBoth v := by
  induction later with
  | refl => exact both
  | tail before step ih =>
    exact (step.inBoth_iff (Later.reachable before reachable).sound v).2 (.inl ih)

/-- Back from a time at which an unknown is in both stores to the step that brought it there. -/
theorem exists_named_of_inBoth {w : Worksheet α} (later : Later empty w) {v : String}
    (both : w.unknowns.InBoth v) :
    ∃ before added, Reachable before ∧ Step before added ∧ Later added w ∧
      before.unknowns.isSolved v ∧ NewlyNamed before added v := by
  induction later with
  | refl => cases both.2
  | @tail during w earlier step ih =>
    have reachable := Later.reachable earlier .empty
    rcases (step.inBoth_iff reachable.sound v).1 both with already | ⟨known, named⟩
    · obtain ⟨before, added, r, first, later, rest⟩ := ih already
      exact ⟨before, added, r, first, .tail later step, rest⟩
    · exact ⟨during, w, reachable, step, .refl, known, named⟩

/-! ### The main statement -/

section Example

def decaying : Worksheet Rational :=
  (((empty.enter .radians "k = 2").1.solve twos).worksheet.enter .radians
    "y = SolveODE(\"-k*y\", t, 0, 10, y0)").1

theorem reachable_decaying : Reachable decaying :=
  .enterAt _ _ _ (.solve twos_isComplete (.enterAt _ _ _ .empty))

theorem decaying_inBoth : decaying.unknowns.InBoth "k" := by
  unfold Unknowns.InBoth
  decide +kernel

end Example

/-- An unknown is both open and solved exactly if, at some time since the last clearing, a
differential problem that names it was added while it had a value. The two stores have no other
unknowns in common than those named by the differential problems of the worksheet. -/
theorem inBoth_iff_named_after_solved {w : Worksheet α} (reachable : Reachable w) (v : String) :
    (w.unknowns.InBoth v ↔
      ∃ before added, Reachable before ∧ Step before added ∧ Later added w ∧
        before.unknowns.isSolved v ∧ NewlyNamed before added v) ∧
    (w.unknowns.InBoth v →
      ∃ d ∈ w.differentials, ∃ name ∈ d.identifiers, Name.internal name = Name.internal v) := by
  have history : w.unknowns.InBoth v ↔
      ∃ before added, Reachable before ∧ Step before added ∧ Later added w ∧
        before.unknowns.isSolved v ∧ NewlyNamed before added v := by
    constructor
    · exact exists_named_of_inBoth reachable.later
    · rintro ⟨before, added, r, step, later, known, named⟩
      exact later.inBoth (step.reachable r)
        ((step.inBoth_iff r.sound v).2 (.inr ⟨known, named⟩))
  refine ⟨history, fun both => ?_⟩
  obtain ⟨before, added, r, step, later, -, d, new, named⟩ := history.1 both
  refine ⟨d, (Later.grows later (step.reachable r)).differentials.subset ?_, named⟩
  rw [new]
  exact List.mem_append_right _ (List.mem_singleton_self d)

theorem decaying_named_after_solved :
    Reachable decaying ∧
      (decaying.unknowns.InBoth "k" ↔
        ∃ before added, Reachable before ∧ Step before added ∧ Later added decaying ∧
          before.unknowns.isSolved "k" ∧ NewlyNamed before added "k") :=
  ⟨reachable_decaying, (inBoth_iff_named_after_solved reachable_decaying "k").1⟩

/-- That no unknown of a worksheet that comes about is in both stores is wrong. -/
theorem stores_not_disjoint :
    ¬∀ w : Worksheet Rational, Reachable w →
      ∀ v, ¬(w.unknowns.isPending v ∧ w.unknowns.isSolved v) :=
  fun disjoint => disjoint decaying reachable_decaying "k" decaying_inBoth

end Worksheet

end Simultaneous
