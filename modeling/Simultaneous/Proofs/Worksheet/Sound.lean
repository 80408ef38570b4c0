import Simultaneous.Proofs.Line.Names
import Simultaneous.Proofs.Worksheet.Account

/-!
What holds of a worksheet at all times: its equations name distinct unknowns by internal names, each
equation is solved or waits, and none that is solved needs an unknown without a value. Entering
lines keeps this, and so does any run that keeps its account.
-/

namespace Simultaneous.Worksheet

open scoped List

variable {α : Type}

structure Sound (w : Worksheet α) : Prop where
  unknowns_nodup : ∀ e ∈ w.equations, e.unknowns.Nodup
  internal : ∀ e ∈ w.equations, ∀ v ∈ e.unknowns, Name.internal v = v
  partition : w.solved ++ w.unsolved ~ List.range w.equations.length
  settled : ∀ id, id ∉ w.unsolved → w.unsolvedIn id = []

theorem Sound.unsolved_nodup {w : Worksheet α} (s : w.Sound) : w.unsolved.Nodup :=
  (List.nodup_append.1 (s.partition.nodup_iff.2 List.nodup_range)).2.1

theorem sound_empty : (empty : Worksheet α).Sound where
  unknowns_nodup := fun _ member => by cases member
  internal := fun _ member => by cases member
  partition := .refl _
  settled := fun _ _ => rfl

theorem unsolvedIn_congr {w w' : Worksheet α} {id : Nat}
    (equation : w'.equations[id]? = w.equations[id]?)
    (values : w'.unknowns.solved = w.unknowns.solved) : w'.unsolvedIn id = w.unsolvedIn id := by
  unfold unsolvedIn
  rw [equation]
  simp only [Unknowns.isSolved_eq, values]

theorem Sound.congr {w w' : Worksheet α} (s : w.Sound) (equations : w'.equations = w.equations)
    (unsolved : w'.unsolved = w.unsolved) (solved : w'.solved = w.solved)
    (values : w'.unknowns.solved = w.unknowns.solved) : w'.Sound where
  unknowns_nodup := by
    rw [equations]
    exact s.unknowns_nodup
  internal := by
    rw [equations]
    exact s.internal
  partition := by
    rw [equations, unsolved, solved]
    exact s.partition
  settled := by
    intro id done
    rw [unsolvedIn_congr (by rw [equations]) values]
    exact s.settled id (unsolved ▸ done)

/-! ### Entering lines -/

theorem solved_foldl {β : Type} (f : Unknowns α → β → Unknowns α)
    (keeps : ∀ u x, (f u x).solved = u.solved) (u : Unknowns α) (xs : List β) :
    (xs.foldl f u).solved = u.solved := by
  induction xs generalizing u with
  | nil => rfl
  | cons x rest ih => rw [List.foldl_cons, ih, keeps]

theorem solved_spellAll (w : Worksheet α) (text : String) :
    (w.spellAll text).unknowns.solved = w.unknowns.solved :=
  solved_foldl Unknowns.spell (fun _ _ => rfl) _ _

theorem solved_useAll (u : Unknowns α) (names : List String) :
    (useAll u names).solved = u.solved := by
  apply solved_foldl
  intro u name
  split
  next => rfl
  next => exact u.solved_use name 1

theorem solved_addDifferential (w : Worksheet α) (d : Differential) :
    (w.addDifferential d).unknowns.solved = w.unknowns.solved :=
  solved_foldl (fun u name => (u.use name 1).1.spell name) (fun u name => u.solved_use name 1) _ _

theorem solved_addEquation (w : Worksheet α) (e : LineEquation) (line : String) (number : Nat) :
    (w.addEquation e line number).unknowns.solved = w.unknowns.solved :=
  (solved_spellAll _ line).trans (solved_useAll w.unknowns e.unknowns)

theorem Sound.addEquation {w : Worksheet α} (s : w.Sound) {e : LineEquation}
    (distinct : e.unknowns.Nodup) (internal : ∀ v ∈ e.unknowns, Name.internal v = v)
    (line : String) (number : Nat) : (w.addEquation e line number).Sound where
  unknowns_nodup := by
    intro f member
    rcases List.mem_append.1 member with earlier | last
    · exact s.unknowns_nodup f earlier
    · rw [List.mem_singleton.1 last]
      exact distinct
  internal := by
    intro f member
    rcases List.mem_append.1 member with earlier | last
    · exact s.internal f earlier
    · rw [List.mem_singleton.1 last]
      exact internal
  partition := by
    change w.solved ++ (w.unsolved ++ [w.equations.length]) ~
      List.range (w.equations ++ [_]).length
    rw [List.length_append, List.length_singleton, List.range_succ, ← List.append_assoc]
    exact s.partition.append_right _
  settled := by
    intro id done
    obtain ⟨before, other⟩ := not_or.1 (mt List.mem_append.2 done)
    rw [List.mem_singleton] at other
    -- the new equation waits, so the place in question is not its place
    have same : (w.addEquation e line number).equations[id]? = w.equations[id]? := by
      change (w.equations ++ [_])[id]? = _
      rcases Nat.lt_or_gt_of_ne other with earlier | beyond
      · exact List.getElem?_append_left earlier
      · rw [List.getElem?_eq_none (Nat.le_of_lt beyond), List.getElem?_eq_none]
        simpa using beyond
    rw [unsolvedIn_congr same (w.solved_addEquation e line number)]
    exact s.settled id before

theorem Sound.enterAt {w : Worksheet α} (s : w.Sound) (mode : AngleMode) (line : String)
    (number : Nat) : (w.enterAt mode line number).1.Sound := by
  have counted : { w with lastLine := max w.lastLine number }.Sound := s.congr rfl rfl rfl rfl
  unfold Worksheet.enterAt Statement.ofLine
  split
  next e refused => exact counted
  next statement read =>
    split at read
    next d found =>
      cases read
      exact counted.congr rfl rfl rfl (solved_addDifferential _ d)
    next =>
      split at read
      next => cases read
      next =>
        cases read
        exact counted
      next e stated =>
        cases read
        obtain ⟨distinct, internal⟩ := Line.unknowns_of_line stated
        exact counted.addEquation distinct internal line number

/-! ### Runs -/

theorem nodup_unsolvedIn {w : Worksheet α} (distinct : ∀ e ∈ w.equations, e.unknowns.Nodup)
    (id : Nat) : (w.unsolvedIn id).Nodup := by
  unfold unsolvedIn
  split
  next => exact List.nodup_nil
  next e entry => exact (distinct e (List.mem_of_getElem? entry)).filter _

theorem Sound.distinct_unsolvedIn {w : Worksheet α} (s : w.Sound) (id : Nat) :
    (w.unsolvedIn id).Nodup :=
  nodup_unsolvedIn s.unknowns_nodup id

theorem Sound.of_mem_unsolvedIn {w : Worksheet α} (s : w.Sound) {id : Nat} {v : String}
    (member : v ∈ w.unsolvedIn id) :
    Name.internal v = v ∧ w.unknowns.isSolved v = false := by
  obtain ⟨e, entry, named, fresh⟩ := (w.mem_unsolvedIn id v).1 member
  exact ⟨s.internal e (List.mem_of_getElem? entry) v named, fresh⟩

theorem append_filter_perm {ids unsolved : List Nat} (distinct : ids.Nodup)
    (nodup : unsolved.Nodup) (waiting : ∀ id ∈ ids, id ∈ unsolved) :
    ids ++ unsolved.filter (· ∉ ids) ~ unsolved := by
  refine (List.perm_ext_iff_of_nodup ?_ nodup).2 ?_
  · refine List.nodup_append.2 ⟨distinct, nodup.filter _, ?_⟩
    rintro id taken _ left rfl
    exact of_decide_eq_true (List.mem_filter.1 left).2 taken
  · intro id
    rw [List.mem_append, List.mem_filter, decide_eq_true_eq]
    constructor
    · rintro (taken | ⟨left, _⟩)
      · exact waiting id taken
      · exact left
    · intro member
      by_cases taken : id ∈ ids
      · exact .inl taken
      · exact .inr ⟨member, taken⟩

/-- A run that keeps its account leaves a sound worksheet sound. -/
theorem Accounts.sound {w : Worksheet α} {r : Run α} (a : w.Accounts r) (s : w.Sound) :
    r.worksheet.Sound where
  unknowns_nodup := by
    rw [a.worksheet_eq]
    exact s.unknowns_nodup
  internal := by
    rw [a.worksheet_eq]
    exact s.internal
  partition := by
    rw [a.worksheet_eq]
    change w.solved ++ idsWritten r.blocks ++ w.unsolved.filter (· ∉ idsWritten r.blocks) ~
      List.range w.equations.length
    rw [List.append_assoc]
    exact ((append_filter_perm a.ids_nodup s.unsolved_nodup a.ids_unsolved).append_left _).trans
      s.partition
  settled := by
    intro id done
    by_cases written : id ∈ idsWritten r.blocks
    · exact a.settled id written
    · have before : id ∉ w.unsolved := by
        intro member
        apply done
        rw [a.worksheet_eq]
        exact List.mem_filter.2 ⟨member, decide_eq_true written⟩
      rw [a.worksheet_eq, List.eq_nil_iff_forall_not_mem]
      intro v still
      have open_before := ((w.mem_unsolvedIn_after a.filled id v).1 still).1
      rw [s.settled id before] at open_before
      cases open_before

end Simultaneous.Worksheet
