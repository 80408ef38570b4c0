import Mathlib.Logic.Relation
import Mathlib.Order.Bounds.Defs
import Simultaneous.Proofs.Worksheet.Reachable

/-!
How far the pass over single equations gets. Every turn tries an equation that is not tried again,
so there is a last one, whatever the solves come to. If all of them come with values, then a value
spreads from the unknowns of an equation to the last one without a value, until it does so no more.
What has values then is the least set with this property, for which it does not matter in what order
equations were entered.
-/

namespace Simultaneous.Worksheet

open scoped List

variable {α : Type}

/-! ### Sets that values spread in -/

def known (w : Worksheet α) : Set String := {v | (w.unknowns.solved.get? v).isSome}

/-- A set that contains all but one of an equation's unknowns contains that one as well. -/
def Closed (equations : List EquationEntry) (s : Set String) : Prop :=
  ∀ e ∈ equations, ∀ v ∈ e.unknowns, (∀ u ∈ e.unknowns, u ≠ v → u ∈ s) → v ∈ s

theorem closed_of_perm {equations others : List EquationEntry}
    (same : equations.map (·.unknowns) ~ others.map (·.unknowns)) {s : Set String}
    (closed : Closed equations s) : Closed others s := by
  intro e member
  have listed : e.unknowns ∈ equations.map (·.unknowns) :=
    same.mem_iff.2 (List.mem_map_of_mem member)
  obtain ⟨f, own, unknowns_eq⟩ := List.mem_map.1 listed
  rw [← unknowns_eq]
  exact closed f own

theorem mem_known_iff (w : Worksheet α) {v : String} (internal : Name.internal v = v) :
    v ∈ w.known ↔ w.unknowns.isSolved v = true := by
  rw [Unknowns.isSolved_eq, internal]
  rfl

theorem equations_apply (w : Worksheet α) (b : SolvedBlock α) :
    (w.apply b).equations = w.equations := by
  unfold apply
  simp only
  split <;> rfl

theorem known_apply (w : Worksheet α) {b : SolvedBlock α} {v : String}
    (single : b.result.unknowns = [v]) (values : b.result.outcome.hasValues = true)
    (some_value : b.result.values ≠ []) : (w.apply b).known = insert (Name.internal v) w.known := by
  obtain ⟨x, rest, values_eq⟩ := List.exists_cons_of_ne_nil some_value
  have solved : (w.apply b).unknowns = w.unknowns.solve v x := by
    simp only [apply, values, if_true, single, values_eq]
    rfl
  ext u
  change ((w.apply b).unknowns.solved.get? u).isSome ↔ _
  rw [solved, Unknowns.solve, Assoc.get?_insert, Set.mem_insert_iff]
  split
  next same => simp only [Option.isSome_some, same, true_or]
  next other => simp only [Ne.symm other, false_or]; rfl

/-! ### Turns of the pass -/

def waiting (s : Worksheet α × List Nat) : List Nat := s.1.unsolved.filter (· ∉ s.2)

/-- A turn of the pass with any outcome: of the equations that wait, the first with one open unknown
is tried. The second part of a state lists the equations that failed. -/
inductive Turn : Worksheet α × List Nat → Worksheet α × List Nat → Prop where
  | solved {w : Worksheet α} {failed : List Nat} {id : Nat} {b : SolvedBlock α} :
      w.nextSingle? (waiting (w, failed)) = some id → b.equations = [id] →
        b.result.outcome.hasValues = true → Turn (w, failed) (w.apply b, failed)
  | failed {w : Worksheet α} {failed : List Nat} {id : Nat} {b : SolvedBlock α} :
      w.nextSingle? (waiting (w, failed)) = some id → b.equations = [id] →
        b.result.outcome.hasValues = false → Turn (w, failed) (w.apply b, id :: failed)

theorem unsolved_apply_of_values (w : Worksheet α) {b : SolvedBlock α}
    (values : b.result.outcome.hasValues = true) :
    (w.apply b).unsolved = w.unsolved.filter (· ∉ b.equations) := by
  simp only [apply, values, if_true]

theorem waiting_solved (w : Worksheet α) (failed : List Nat) {id : Nat} {b : SolvedBlock α}
    (single : b.equations = [id]) (values : b.result.outcome.hasValues = true) :
    waiting (w.apply b, failed) = (waiting (w, failed)).filter (· != id) := by
  rw [waiting, waiting, w.unsolved_apply_of_values values, single, List.filter_filter,
    List.filter_filter]
  apply List.filter_congr
  intro other _
  rw [Bool.eq_iff_iff]
  simp only [List.mem_singleton, Bool.and_eq_true, decide_eq_true_eq, bne_iff_ne]
  exact and_comm

theorem waiting_failed (w : Worksheet α) (failed : List Nat) (id : Nat) {b : SolvedBlock α}
    (none : b.result.outcome.hasValues = false) :
    waiting (w.apply b, id :: failed) = (waiting (w, failed)).filter (· != id) := by
  have unsolved : (w.apply b).unsolved = w.unsolved := by rw [apply_of_none w none]
  rw [waiting, waiting, unsolved, List.filter_filter]
  apply List.filter_congr
  intro other _
  rw [Bool.eq_iff_iff]
  simp only [List.mem_cons, not_or, Bool.and_eq_true, decide_eq_true_eq, bne_iff_ne]

theorem Turn.exists_waiting {s s' : Worksheet α × List Nat} (turn : Turn s s') :
    ∃ id ∈ waiting s, waiting s' = (waiting s).filter (· != id) := by
  cases turn with
  | solved found single values =>
    exact ⟨_, List.mem_of_find?_eq_some found, waiting_solved _ _ single values⟩
  | failed found single none =>
    exact ⟨_, List.mem_of_find?_eq_some found, waiting_failed _ _ _ none⟩

theorem turn_wellFounded :
    WellFounded fun later earlier : Worksheet α × List Nat => Turn earlier later := by
  refine Subrelation.wf (fun turn => ?_) (measure fun s => (waiting s).length).wf
  obtain ⟨id, member, waiting_eq⟩ := turn.exists_waiting
  change (waiting _).length < (waiting _).length
  rw [waiting_eq]
  exact List.length_filter_lt_length_iff_exists.2 ⟨id, member, by simp⟩

theorem exists_turn {w : Worksheet α} {failed : List Nat} (distinct : (waiting (w, failed)).Nodup)
    {id : Nat} (found : w.nextSingle? (waiting (w, failed)) = some id) {b : SolvedBlock α}
    (single : b.equations = [id]) :
    ∃ failed', Turn (w, failed) (w.apply b, failed') ∧
      waiting (w.apply b, failed') = (waiting (w, failed)).erase id := by
  rw [distinct.erase_eq_filter]
  cases values : b.result.outcome.hasValues with
  | true => exact ⟨failed, .solved found single values, waiting_solved w failed single values⟩
  | false => exact ⟨id :: failed, .failed found single values, waiting_failed w failed id values⟩

section Pass

variable [Scalar α] {solver : BlockSolver α}

theorem turns_solveSingles (solver : BlockSolver α) (r : Run α) (ids : List Nat) :
    ∀ failed, ids.Nodup → ids = waiting (r.worksheet, failed) →
      ∃ failed',
        Relation.ReflTransGen Turn (r.worksheet, failed)
          ((solveSingles solver r ids).1.worksheet, failed') ∧
        (solveSingles solver r ids).2 = waiting ((solveSingles solver r ids).1.worksheet, failed') ∧
        ∀ s, ¬Turn ((solveSingles solver r ids).1.worksheet, failed') s := by
  fun_induction solveSingles solver r ids with
  | case1 r ids none =>
    intro failed distinct waits
    rw [waits] at none
    refine ⟨failed, .refl, waits, fun s turn => ?_⟩
    cases turn with
    | solved found single values => cases none.symm.trans found
    | failed found single without => cases none.symm.trans found
  | case2 r ids id found block ih =>
    intro failed distinct waits
    obtain ⟨failed', turn, left⟩ :=
      exists_turn (waits ▸ distinct) (waits ▸ found) (b := block) rfl
    obtain ⟨last, turns, rest⟩ := ih failed' (distinct.erase id) (by rw [waits]; exact left.symm)
    exact ⟨last, .head turn turns, rest⟩

theorem prefix_solveSingles (r : Run α) (ids : List Nat) :
    r.blocks <+: (solveSingles solver r ids).1.blocks := by
  fun_induction solveSingles solver r ids with
  | case1 r ids none => exact List.prefix_refl _
  | case2 r ids id found block ih => exact (List.prefix_append _ _).trans ih

end Pass

/-! ### What has values after the pass -/

def Run.IsValued (r : Run α) : Prop :=
  ∀ b ∈ r.blocks, b.result.outcome.hasValues = true ∧ b.result.values ≠ []

/-- Where the pass stands as long as every equation came with a value: equations that do not wait
have no open unknown, and values were found only where every closed set has them. -/
structure Spreads (w : Worksheet α) (r : Run α) (ids : List Nat) : Prop where
  equations : r.worksheet.equations = w.equations
  settled : ∀ id, id ∉ ids → r.worksheet.unsolvedIn id = []
  grown : w.known ⊆ r.worksheet.known
  within : ∀ s, w.known ⊆ s → Closed w.equations s → r.worksheet.known ⊆ s

theorem Sound.spreads_start {w : Worksheet α} (s : w.Sound) : w.Spreads ⟨w, []⟩ w.unsolved where
  equations := rfl
  settled := s.settled
  grown := subset_rfl
  within := fun _ starts _ => starts

/-- The open unknowns of an equation are those outside of the known ones. -/
theorem mem_unsolvedIn_iff {w : Worksheet α}
    (internal : ∀ e ∈ w.equations, ∀ v ∈ e.unknowns, Name.internal v = v) {id : Nat} {v : String} :
    v ∈ w.unsolvedIn id ↔ ∃ e, w.equations[id]? = some e ∧ v ∈ e.unknowns ∧ v ∉ w.known := by
  rw [w.mem_unsolvedIn id v]
  refine exists_congr fun e => and_congr_right fun entry => and_congr_right fun named => ?_
  rw [w.mem_known_iff (internal e (List.mem_of_getElem? entry) v named), Bool.not_eq_true]

theorem exists_open_of_nextSingle {w : Worksheet α} {ids : List Nat} {id : Nat}
    (found : w.nextSingle? ids = some id) : ∃ v, w.unsolvedIn id = [v] := by
  unfold nextSingle? at found
  have single := List.find?_some found
  exact List.length_eq_one_iff.1 (of_decide_eq_true single)

theorem Spreads.add {w : Worksheet α} (s : w.Sound) {r : Run α} {ids : List Nat}
    (p : w.Spreads r ids) {id : Nat} {v : String} (open_ : r.worksheet.unsolvedIn id = [v])
    {b : SolvedBlock α} (single : b.result.unknowns = [v])
    (valued : b.result.outcome.hasValues = true ∧ b.result.values ≠ []) :
    w.Spreads (r.add b) (ids.erase id) := by
  have equations : (r.add b).worksheet.equations = w.equations :=
    (equations_apply _ b).trans p.equations
  have internal_before : ∀ e ∈ r.worksheet.equations, ∀ v ∈ e.unknowns, Name.internal v = v := by
    rw [p.equations]
    exact s.internal
  have internal_after : ∀ e ∈ (r.add b).worksheet.equations, ∀ v ∈ e.unknowns,
      Name.internal v = v := by
    rw [equations]
    exact s.internal
  obtain ⟨e, entry, named, -⟩ :=
    (mem_unsolvedIn_iff internal_before).1 (open_ ▸ List.mem_singleton_self v)
  have member : e ∈ w.equations := p.equations ▸ List.mem_of_getElem? entry
  have known : (r.add b).worksheet.known = insert v r.worksheet.known := by
    rw [Run.add, known_apply _ single valued.1 valued.2, s.internal e member v named]
  refine ⟨equations, fun other done => ?_, ?_, fun set starts closed => ?_⟩
  · rw [List.eq_nil_iff_forall_not_mem]
    intro u still
    obtain ⟨f, own, used, fresh⟩ := (mem_unsolvedIn_iff internal_after).1 still
    rw [known, Set.mem_insert_iff, not_or] at fresh
    have before : u ∈ r.worksheet.unsolvedIn other :=
      (mem_unsolvedIn_iff internal_before).2
        ⟨f, by rw [p.equations, ← equations]; exact own, used, fresh.2⟩
    by_cases same : other = id
    · rw [same, open_, List.mem_singleton] at before
      exact fresh.1 before
    · rw [List.mem_erase_of_ne same] at done
      rw [p.settled other done] at before
      cases before
  · rw [known]
    exact p.grown.trans (Set.subset_insert v _)
  · have known_within := p.within set starts closed
    rw [known]
    refine Set.insert_subset (closed e member v named fun u used different => ?_) known_within
    -- another unknown of the equation without a value would be open in it
    by_contra outside
    have open_too := (mem_unsolvedIn_iff internal_before).2
      ⟨e, entry, used, fun inside => outside (known_within inside)⟩
    rw [open_, List.mem_singleton] at open_too
    exact different open_too

variable [Scalar α] {solver : BlockSolver α}

theorem spreads_solveSingles {w : Worksheet α} (s : w.Sound) {r : Run α} {ids : List Nat}
    (p : w.Spreads r ids) (valued : (solveSingles solver r ids).1.IsValued) :
    w.Spreads (solveSingles solver r ids).1 (solveSingles solver r ids).2 := by
  fun_induction solveSingles solver r ids with
  | case1 r ids none => exact p
  | case2 r ids id found block ih =>
    obtain ⟨v, open_⟩ := exists_open_of_nextSingle found
    have tried : block ∈ (solveSingles solver (r.add block) (ids.erase id)).1.blocks :=
      (prefix_solveSingles _ _).subset (r.mem_blocks_add block)
    refine ih (p.add s open_ ?_ (valued block tried)) valued
    rw [← open_]
    exact BlockSolver.unknowns_solve _ _ _ _ _

theorem nextSingle?_solveSingles (r : Run α) (ids : List Nat) :
    (solveSingles solver r ids).1.worksheet.nextSingle? (solveSingles solver r ids).2 = none := by
  fun_induction solveSingles solver r ids with
  | case1 r ids none => exact none
  | case2 r ids id found block ih => exact ih

/-- If every equation of the pass comes with a value, then what has values after it is the least
closed set with what had values before. -/
theorem Sound.isLeast_known_singles {w : Worksheet α} (s : w.Sound)
    (valued : (w.singles solver).1.IsValued) :
    IsLeast {set | w.known ⊆ set ∧ Closed w.equations set}
      (w.singles solver).1.worksheet.known := by
  have p := spreads_solveSingles s s.spreads_start valued
  change w.Spreads (w.singles solver).1 (w.singles solver).2 at p
  have stopped : (w.singles solver).1.worksheet.nextSingle? (w.singles solver).2 = none :=
    nextSingle?_solveSingles _ _
  generalize w.singles solver = stop at p stopped
  obtain ⟨r, ids⟩ := stop
  refine ⟨⟨p.grown, fun e member v named others => ?_⟩,
    fun set bounds => p.within set bounds.1 bounds.2⟩
  obtain ⟨id, entry⟩ := List.getElem?_of_mem member
  rw [← p.equations] at entry
  have internal : ∀ e ∈ r.worksheet.equations, ∀ v ∈ e.unknowns, Name.internal v = v := by
    rw [p.equations]
    exact s.internal
  have distinct : (r.worksheet.unsolvedIn id).Nodup := by
    apply nodup_unsolvedIn
    rw [p.equations]
    exact s.unknowns_nodup
  -- otherwise `v` were the only open unknown of an equation that waits
  by_contra outside
  have open_ : v ∈ r.worksheet.unsolvedIn id :=
    (mem_unsolvedIn_iff internal).2 ⟨e, entry, named, outside⟩
  have only : r.worksheet.unsolvedIn id = [v] := by
    have single := List.nodup_singleton v
    refine List.perm_singleton.1 ((List.perm_ext_iff_of_nodup distinct single).2 ?_)
    intro u
    rw [List.mem_singleton]
    refine ⟨fun still => ?_, fun same => same ▸ open_⟩
    obtain ⟨f, own, used, fresh⟩ := (mem_unsolvedIn_iff internal).1 still
    obtain rfl : e = f := Option.some.inj (entry.symm.trans own)
    by_contra different
    exact fresh (others u used different)
  have waits : id ∈ ids := by
    by_contra done
    rw [p.settled id done] at open_
    cases open_
  unfold nextSingle? at stopped
  have not_single := List.find?_eq_none.1 stopped id waits
  rw [only] at not_single
  exact not_single rfl

/-! ### The order of lines -/

section Order

variable (mode : AngleMode)

def stated? (line : String) : Option (List String) :=
  match Statement.ofLine mode line with
  | .ok (.equation e) => some e.unknowns
  | .ok .blank | .ok (.differential _) | .error _ => none

omit [Scalar α] in
theorem unknowns_enter (w : Worksheet α) (line : String) :
    (w.enter mode line).1.equations.map (·.unknowns) =
      w.equations.map (·.unknowns) ++ (stated? mode line).toList := by
  unfold enter enterAt stated?
  cases Statement.ofLine mode line with
  | error e => exact (List.append_nil _).symm
  | ok statement =>
    cases statement with
    | blank => exact (List.append_nil _).symm
    | differential d => exact (List.append_nil _).symm
    | equation e => exact List.map_append

omit [Scalar α] in
theorem known_enter (w : Worksheet α) (line : String) : (w.enter mode line).1.known = w.known := by
  have solved : (w.enter mode line).1.unknowns.solved = w.unknowns.solved := by
    unfold enter enterAt
    cases Statement.ofLine mode line with
    | error e => rfl
    | ok statement =>
      cases statement with
      | blank => rfl
      | differential d => exact solved_addDifferential _ d
      | equation e => exact solved_addEquation _ e line _
  rw [known, known, solved]

omit [Scalar α] in
theorem unknowns_enterAll (w : Worksheet α) (lines : List String) :
    (w.enterAll mode lines).equations.map (·.unknowns) =
      w.equations.map (·.unknowns) ++ lines.filterMap (stated? mode) := by
  induction lines generalizing w with
  | nil => exact (List.append_nil _).symm
  | cons line rest ih =>
    rw [enterAll, List.foldl_cons, ← enterAll, ih, unknowns_enter, List.append_assoc]
    cases stated : stated? mode line with
    | none => rw [List.filterMap_cons_none stated]; rfl
    | some unknowns => rw [List.filterMap_cons_some stated]; rfl

omit [Scalar α] in
theorem known_enterAll (w : Worksheet α) (lines : List String) :
    (w.enterAll mode lines).known = w.known := by
  induction lines generalizing w with
  | nil => rfl
  | cons line rest ih => rw [enterAll, List.foldl_cons, ← enterAll, ih, known_enter]

end Order

/-- Worksheets with the same equations in any order, and with values for the same unknowns. -/
theorem known_singles_eq_of_perm {w w' : Worksheet α} (s : w.Sound) (s' : w'.Sound)
    {solver solver' : BlockSolver α} (known_eq : w'.known = w.known)
    (same : w'.equations.map (·.unknowns) ~ w.equations.map (·.unknowns))
    (valued : (w.singles solver).1.IsValued) (valued' : (w'.singles solver').1.IsValued) :
    (w'.singles solver').1.worksheet.known = (w.singles solver).1.worksheet.known := by
  have least' := s'.isLeast_known_singles valued'
  have sets : {set | w'.known ⊆ set ∧ Closed w'.equations set} =
      {set | w.known ⊆ set ∧ Closed w.equations set} := by
    ext set
    change w'.known ⊆ set ∧ Closed w'.equations set ↔ w.known ⊆ set ∧ Closed w.equations set
    rw [known_eq]
    exact and_congr_right fun _ => ⟨closed_of_perm same, closed_of_perm same.symm⟩
  rw [sets] at least'
  exact least'.unique (s.isLeast_known_singles valued)

/-! ### The main statement -/

/-- The pass over single equations ends, whatever its solves come to. If all of them come with
values, then the unknowns with values are in the end those of the least set that contains the ones
from before and, with all but one of an equation's unknowns, that one as well. So they are the same
for any worksheet with these equations in another order, and for any order of lines. -/
theorem singles_spread {w : Worksheet α} (reachable : Reachable w) (solver : BlockSolver α) :
    (WellFounded fun later earlier : Worksheet α × List Nat => Turn earlier later) ∧
    (∃ failed, Relation.ReflTransGen Turn (w, []) ((w.singles solver).1.worksheet, failed) ∧
      ∀ s, ¬Turn ((w.singles solver).1.worksheet, failed) s) ∧
    ((w.singles solver).1.IsValued →
      IsLeast {s | w.known ⊆ s ∧ Closed w.equations s} (w.singles solver).1.worksheet.known ∧
      (∀ (w' : Worksheet α) (solver' : BlockSolver α), Reachable w' → w'.known = w.known →
        w'.equations.map (·.unknowns) ~ w.equations.map (·.unknowns) →
        (w'.singles solver').1.IsValued →
        (w'.singles solver').1.worksheet.known = (w.singles solver).1.worksheet.known) ∧
      ∀ (start : Worksheet α) (mode : AngleMode) (lines lines' : List String)
        (solver' : BlockSolver α), Reachable start → w = start.enterAll mode lines →
        lines' ~ lines → ((start.enterAll mode lines').singles solver').1.IsValued →
        ((start.enterAll mode lines').singles solver').1.worksheet.known =
          (w.singles solver).1.worksheet.known) := by
  have s := reachable.sound
  refine ⟨turn_wellFounded, ?_, fun valued => ⟨s.isLeast_known_singles valued, ?_, ?_⟩⟩
  · have all_wait : w.unsolved = waiting (w, []) :=
      (List.filter_eq_self.2 fun _ _ => decide_eq_true List.not_mem_nil).symm
    obtain ⟨failed, turns, -, stopped⟩ :=
      turns_solveSingles solver ⟨w, []⟩ w.unsolved [] s.unsolved_nodup all_wait
    exact ⟨failed, turns, stopped⟩
  · intro w' solver' reachable' known_eq same valued'
    exact known_singles_eq_of_perm s reachable'.sound known_eq same valued valued'
  · rintro start mode lines lines' solver' reachable_start rfl permuted valued'
    have entered := (reachable_start.enterAll mode lines').sound
    refine known_singles_eq_of_perm s entered ?_ ?_ valued valued'
    · rw [known_enterAll, known_enterAll]
    · rw [unknowns_enterAll, unknowns_enterAll]
      exact (permuted.filterMap _).append_left _

section Example

def backwards : Worksheet Rational := empty.enterAll .radians ["z = x + y", "x + y = 4", "y = 2"]

theorem backwards_spread :
    Reachable backwards ∧ (backwards.singles twos).1.IsValued ∧
      IsLeast {s | backwards.known ⊆ s ∧ Closed backwards.equations s}
        (backwards.singles twos).1.worksheet.known ∧
      ((empty.enterAll .radians ["y = 2", "z = x + y", "x + y = 4"]).singles
          twos).1.worksheet.known = (backwards.singles twos).1.worksheet.known := by
  have reachable : Reachable backwards := Reachable.empty.enterAll _ _
  have valued : (backwards.singles twos).1.IsValued := by
    unfold Run.IsValued
    decide +kernel
  obtain ⟨least, -, any_order⟩ := (singles_spread reachable twos).2.2 valued
  refine ⟨reachable, valued, least, any_order empty .radians _ _ twos .empty rfl (by decide) ?_⟩
  unfold Run.IsValued
  decide +kernel

end Example

end Simultaneous.Worksheet
