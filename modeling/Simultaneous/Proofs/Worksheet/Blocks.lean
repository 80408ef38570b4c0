import Simultaneous.Proofs.Incidence.Decomposition
import Simultaneous.Proofs.Worksheet.Singles

/-!
The pass over blocks. Blocks of a decomposition never share an unknown or an equation, so each fits
when its turn comes, unless it is blocked. As each has all unknowns of its equations that no earlier
block has, none is blocked unless an earlier one failed.
-/

namespace Simultaneous.Worksheet

open scoped List

variable {α : Type}

structure Planned (w : Worksheet α) (blocks : List EquationBlock) : Prop where
  unknowns_nodup : (blocks.flatMap (·.unknowns)).Nodup
  internal : ∀ v ∈ blocks.flatMap (·.unknowns), Name.internal v = v
  fresh : ∀ v ∈ blocks.flatMap (·.unknowns), w.unknowns.isSolved v = false
  equations_nodup : (blocks.flatMap (·.equations)).Nodup
  unsolved : ∀ id ∈ blocks.flatMap (·.equations), id ∈ w.unsolved

def Covered (w : Worksheet α) (blocks : List EquationBlock) : Prop :=
  ∀ k b, blocks[k]? = some b → ∀ id ∈ b.equations, ∀ v ∈ w.unsolvedIn id,
    v ∈ (blocks.take (k + 1)).flatMap (·.unknowns)

theorem isBlocked_eq_false_iff (w : Worksheet α) (b : EquationBlock) :
    w.isBlocked b = false ↔ ∀ id ∈ b.equations, ∀ v ∈ w.unsolvedIn id, v ∈ b.unknowns := by
  simp only [isBlocked, List.any_eq_false, decide_eq_true_eq, Bool.not_eq_true, Decidable.not_not]

theorem Covered.head_free {w : Worksheet α} {b : EquationBlock} {later : List EquationBlock}
    (c : w.Covered (b :: later)) : w.isBlocked b = false := by
  rw [isBlocked_eq_false_iff]
  intro id member v open_
  simpa using c 0 b rfl id member v open_

namespace Planned

variable {w : Worksheet α} {b : EquationBlock} {later : List EquationBlock}

theorem tail (p : w.Planned (b :: later)) : w.Planned later where
  unknowns_nodup := (List.nodup_append.1 p.unknowns_nodup).2.1
  internal := fun v member => p.internal v (List.mem_append_right _ member)
  fresh := fun v member => p.fresh v (List.mem_append_right _ member)
  equations_nodup := (List.nodup_append.1 p.equations_nodup).2.1
  unsolved := fun id member => p.unsolved id (List.mem_append_right _ member)

theorem apply (p : w.Planned (b :: later)) {s : SolvedBlock α} (fits : w.Fits s)
    (unknowns_eq : s.result.unknowns = b.unknowns) (equations_eq : s.equations = b.equations) :
    (w.apply s).Planned later where
  unknowns_nodup := p.tail.unknowns_nodup
  internal := p.tail.internal
  fresh := by
    intro v member
    rw [← Bool.not_eq_true, fits.isSolved_apply, not_or, Bool.not_eq_true,
      p.tail.internal v member]
    refine ⟨p.tail.fresh v member, ?_⟩
    intro written
    have own := (namesWritten_sublist s).subset written
    rw [unknowns_eq] at own
    exact (List.nodup_append.1 p.unknowns_nodup).2.2 v own v member rfl
  equations_nodup := p.tail.equations_nodup
  unsolved := by
    intro id member
    rw [fits.apply_eq]
    refine List.mem_filter.2 ⟨p.tail.unsolved id member, decide_eq_true ?_⟩
    intro written
    have own := (idsWritten_sublist s).subset written
    rw [equations_eq] at own
    exact (List.nodup_append.1 p.equations_nodup).2.2 id own id member rfl

end Planned

/-! ### The blocks of unsolved equations -/

theorem tabulates_unsolvedIn (w : Worksheet α) (ids : List Nat) :
    (Incidence.ofEquations (ids.map fun id => (id, w.unsolvedIn id)) fun _ => true).Tabulates
      (ids.map fun id => (id, w.unsolvedIn id)) := by
  have t := Incidence.tabulates_ofEquations (ids.map fun id => (id, w.unsolvedIn id)) fun _ => true
  simpa only [List.map_map, Function.comp_def, List.filter_true] using t

theorem map_fst_unsolvedIn (w : Worksheet α) (ids : List Nat) :
    (ids.map fun id => (id, w.unsolvedIn id)).map (·.1) = ids := by
  rw [List.map_map]
  exact List.map_id ids

theorem decompose_equations_perm (w : Worksheet α) (limit : Nat) (ids : List Nat) :
    (w.decompose limit ids).blocks.flatMap (·.equations) ++ (w.decompose limit ids).consistency ~
      ids := by
  have perm := Decomposition.blocks_equations_perm
    (Incidence.ofEquations (ids.map fun id => (id, w.unsolvedIn id)) fun _ => true)
    (.standard limit)
  rwa [(w.tabulates_unsolvedIn ids).equations_eq, w.map_fst_unsolvedIn] at perm

theorem Sound.planned_decompose {w : Worksheet α} (s : w.Sound) (limit : Nat) {ids : List Nat}
    (distinct : ids.Nodup) (unsolved : ∀ id ∈ ids, id ∈ w.unsolved) :
    w.Planned (w.decompose limit ids).blocks := by
  have t := w.tabulates_unsolvedIn ids
  have unknowns_perm := Decomposition.blocks_unknowns_perm (.standard limit) t
  have equations_perm := w.decompose_equations_perm limit ids
  have open_of_mem : ∀ v ∈ (w.decompose limit ids).blocks.flatMap (·.unknowns),
      ∃ id, v ∈ w.unsolvedIn id := by
    intro v member
    obtain ⟨e, listed, named⟩ := (t.mem_unknowns v).1 (unknowns_perm.subset member)
    obtain ⟨id, _, rfl⟩ := List.mem_map.1 listed
    exact ⟨id, named⟩
  refine ⟨unknowns_perm.nodup_iff.2 t.unknowns_nodup, ?_, ?_,
    (List.nodup_append.1 (equations_perm.nodup_iff.2 distinct)).1, ?_⟩
  · intro v member
    obtain ⟨id, open_⟩ := open_of_mem v member
    exact (s.of_mem_unsolvedIn open_).1
  · intro v member
    obtain ⟨id, open_⟩ := open_of_mem v member
    exact (s.of_mem_unsolvedIn open_).2
  · exact fun id member => unsolved id (equations_perm.subset (List.mem_append_left _ member))

theorem covered_decompose (w : Worksheet α) (limit : Nat) {ids : List Nat}
    (distinct : ids.Nodup) : w.Covered (w.decompose limit ids).blocks := by
  have t := w.tabulates_unsolvedIn ids
  have distinct_table := distinct
  rw [← w.map_fst_unsolvedIn ids] at distinct_table
  intro k b found id member v open_
  have listed : id ∈ ids := (w.decompose_equations_perm limit ids).subset (List.mem_append_left _
    (List.mem_flatMap.2 ⟨b, List.mem_of_getElem? found, member⟩))
  have own := Decomposition.mem_block_unknowns_iff (.standard limit) t distinct_table found v
  rw [List.take_add_one, List.flatMap_append, List.mem_append, found, Option.toList_some,
    List.flatMap_singleton]
  by_cases earlier : v ∈ ((w.decompose limit ids).blocks.take k).flatMap (·.unknowns)
  · exact .inl earlier
  · exact .inr (own.2 ⟨⟨(id, w.unsolvedIn id), List.mem_map_of_mem listed, member, open_⟩, earlier⟩)

theorem mem_decompose_unknowns (w : Worksheet α) (limit : Nat) {ids : List Nat} {id : Nat}
    (listed : id ∈ ids) {v : String} (open_ : v ∈ w.unsolvedIn id) :
    v ∈ (w.decompose limit ids).blocks.flatMap (·.unknowns) :=
  Decomposition.mem_blocks_unknowns (.standard limit) (w.tabulates_unsolvedIn ids)
    (List.mem_map_of_mem listed) open_

theorem decompose_of_settled (w : Worksheet α) (limit : Nat) (ids : List Nat)
    (settled : ∀ id, w.unsolvedIn id = []) : (w.decompose limit ids).blocks = [] := by
  apply Decomposition.blocks_of_nameless (.standard limit) (w.tabulates_unsolvedIn ids)
  intro e member
  obtain ⟨id, _, rfl⟩ := List.mem_map.1 member
  exact settled id

/-! ### The turns of blocks -/

variable [Scalar α] {solver : BlockSolver α}

section Planned

variable {w : Worksheet α} {b : EquationBlock} {later : List EquationBlock}

theorem Planned.answers (p : w.Planned (b :: later)) (complete : solver.IsComplete) :
    (w.solveBlock solver b.equations b.unknowns).result.Answers b.unknowns :=
  answers_solveBlock complete w b.equations (List.nodup_append.1 p.unknowns_nodup).1

theorem Planned.fits (p : w.Planned (b :: later)) (complete : solver.IsComplete)
    (free : w.isBlocked b = false) : w.Fits (w.solveBlock solver b.equations b.unknowns) := by
  have head : ∀ v ∈ b.unknowns, v ∈ (b :: later).flatMap (·.unknowns) :=
    fun v member => List.mem_append_left _ member
  exact fits_solveBlock complete w (List.nodup_append.1 p.unknowns_nodup).1
    (fun v member => p.internal v (head v member)) (fun v member => p.fresh v (head v member))
    (List.nodup_append.1 p.equations_nodup).1
    (fun id member => p.unsolved id (List.mem_append_left _ member))
    ((w.isBlocked_eq_false_iff b).1 free)

end Planned

theorem solveNext_of_free {r : Run α} {b : EquationBlock} (free : r.worksheet.isBlocked b = false) :
    solveNext solver r b = r.add (r.worksheet.solveBlock solver b.equations b.unknowns) := by
  rw [solveNext, free]
  exact if_neg Bool.false_ne_true

theorem solveNext_of_blocked {r : Run α} {b : EquationBlock}
    (blocked : r.worksheet.isBlocked b = true) : solveNext solver r b = r := by
  rw [solveNext, blocked, if_pos rfl]

theorem Planned.solveNext {r : Run α} {b : EquationBlock} {later : List EquationBlock}
    (p : r.worksheet.Planned (b :: later)) (complete : solver.IsComplete) :
    (solveNext solver r b).worksheet.Planned later := by
  cases free : r.worksheet.isBlocked b with
  | true =>
    rw [solveNext_of_blocked free]
    exact p.tail
  | false =>
    rw [solveNext_of_free free]
    exact p.apply (p.fits complete free) (p.answers complete).unknowns_eq rfl

theorem Accounts.solveNext {w : Worksheet α} {r : Run α} {b : EquationBlock}
    {later : List EquationBlock} (a : w.Accounts r) (complete : solver.IsComplete)
    (planned : r.worksheet.Planned (b :: later)) : w.Accounts (solveNext solver r b) := by
  cases free : r.worksheet.isBlocked b with
  | true => rwa [solveNext_of_blocked free]
  | false =>
    rw [solveNext_of_free free]
    exact a.add (planned.fits complete free)

/-- The turns of all planned blocks keep the account. -/
theorem Accounts.solveBlocks {w : Worksheet α} {r : Run α} {blocks : List EquationBlock}
    (a : w.Accounts r) (complete : solver.IsComplete) (planned : r.worksheet.Planned blocks) :
    w.Accounts (blocks.foldl (Worksheet.solveNext solver) r) := by
  induction blocks generalizing r with
  | nil => exact a
  | cons b later ih => exact ih (a.solveNext complete planned) (planned.solveNext complete)

theorem prefix_solveNext (r : Run α) (b : EquationBlock) :
    r.blocks <+: (solveNext solver r b).blocks := by
  unfold solveNext
  split
  next => exact List.prefix_rfl
  next => exact List.prefix_append _ _

theorem prefix_solveBlocks (r : Run α) (blocks : List EquationBlock) :
    r.blocks <+: (blocks.foldl (solveNext solver) r).blocks := by
  induction blocks generalizing r with
  | nil => exact List.prefix_rfl
  | cons b later ih => exact (prefix_solveNext r b).trans (ih _)

/-! ### Runs in which no block fails -/

theorem Covered.solveNext {r : Run α} {b : EquationBlock} {later : List EquationBlock}
    (c : r.worksheet.Covered (b :: later)) (planned : r.worksheet.Planned (b :: later))
    (complete : solver.IsComplete) (fine : (solveNext solver r b).IsFine) :
    (Worksheet.solveNext solver r b).worksheet.Covered later := by
  have fits := planned.fits complete c.head_free
  have answers := planned.answers complete
  rw [solveNext_of_free c.head_free] at fine ⊢
  have values := fine.hasValues (Run.mem_blocks_add _ _)
  intro k next found id member v open_
  obtain ⟨open_before, unwritten⟩ := (fits.mem_unsolvedIn_apply id v).1 open_
  have covered := c (k + 1) next found id member v open_before
  rw [List.take_succ_cons, List.flatMap_cons, List.mem_append] at covered
  rcases covered with own | other
  · rw [namesWritten, written_of_values values, List.flatMap_singleton, answers.unknowns_eq,
      planned.internal v (List.mem_append_left _ own)] at unwritten
    exact absurd own unwritten
  · exact other

/-- In a run in which no block fails none is blocked. -/
theorem free_of_fine {r : Run α} {blocks : List EquationBlock} (complete : solver.IsComplete)
    (planned : r.worksheet.Planned blocks) (covered : r.worksheet.Covered blocks)
    (fine : (blocks.foldl (solveNext solver) r).IsFine) {earlier later : List EquationBlock}
    {b : EquationBlock} (parts : blocks = earlier ++ b :: later) :
    (earlier.foldl (solveNext solver) r).worksheet.isBlocked b = false := by
  -- on the blocks that had their turn before, carrying that the remaining ones cover themselves
  induction earlier generalizing r blocks with
  | nil =>
    subst parts
    exact covered.head_free
  | cons first others ih =>
    subst parts
    have first_fine := fine.of_prefix (prefix_solveBlocks (solveNext solver r first) _)
    exact ih (planned.solveNext complete) (covered.solveNext planned complete first_fine) fine rfl

end Simultaneous.Worksheet
