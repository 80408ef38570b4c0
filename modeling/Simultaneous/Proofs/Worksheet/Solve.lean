import Simultaneous.Proofs.Worksheet.Blocks

/-!
Solving a worksheet: the pass over single equations, and the pass over the blocks of what it leaves.
A sound worksheet stays sound and the run keeps its account; a run in which no block fails solves
everything, and there is nothing left for a second one.
-/

namespace Simultaneous.Worksheet

variable {α : Type} [Scalar α] (solver : BlockSolver α) (w : Worksheet α)

def singles : Run α × List Nat := solveSingles solver ⟨w, []⟩ w.unsolved

def planned : List EquationBlock :=
  ((w.singles solver).1.worksheet.decompose solver.settings.startCandidates
    (w.singles solver).2).blocks

theorem solve_eq :
    w.solve solver = (w.planned solver).foldl (solveNext solver) (w.singles solver).1 := rfl

theorem prefix_solve : (w.singles solver).1.blocks <+: (w.solve solver).blocks :=
  prefix_solveBlocks _ _

variable {solver w}

theorem Sound.passes_singles (s : w.Sound) (complete : solver.IsComplete) :
    w.Passes (w.singles solver).1 (w.singles solver).2 :=
  passes_solveSingles s complete s.passes_start

theorem Sound.singles (s : w.Sound) (complete : solver.IsComplete) :
    (w.singles solver).1.worksheet.Sound :=
  (s.passes_singles complete).accounts.sound s

theorem Sound.planned (s : w.Sound) (complete : solver.IsComplete) :
    (w.singles solver).1.worksheet.Planned (w.planned solver) :=
  (s.singles complete).planned_decompose _ (s.passes_singles complete).nodup
    (s.passes_singles complete).unsolved

theorem Sound.accounts_solve (s : w.Sound) (complete : solver.IsComplete) :
    w.Accounts (w.solve solver) :=
  (s.passes_singles complete).accounts.solveBlocks complete (s.planned complete)

theorem Sound.solve (s : w.Sound) (complete : solver.IsComplete) :
    (w.solve solver).worksheet.Sound :=
  (s.accounts_solve complete).sound s

theorem Sound.free_of_fine (s : w.Sound) (complete : solver.IsComplete)
    (fine : (w.solve solver).IsFine) {earlier later : List EquationBlock} {b : EquationBlock}
    (parts : w.planned solver = earlier ++ b :: later) :
    (earlier.foldl (solveNext solver) (w.singles solver).1).worksheet.isBlocked b = false :=
  Worksheet.free_of_fine complete (s.planned complete)
    (covered_decompose _ _ (s.passes_singles complete).nodup) fine parts

theorem Sound.exists_tried (s : w.Sound) (complete : solver.IsComplete)
    (fine : (w.solve solver).IsFine) {b : EquationBlock} (member : b ∈ w.planned solver) :
    ∃ t ∈ (w.solve solver).blocks, t.result.unknowns = b.unknowns := by
  obtain ⟨earlier, later, parts⟩ := List.append_of_mem member
  have free := s.free_of_fine complete fine parts
  have distinct : b.unknowns.Nodup :=
    (List.nodup_flatMap.1 (s.planned complete).unknowns_nodup).1 b member
  let r := earlier.foldl (solveNext solver) (w.singles solver).1
  have tried : (solveNext solver r b).blocks <+: (w.solve solver).blocks := by
    rw [solve_eq, parts, List.foldl_append, List.foldl_cons]
    exact prefix_solveBlocks _ _
  refine ⟨r.worksheet.solveBlock solver b.equations b.unknowns, tried.subset ?_, ?_⟩
  · rw [solveNext_of_free free]
    exact Run.mem_blocks_add _ _
  · exact (answers_solveBlock complete _ _ distinct).unknowns_eq

omit [Scalar α] in
theorem Accounts.isSolved_of_fine {r : Run α} (a : w.Accounts r) (fine : r.IsFine)
    {b : SolvedBlock α} (tried : b ∈ r.blocks) {v : String} (member : v ∈ b.result.unknowns) :
    r.worksheet.unknowns.isSolved v = true := by
  have written : v ∈ namesWritten r.blocks :=
    List.mem_flatMap.2 ⟨b, List.mem_filter.2 ⟨tried, fine.hasValues tried⟩, member⟩
  rw [a.worksheet_eq, w.isSolved_after a.filled, a.internal v written]
  exact .inr written

theorem Sound.mem_unsolvedIn_singles (s : w.Sound) (complete : solver.IsComplete) {id : Nat}
    {v : String} (still : v ∈ (w.solve solver).worksheet.unsolvedIn id) :
    v ∈ (w.singles solver).1.worksheet.unsolvedIn id := by
  have whole := s.accounts_solve complete
  have first := (s.passes_singles complete).accounts
  obtain ⟨rest, blocks_eq⟩ := w.prefix_solve solver
  rw [whole.worksheet_eq, ← blocks_eq, ← after_append, ← first.worksheet_eq] at still
  have filled : Filled rest := by
    intro b member
    apply whole.filled b
    rw [← blocks_eq]
    exact List.mem_append_right _ member
  exact ((mem_unsolvedIn_after _ filled id v).1 still).1

/-- If no block fails, no equation has an open unknown after the run. -/
theorem Sound.unsolvedIn_of_fine (s : w.Sound) (complete : solver.IsComplete)
    (fine : (w.solve solver).IsFine) (id : Nat) :
    (w.solve solver).worksheet.unsolvedIn id = [] := by
  rw [List.eq_nil_iff_forall_not_mem]
  intro v still
  -- an unknown still open now was open when the blocks were made, and one of them was for it
  have open_ := s.mem_unsolvedIn_singles complete still
  have waiting : id ∈ (w.singles solver).2 := by
    apply (s.passes_singles complete).all (fine.of_prefix (w.prefix_solve solver))
    by_contra done
    rw [(s.singles complete).settled id done] at open_
    cases open_
  obtain ⟨b, member, own⟩ := List.mem_flatMap.1
    (mem_decompose_unknowns _ solver.settings.startCandidates waiting open_)
  obtain ⟨t, tried, unknowns_eq⟩ := s.exists_tried complete fine member
  have solved := (s.accounts_solve complete).isSolved_of_fine fine tried (unknowns_eq ▸ own)
  obtain ⟨e, _, _, fresh⟩ := (mem_unsolvedIn _ id v).1 still
  rw [fresh] at solved
  cases solved

theorem solve_of_settled (settled : ∀ id, w.unsolvedIn id = []) : w.solve solver = ⟨w, []⟩ := by
  have none_single : w.singles solver = (⟨w, []⟩, w.unsolved) :=
    solveSingles_of_settled _ _ settled
  have none_planned : w.planned solver = [] := by
    rw [Worksheet.planned, none_single]
    exact decompose_of_settled _ _ _ settled
  rw [solve_eq, none_planned, none_single, List.foldl_nil]

end Simultaneous.Worksheet
