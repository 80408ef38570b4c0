import Simultaneous.Proofs.Worksheet.Solve

/-!
Where the blocks of a run come from: each is what the solver makes of some equations and unknowns of
the worksheet as the blocks before it left it.
-/

namespace Simultaneous.Worksheet

variable {α : Type} [Scalar α]

inductive Traced (solver : BlockSolver α) (w : Worksheet α) : List (SolvedBlock α) → Prop
  | nil : Traced solver w []
  | snoc {blocks : List (SolvedBlock α)} {b : SolvedBlock α} : Traced solver w blocks →
      b = (w.after blocks).solveBlock solver b.equations b.result.unknowns →
        Traced solver w (blocks ++ [b])

variable {solver : BlockSolver α} {w : Worksheet α} {r : Run α}

theorem Traced.solved {blocks earlier later : List (SolvedBlock α)} {b : SolvedBlock α}
    (traced : Traced solver w blocks) (parts : blocks = earlier ++ b :: later) :
    b = (w.after earlier).solveBlock solver b.equations b.result.unknowns := by
  induction traced generalizing later with
  | nil => simp at parts
  | snoc _ solved ih =>
    rcases later.eq_nil_or_concat with rfl | ⟨others, last, rfl⟩
    · obtain ⟨rfl, only⟩ := List.append_inj' parts rfl
      obtain rfl := List.head_eq_of_cons_eq only
      exact solved
    · rw [List.concat_eq_append, ← List.cons_append, ← List.append_assoc] at parts
      exact ih (List.append_inj_left' parts rfl)

theorem Accounts.traced_add (a : w.Accounts r) (traced : Traced solver w r.blocks) {ids : List Nat}
    {unknowns : List String}
    (answers : (r.worksheet.solveBlock solver ids unknowns).result.Answers unknowns) :
    Traced solver w (r.add (r.worksheet.solveBlock solver ids unknowns)).blocks := by
  refine traced.snoc ?_
  rw [answers.unknowns_eq, ← a.worksheet_eq]
  rfl

theorem traced_solveSingles (s : w.Sound) (complete : solver.IsComplete) {waiting : List Nat}
    (p : w.Passes r waiting) (traced : Traced solver w r.blocks) :
    Traced solver w (solveSingles solver r waiting).1.blocks := by
  fun_induction solveSingles solver r waiting with
  | case1 r waiting none => exact traced
  | case2 r waiting id found block ih =>
    have waits := List.mem_of_find?_eq_some found
    have sound := p.accounts.sound s
    exact ih (p.add rfl (sound.fits_single complete (p.unsolved id waits)))
      (p.accounts.traced_add traced
        (answers_solveBlock complete _ _ (sound.distinct_unsolvedIn id)))

theorem Accounts.traced_solveBlocks {blocks : List EquationBlock} (a : w.Accounts r)
    (complete : solver.IsComplete) (planned : r.worksheet.Planned blocks)
    (traced : Traced solver w r.blocks) :
    Traced solver w (blocks.foldl (Worksheet.solveNext solver) r).blocks := by
  induction blocks generalizing r with
  | nil => exact traced
  | cons b later ih =>
    refine ih (a.solveNext complete planned) (planned.solveNext complete) ?_
    cases free : r.worksheet.isBlocked b with
    | true => rwa [solveNext_of_blocked free]
    | false =>
      rw [solveNext_of_free free]
      exact a.traced_add traced (planned.answers complete)

/-- The blocks of a run of a sound worksheet are a trace. -/
theorem Sound.traced_solve (s : w.Sound) (complete : solver.IsComplete) :
    Traced solver w (w.solve solver).blocks :=
  (s.passes_singles complete).accounts.traced_solveBlocks complete (s.planned complete)
    (traced_solveSingles s complete s.passes_start .nil)

end Simultaneous.Worksheet
