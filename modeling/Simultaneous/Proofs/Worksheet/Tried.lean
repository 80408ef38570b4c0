import Simultaneous.Proofs.Incidence.Remaining
import Simultaneous.Proofs.Worksheet.Reachable
import Simultaneous.Proofs.Worksheet.Trace

/-!
The blocks that are tried, each with the worksheet that it is tried on: the unknowns of a block are
all that its equations have open there, and the block never has more equations than unknowns.
-/

namespace Simultaneous.Worksheet

variable {α : Type}

structure Tried (w : Worksheet α) (b : SolvedBlock α) : Prop where
  sound : w.Sound
  fits : w.Fits b
  few : b.equations.length ≤ b.result.unknowns.length

def EachTried (w : Worksheet α) (blocks : List (SolvedBlock α)) : Prop :=
  ∀ earlier b later, blocks = earlier ++ b :: later → (w.after earlier).Tried b

theorem eachTried_nil (w : Worksheet α) : w.EachTried [] := by
  intro earlier b later parts
  simp at parts

variable {w : Worksheet α} {r : Run α} {b : SolvedBlock α}

theorem EachTried.add (each : w.EachTried r.blocks) (a : w.Accounts r)
    (tried : r.worksheet.Tried b) : w.EachTried (r.add b).blocks := by
  intro earlier c later parts
  rcases later.eq_nil_or_concat with rfl | ⟨others, last, rfl⟩
  · obtain ⟨rfl, only⟩ := List.append_inj' parts rfl
    obtain rfl := List.head_eq_of_cons_eq only
    rwa [a.worksheet_eq] at tried
  · rw [List.concat_eq_append, ← List.cons_append, ← List.append_assoc] at parts
    exact each earlier c others (List.append_inj_left' parts rfl)

theorem Tried.lt_length (tried : w.Tried b) {id : Nat} (member : id ∈ b.equations) :
    id < w.equations.length := by
  have waits := List.mem_append_right w.solved (tried.fits.equations_unsolved id member)
  exact List.mem_range.1 (tried.sound.partition.subset waits)

theorem Tried.length_residualsOf (tried : w.Tried b) :
    (w.residualsOf b.equations).length = b.equations.length := by
  have inside : ∀ id ∈ b.equations, id < w.equations.length := fun id => tried.lt_length
  rw [residualsOf, ← List.map_filterMap, List.length_map]
  exact Decomposition.length_entriesAt inside

variable [Scalar α] {solver : BlockSolver α}

theorem Sound.tried_single (s : w.Sound) (complete : solver.IsComplete) {id : Nat}
    (unsolved : id ∈ w.unsolved) (single : (w.unsolvedIn id).length = 1) :
    w.Tried (w.solveBlock solver [id] (w.unsolvedIn id)) where
  sound := s
  fits := s.fits_single complete unsolved
  few := by
    rw [(answers_solveBlock complete w [id] (s.distinct_unsolvedIn id)).unknowns_eq, single]
    exact Nat.le_refl 1

theorem eachTried_solveSingles (s : w.Sound) (complete : solver.IsComplete) {waiting : List Nat}
    (p : w.Passes r waiting) (each : w.EachTried r.blocks) :
    w.EachTried (solveSingles solver r waiting).1.blocks := by
  fun_induction solveSingles solver r waiting with
  | case1 r waiting none => exact each
  | case2 r waiting id found block ih =>
    have waits := List.mem_of_find?_eq_some found
    have single : (r.worksheet.unsolvedIn id).length = 1 := by
      simpa using List.find?_some found
    have tried := (p.accounts.sound s).tried_single complete (p.unsolved id waits) single
    exact ih (p.add rfl tried.fits) (each.add p.accounts tried)

theorem Accounts.eachTried_solveBlocks {blocks : List EquationBlock} (a : w.Accounts r)
    (s : w.Sound) (complete : solver.IsComplete) (planned : r.worksheet.Planned blocks)
    (few : ∀ b ∈ blocks, b.equations.length ≤ b.unknowns.length)
    (each : w.EachTried r.blocks) :
    w.EachTried (blocks.foldl (Worksheet.solveNext solver) r).blocks := by
  induction blocks generalizing r with
  | nil => exact each
  | cons b later ih =>
    refine ih (a.solveNext complete planned) (planned.solveNext complete)
      (fun c member => few c (List.mem_cons_of_mem b member)) ?_
    cases free : r.worksheet.isBlocked b with
    | true => rwa [solveNext_of_blocked free]
    | false =>
      rw [solveNext_of_free free]
      refine each.add a ⟨a.sound s, planned.fits complete free, ?_⟩
      rw [(planned.answers complete).unknowns_eq]
      exact few b List.mem_cons_self

/-- No planned block has more equations than unknowns. -/
theorem length_equations_le_of_planned (w : Worksheet α) (solver : BlockSolver α)
    {b : EquationBlock} (member : b ∈ w.planned solver) :
    b.equations.length ≤ b.unknowns.length :=
  Decomposition.length_equations_le _ _ _ member

/-- All blocks of a run of a sound worksheet were tried as they should. -/
theorem Sound.eachTried_solve (s : w.Sound) (complete : solver.IsComplete) :
    w.EachTried (w.solve solver).blocks :=
  (s.passes_singles complete).accounts.eachTried_solveBlocks s complete (s.planned complete)
    (fun _ => w.length_equations_le_of_planned solver)
    (eachTried_solveSingles s complete s.passes_start w.eachTried_nil)

end Simultaneous.Worksheet
