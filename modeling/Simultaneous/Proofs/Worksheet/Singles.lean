import Simultaneous.Proofs.Worksheet.Sound

/-!
The pass over equations with one open unknown. It keeps the account of the run and does not lose an
equation: one that is unsolved after it is still waiting, unless a block failed.
-/

namespace Simultaneous.Worksheet

variable {α : Type}

def Run.IsFine (r : Run α) : Prop := ∀ b ∈ r.blocks, b.result.outcome.isError = false

theorem Run.IsFine.of_prefix {r r' : Run α} (fine : r'.IsFine) (first : r.blocks <+: r'.blocks) :
    r.IsFine :=
  fun b member => fine b (first.subset member)

theorem Run.IsFine.hasValues {r : Run α} (fine : r.IsFine) {b : SolvedBlock α}
    (tried : b ∈ r.blocks) : b.result.outcome.hasValues = true := by
  have no_error := fine b tried
  rwa [Outcome.isError_eq, Bool.not_eq_false'] at no_error

theorem Run.mem_blocks_add (r : Run α) (b : SolvedBlock α) : b ∈ (r.add b).blocks :=
  List.mem_append_right _ (List.mem_singleton_self b)

variable [Scalar α] {solver : BlockSolver α}

theorem answers_solveBlock (complete : solver.IsComplete) (w : Worksheet α) (ids : List Nat)
    {unknowns : List String} (distinct : unknowns.Nodup) :
    (w.solveBlock solver ids unknowns).result.Answers unknowns :=
  BlockSolver.answers_solve complete _ _ distinct _ _

/-- The result of unsolved equations fits, if it is for distinct unknowns without values that are
all that the equations have open. -/
theorem fits_solveBlock (complete : solver.IsComplete) (w : Worksheet α) {ids : List Nat}
    {unknowns : List String} (distinct : unknowns.Nodup)
    (internal : ∀ v ∈ unknowns, Name.internal v = v)
    (fresh : ∀ v ∈ unknowns, w.unknowns.isSolved v = false) (ids_nodup : ids.Nodup)
    (unsolved : ∀ id ∈ ids, id ∈ w.unsolved)
    (covers : ∀ id ∈ ids, ∀ v ∈ w.unsolvedIn id, v ∈ unknowns) :
    w.Fits (w.solveBlock solver ids unknowns) := by
  have answers := answers_solveBlock complete w ids distinct
  have same : (w.solveBlock solver ids unknowns).result.unknowns = unknowns := answers.unknowns_eq
  refine ⟨?_, ?_, ?_, ?_, ids_nodup, unsolved, ?_⟩
  · rw [same]
    exact answers.length_values
  · rwa [same]
  · rwa [same]
  · rwa [same]
  · rwa [same]

theorem Sound.fits_single {w : Worksheet α} (s : w.Sound) (complete : solver.IsComplete) {id : Nat}
    (unsolved : id ∈ w.unsolved) : w.Fits (w.solveBlock solver [id] (w.unsolvedIn id)) := by
  apply fits_solveBlock complete w (s.distinct_unsolvedIn id)
  · exact fun v member => (s.of_mem_unsolvedIn member).1
  · exact fun v member => (s.of_mem_unsolvedIn member).2
  · exact List.nodup_singleton id
  · intro other member
    rwa [List.mem_singleton.1 member]
  · intro other member v open_
    rwa [List.mem_singleton.1 member] at open_

/-- Where the pass over single equations stands: no equation waits twice or without need, and every
unsolved equation waits, unless a block failed. -/
structure Passes (w : Worksheet α) (r : Run α) (waiting : List Nat) : Prop where
  accounts : w.Accounts r
  nodup : waiting.Nodup
  unsolved : ∀ id ∈ waiting, id ∈ r.worksheet.unsolved
  all : r.IsFine → ∀ id ∈ r.worksheet.unsolved, id ∈ waiting

omit [Scalar α] in
theorem Sound.passes_start {w : Worksheet α} (s : w.Sound) : w.Passes ⟨w, []⟩ w.unsolved where
  accounts := w.accounts_start
  nodup := s.unsolved_nodup
  unsolved := fun _ member => member
  all := fun _ _ member => member

omit [Scalar α] in
theorem Passes.add {w : Worksheet α} {r : Run α} {waiting : List Nat} (p : w.Passes r waiting)
    {id : Nat} {b : SolvedBlock α} (single : b.equations = [id]) (fits : r.worksheet.Fits b) :
    w.Passes (r.add b) (waiting.erase id) where
  accounts := p.accounts.add fits
  nodup := p.nodup.erase id
  unsolved := by
    intro other member
    obtain ⟨different, waits⟩ := (p.nodup.mem_erase_iff).1 member
    have kept : other ∉ idsWritten [b] := by
      intro written
      have own := (idsWritten_sublist b).subset written
      rw [single, List.mem_singleton] at own
      exact different own
    rw [Run.add, fits.apply_eq]
    exact List.mem_filter.2 ⟨p.unsolved other waits, decide_eq_true kept⟩
  all := by
    intro fine other member
    have values := fine.hasValues (r.mem_blocks_add b)
    rw [Run.add, fits.apply_eq] at member
    obtain ⟨unsolved, kept⟩ := List.mem_filter.1 member
    rw [decide_eq_true_eq, idsWritten, written_of_values values, List.flatMap_singleton, single,
      List.mem_singleton] at kept
    exact (p.nodup.mem_erase_iff).2
      ⟨kept, p.all (fine.of_prefix (List.prefix_append _ _)) other unsolved⟩

theorem passes_solveSingles {w : Worksheet α} (s : w.Sound) (complete : solver.IsComplete)
    {r : Run α} {waiting : List Nat} (p : w.Passes r waiting) :
    w.Passes (solveSingles solver r waiting).1 (solveSingles solver r waiting).2 := by
  fun_induction solveSingles solver r waiting with
  | case1 r waiting none => exact p
  | case2 r waiting id found block ih =>
    have waits := List.mem_of_find?_eq_some found
    exact ih (p.add rfl ((p.accounts.sound s).fits_single complete (p.unsolved id waits)))

theorem solveSingles_of_settled (r : Run α) (waiting : List Nat)
    (settled : ∀ id, r.worksheet.unsolvedIn id = []) :
    solveSingles solver r waiting = (r, waiting) := by
  have none_single : nextSingle? r.worksheet waiting = none := by
    apply List.find?_eq_none.2
    intro id _
    rw [settled id]
    decide
  rw [solveSingles]
  split
  next => rfl
  next id found =>
    rw [none_single] at found
    cases found

end Simultaneous.Worksheet
