import Simultaneous.Proofs.Block
import Simultaneous.Proofs.Unknowns

/-!
The account of a run: what becomes of a worksheet, told by the blocks that were tried and their
outcomes alone. A run keeps its account as long as every block fits the worksheet at the time it is
taken over: its unknowns have no values yet and its equations wait to be solved.
-/

namespace Simultaneous.Worksheet

variable {α : Type}

def written (blocks : List (SolvedBlock α)) : List (SolvedBlock α) :=
  blocks.filter (·.result.outcome.hasValues)

def namesWritten (blocks : List (SolvedBlock α)) : List String :=
  (written blocks).flatMap (·.result.unknowns)

def idsWritten (blocks : List (SolvedBlock α)) : List Nat := (written blocks).flatMap (·.equations)

def valuesWritten (blocks : List (SolvedBlock α)) : Assoc α :=
  (written blocks).flatMap fun b => b.result.unknowns.zip b.result.values

def Filled (blocks : List (SolvedBlock α)) : Prop :=
  ∀ b ∈ blocks, b.result.outcome.hasValues → b.result.values.length = b.result.unknowns.length

/-- A worksheet after some blocks were tried. The unknowns of blocks with values are closed and
their values added, the equations of these blocks go from the unsolved to the solved ones, and
errors are flagged; all else stays. -/
def after (w : Worksheet α) (blocks : List (SolvedBlock α)) : Worksheet α :=
  { w with
    unknowns :=
      { w.unknowns with
        pending := w.unknowns.pending.filter (·.name ∉ namesWritten blocks)
        solved := w.unknowns.solved ++ valuesWritten blocks }
    unsolved := w.unsolved.filter (· ∉ idsWritten blocks)
    solved := w.solved ++ idsWritten blocks
    failed := w.failed || blocks.any (·.result.outcome.isError)
    timedOut := w.timedOut || blocks.any (·.result.outcome.isTimeout) }

theorem written_append (blocks later : List (SolvedBlock α)) :
    written (blocks ++ later) = written blocks ++ written later :=
  List.filter_append ..

theorem namesWritten_append (blocks later : List (SolvedBlock α)) :
    namesWritten (blocks ++ later) = namesWritten blocks ++ namesWritten later := by
  rw [namesWritten, written_append, List.flatMap_append]
  rfl

theorem idsWritten_append (blocks later : List (SolvedBlock α)) :
    idsWritten (blocks ++ later) = idsWritten blocks ++ idsWritten later := by
  rw [idsWritten, written_append, List.flatMap_append]
  rfl

theorem valuesWritten_append (blocks later : List (SolvedBlock α)) :
    valuesWritten (blocks ++ later) = valuesWritten blocks ++ valuesWritten later := by
  rw [valuesWritten, written_append, List.flatMap_append]
  rfl

theorem filter_notMem_append {β γ : Type} [DecidableEq γ] (f : β → γ) (xs : List β)
    (first later : List γ) :
    (xs.filter (f · ∉ first)).filter (f · ∉ later) = xs.filter (f · ∉ first ++ later) := by
  rw [List.filter_filter]
  apply List.filter_congr
  intro x _
  rw [Bool.eq_iff_iff]
  simp only [Bool.and_eq_true, decide_eq_true_eq, List.mem_append, not_or]
  exact and_comm

theorem filter_notMem_nil {β γ : Type} [DecidableEq γ] (f : β → γ) (xs : List β) :
    xs.filter (f · ∉ ([] : List γ)) = xs :=
  List.filter_eq_self.2 fun _ _ => decide_eq_true List.not_mem_nil

theorem after_nil (w : Worksheet α) : w.after [] = w := by
  have names : namesWritten ([] : List (SolvedBlock α)) = [] := rfl
  have ids : idsWritten ([] : List (SolvedBlock α)) = [] := rfl
  have values : valuesWritten ([] : List (SolvedBlock α)) = [] := rfl
  have unsolved : w.unsolved.filter (· ∉ ([] : List Nat)) = w.unsolved := filter_notMem_nil id _
  simp only [after, names, ids, values, unsolved, filter_notMem_nil, List.append_nil,
    List.any_nil, Bool.or_false]

theorem after_append (w : Worksheet α) (blocks later : List (SolvedBlock α)) :
    (w.after blocks).after later = w.after (blocks ++ later) := by
  have unsolved := filter_notMem_append id w.unsolved (idsWritten blocks) (idsWritten later)
  simp only [id_eq] at unsolved
  simp only [after, filter_notMem_append, unsolved, namesWritten_append, idsWritten_append,
    valuesWritten_append, List.append_assoc, List.any_append, Bool.or_assoc]

theorem written_of_values {b : SolvedBlock α} (values : b.result.outcome.hasValues = true) :
    written [b] = [b] := by
  simp only [written, List.filter_cons, values, if_true, List.filter_nil]

theorem written_of_none {b : SolvedBlock α} (none : b.result.outcome.hasValues = false) :
    written [b] = [] := by
  simp only [written, List.filter_cons, none, Bool.false_eq_true, if_false, List.filter_nil]

theorem namesWritten_sublist (b : SolvedBlock α) :
    (namesWritten [b]).Sublist b.result.unknowns := by
  cases values : b.result.outcome.hasValues with
  | true => rw [namesWritten, written_of_values values, List.flatMap_singleton]
  | false =>
    rw [namesWritten, written_of_none values]
    exact List.nil_sublist _

theorem idsWritten_sublist (b : SolvedBlock α) : (idsWritten [b]).Sublist b.equations := by
  cases values : b.result.outcome.hasValues with
  | true => rw [idsWritten, written_of_values values, List.flatMap_singleton]
  | false =>
    rw [idsWritten, written_of_none values]
    exact List.nil_sublist _

theorem mem_namesWritten_of_mem_idsWritten {b : SolvedBlock α} {id : Nat}
    (solves : id ∈ idsWritten [b]) {v : String} (member : v ∈ b.result.unknowns) :
    v ∈ namesWritten [b] := by
  cases values : b.result.outcome.hasValues with
  | true => rwa [namesWritten, written_of_values values, List.flatMap_singleton]
  | false =>
    rw [idsWritten, written_of_none values] at solves
    cases solves

/-- A block that may be taken over: its unknowns are those without a value in its equations, and
these wait to be solved. -/
structure Fits (w : Worksheet α) (b : SolvedBlock α) : Prop where
  length_values : b.result.outcome.hasValues → b.result.values.length = b.result.unknowns.length
  unknowns_nodup : b.result.unknowns.Nodup
  internal : ∀ v ∈ b.result.unknowns, Name.internal v = v
  fresh : ∀ v ∈ b.result.unknowns, w.unknowns.isSolved v = false
  equations_nodup : b.equations.Nodup
  equations_unsolved : ∀ id ∈ b.equations, id ∈ w.unsolved
  covers : ∀ id ∈ b.equations, ∀ v ∈ w.unsolvedIn id, v ∈ b.result.unknowns

theorem Fits.apply_eq {w : Worksheet α} {b : SolvedBlock α} (fits : w.Fits b) :
    w.apply b = w.after [b] := by
  cases values : b.result.outcome.hasValues with
  | true =>
    have record := record_eq w.unknowns fits.unknowns_nodup fits.internal fits.fresh
      (fits.length_values values)
    have all : b.equations.filter (· ∈ w.unsolved) = b.equations :=
      List.filter_eq_self.2 fun id member => decide_eq_true (fits.equations_unsolved id member)
    simp only [apply, values, if_true, after, namesWritten, idsWritten, valuesWritten,
      written_of_values values, List.flatMap_singleton, record, all, List.any_cons,
      List.any_nil, Bool.or_false]
  | false =>
    have unsolved : w.unsolved.filter (· ∉ ([] : List Nat)) = w.unsolved := filter_notMem_nil id _
    simp only [apply, values, Bool.false_eq_true, if_false, after, namesWritten, idsWritten,
      valuesWritten, written_of_none values, List.flatMap_nil, filter_notMem_nil, unsolved,
      List.append_nil, List.any_cons, List.any_nil, Bool.or_false]

theorem map_valuesWritten {blocks : List (SolvedBlock α)} (filled : Filled blocks) :
    (valuesWritten blocks).map (·.1) = namesWritten blocks := by
  rw [valuesWritten, namesWritten, List.map_flatMap]
  apply List.flatMap_congr
  intro b member
  obtain ⟨tried, values⟩ := List.mem_filter.1 member
  exact List.map_fst_zip (Nat.le_of_eq (filled b tried values).symm)

theorem isSolved_after (w : Worksheet α) {blocks : List (SolvedBlock α)} (filled : Filled blocks)
    (v : String) :
    (w.after blocks).unknowns.isSolved v ↔
      w.unknowns.isSolved v ∨ Name.internal v ∈ namesWritten blocks := by
  rw [Unknowns.isSolved_eq, Unknowns.isSolved_eq, after, Assoc.get?_append, Option.isSome_or,
    Bool.or_eq_true, Assoc.isSome_get?_iff (valuesWritten blocks), map_valuesWritten filled]

theorem mem_unsolvedIn (w : Worksheet α) (id : Nat) (v : String) :
    v ∈ w.unsolvedIn id ↔
      ∃ e, w.equations[id]? = some e ∧ v ∈ e.unknowns ∧ w.unknowns.isSolved v = false := by
  unfold unsolvedIn
  split
  next absent => simp only [absent, reduceCtorEq, false_and, exists_false, List.not_mem_nil]
  next e entry =>
    simp only [entry, Option.some.injEq, exists_eq_left', List.mem_filter, Bool.not_eq_true']

theorem mem_unsolvedIn_after (w : Worksheet α) {blocks : List (SolvedBlock α)}
    (filled : Filled blocks) (id : Nat) (v : String) :
    v ∈ (w.after blocks).unsolvedIn id ↔
      v ∈ w.unsolvedIn id ∧ Name.internal v ∉ namesWritten blocks := by
  simp only [mem_unsolvedIn, ← Bool.not_eq_true, w.isSolved_after filled, not_or]
  constructor
  · rintro ⟨e, entry, named, fresh, unwritten⟩
    exact ⟨⟨e, entry, named, fresh⟩, unwritten⟩
  · rintro ⟨⟨e, entry, named, fresh⟩, unwritten⟩
    exact ⟨e, entry, named, fresh, unwritten⟩

structure Accounts (w : Worksheet α) (r : Run α) : Prop where
  worksheet_eq : r.worksheet = w.after r.blocks
  filled : Filled r.blocks
  names_nodup : (namesWritten r.blocks).Nodup
  internal : ∀ v ∈ namesWritten r.blocks, Name.internal v = v
  fresh : ∀ v ∈ namesWritten r.blocks, w.unknowns.isSolved v = false
  ids_nodup : (idsWritten r.blocks).Nodup
  ids_unsolved : ∀ id ∈ idsWritten r.blocks, id ∈ w.unsolved
  settled : ∀ id ∈ idsWritten r.blocks, r.worksheet.unsolvedIn id = []

theorem accounts_start (w : Worksheet α) : w.Accounts ⟨w, []⟩ where
  worksheet_eq := w.after_nil.symm
  filled := fun _ member => by cases member
  names_nodup := List.nodup_nil
  internal := fun _ member => by cases member
  fresh := fun _ member => by cases member
  ids_nodup := List.nodup_nil
  ids_unsolved := fun _ member => by cases member
  settled := fun _ member => by cases member

theorem Fits.filled {w : Worksheet α} {b : SolvedBlock α} (fits : w.Fits b) : Filled [b] := by
  intro c only
  rw [List.mem_singleton.1 only]
  exact fits.length_values

theorem Fits.isSolved_apply {w : Worksheet α} {b : SolvedBlock α} (fits : w.Fits b) (v : String) :
    (w.apply b).unknowns.isSolved v ↔
      w.unknowns.isSolved v ∨ Name.internal v ∈ namesWritten [b] := by
  rw [fits.apply_eq]
  exact w.isSolved_after fits.filled v

theorem Fits.mem_unsolvedIn_apply {w : Worksheet α} {b : SolvedBlock α} (fits : w.Fits b)
    (id : Nat) (v : String) :
    v ∈ (w.apply b).unsolvedIn id ↔
      v ∈ w.unsolvedIn id ∧ Name.internal v ∉ namesWritten [b] := by
  rw [fits.apply_eq]
  exact w.mem_unsolvedIn_after fits.filled id v

namespace Accounts

variable {w : Worksheet α} {r : Run α} {b : SolvedBlock α}

theorem unwritten (a : w.Accounts r) (fits : r.worksheet.Fits b) {v : String}
    (member : v ∈ namesWritten [b]) :
    w.unknowns.isSolved v = false ∧ v ∉ namesWritten r.blocks := by
  have own := (namesWritten_sublist b).subset member
  have fresh := fits.fresh v own
  rw [a.worksheet_eq, ← Bool.not_eq_true, w.isSolved_after a.filled, not_or, Bool.not_eq_true,
    fits.internal v own] at fresh
  exact fresh

theorem unsolved (a : w.Accounts r) (fits : r.worksheet.Fits b) {id : Nat}
    (member : id ∈ idsWritten [b]) : id ∈ w.unsolved ∧ id ∉ idsWritten r.blocks := by
  have waiting := fits.equations_unsolved id ((idsWritten_sublist b).subset member)
  rw [a.worksheet_eq] at waiting
  obtain ⟨first, kept⟩ := List.mem_filter.1 waiting
  exact ⟨first, of_decide_eq_true kept⟩

theorem add (a : w.Accounts r) (fits : r.worksheet.Fits b) : w.Accounts (r.add b) where
  worksheet_eq := by rw [Run.add, fits.apply_eq, a.worksheet_eq, after_append]
  filled := by
    intro c member
    rcases List.mem_append.1 member with earlier | last
    · exact a.filled c earlier
    · exact fits.filled c last
  names_nodup := by
    rw [Run.add, namesWritten_append]
    refine List.nodup_append.2
      ⟨a.names_nodup, fits.unknowns_nodup.sublist (namesWritten_sublist b), ?_⟩
    rintro v earlier _ last rfl
    exact (a.unwritten fits last).2 earlier
  internal := by
    intro v member
    rw [Run.add, namesWritten_append] at member
    rcases List.mem_append.1 member with earlier | last
    · exact a.internal v earlier
    · exact fits.internal v ((namesWritten_sublist b).subset last)
  fresh := by
    intro v member
    rw [Run.add, namesWritten_append] at member
    rcases List.mem_append.1 member with earlier | last
    · exact a.fresh v earlier
    · exact (a.unwritten fits last).1
  ids_nodup := by
    rw [Run.add, idsWritten_append]
    refine List.nodup_append.2
      ⟨a.ids_nodup, fits.equations_nodup.sublist (idsWritten_sublist b), ?_⟩
    rintro id earlier _ last rfl
    exact (a.unsolved fits last).2 earlier
  ids_unsolved := by
    intro id member
    rw [Run.add, idsWritten_append] at member
    rcases List.mem_append.1 member with earlier | last
    · exact a.ids_unsolved id earlier
    · exact (a.unsolved fits last).1
  settled := by
    intro id member
    rw [Run.add, idsWritten_append] at member
    rw [Run.add, List.eq_nil_iff_forall_not_mem]
    intro v still
    obtain ⟨open_before, unwritten⟩ := (fits.mem_unsolvedIn_apply id v).1 still
    rcases List.mem_append.1 member with earlier | last
    · rw [a.settled id earlier] at open_before
      cases open_before
    · -- the block has all that is open in its equations, so it has just written `v`
      have covered := fits.covers id ((idsWritten_sublist b).subset last) v open_before
      rw [fits.internal v covered] at unwritten
      exact unwritten (mem_namesWritten_of_mem_idsWritten last covered)

end Accounts

end Simultaneous.Worksheet
