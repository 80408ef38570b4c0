import Simultaneous.Proofs.Scalar.Rational
import Simultaneous.Proofs.Worksheet.Solve
import Simultaneous.Review

/-!
The worksheets that come about by any order of operations, with any solver whose iterations report
one value per variable. Main statements: solving changes such a worksheet just as its list of tried
blocks tells, a run in which no block fails leaves nothing to solve, and every equation either waits
or is solved.
-/

namespace Simultaneous.Worksheet

variable {α : Type} [Scalar α]

inductive Reachable : Worksheet α → Prop where
  /-- a new worksheet, or one that was cleared -/
  | empty : Reachable empty
  | enterAt {w : Worksheet α} (mode : AngleMode) (line : String) (number : Nat) :
      Reachable w → Reachable (w.enterAt mode line number).1
  | addDifferential {w : Worksheet α} {line : String} {d : Differential} :
      Differential.ofLine? line = some d → Reachable w → Reachable (w.addDifferential d)
  | spellAll {w : Worksheet α} (text : String) : Reachable w → Reachable (w.spellAll text)
  | setInitial {w : Worksheet α} (spelling : String) (value : α) :
      Reachable w → Reachable (w.setInitial spelling value)
  | solve {w : Worksheet α} {solver : BlockSolver α} :
      solver.IsComplete → Reachable w → Reachable (w.solve solver).worksheet
  | review {w : Worksheet α} (precision : α) : Reachable w → Reachable (w.review precision).1
  | fail {w : Worksheet α} : Reachable w → Reachable { w with failed := true }

omit [Scalar α] in
def enterAll (w : Worksheet α) (mode : AngleMode) (lines : List String) : Worksheet α :=
  lines.foldl (fun w line => (w.enter mode line).1) w

omit [Scalar α] in
def ofLines (mode : AngleMode) (lines : List String) : Worksheet α :=
  lines.foldl (fun w line => (w.enter mode line).1) empty

theorem Reachable.enterAll {w : Worksheet α} (reachable : Reachable w) (mode : AngleMode)
    (lines : List String) : Reachable (w.enterAll mode lines) := by
  induction lines generalizing w with
  | nil => exact reachable
  | cons line rest ih => exact ih (.enterAt mode line _ reachable)

theorem reachable_ofLines (mode : AngleMode) (lines : List String) :
    Reachable (ofLines mode lines : Worksheet α) :=
  Reachable.empty.enterAll mode lines

theorem Sound.review {w : Worksheet α} (s : w.Sound) (precision : α) :
    (w.review precision).1.Sound := by
  change ((w.findings precision).foldl note w).Sound
  generalize w.findings precision = all
  induction all generalizing w with
  | nil => exact s
  | cons finding rest ih =>
    apply ih
    cases finding <;> exact s.congr rfl rfl rfl rfl

theorem Reachable.sound {w : Worksheet α} (reachable : Reachable w) : w.Sound := by
  induction reachable with
  | empty => exact sound_empty
  | enterAt mode line number _ s => exact s.enterAt mode line number
  | addDifferential _ _ s => exact s.congr rfl rfl rfl (solved_addDifferential _ _)
  | spellAll text _ s => exact s.congr rfl rfl rfl (solved_spellAll _ text)
  | setInitial spelling value _ s => exact s.congr rfl rfl rfl rfl
  | solve complete _ s => exact s.solve complete
  | review precision _ s => exact s.review precision
  | fail _ s => exact s.congr rfl rfl rfl rfl

omit [Scalar α] in
theorem solvedCount_eq (r : Run α) : r.solvedCount = (namesWritten r.blocks).length := by
  rw [Run.solvedCount, namesWritten, List.length_flatMap, List.sum_eq_foldl, List.foldl_map]
  rfl

omit [Scalar α] in
theorem Accounts.value?_of_mem {w : Worksheet α} {r : Run α} (a : w.Accounts r)
    {b : SolvedBlock α} (tried : b ∈ r.blocks) (values : b.result.outcome.hasValues)
    {entry : String × α} (member : entry ∈ b.result.unknowns.zip b.result.values) :
    r.worksheet.unknowns.value? entry.1 = some entry.2 := by
  have entry_written : entry ∈ valuesWritten r.blocks :=
    List.mem_flatMap.2 ⟨b, List.mem_filter.2 ⟨tried, values⟩, member⟩
  have distinct := a.names_nodup
  rw [← map_valuesWritten a.filled] at distinct
  have written : entry.1 ∈ namesWritten r.blocks := by
    rw [← map_valuesWritten a.filled]
    exact List.mem_map_of_mem entry_written
  have fresh := a.fresh entry.1 written
  rw [Unknowns.isSolved_eq, Option.isSome_eq_false_iff, Option.isNone_iff_eq_none] at fresh
  rw [a.worksheet_eq, Unknowns.value?, after, Assoc.get?_append, fresh, Option.none_or,
    a.internal entry.1 written]
  exact Assoc.get?_of_mem distinct entry_written

omit [Scalar α] in
theorem Accounts.value?_of_known {w : Worksheet α} {r : Run α} (a : w.Accounts r) {v : String}
    {x : α} (known : w.unknowns.value? v = some x) : r.worksheet.unknowns.value? v = some x := by
  rw [Unknowns.value?] at known
  rw [a.worksheet_eq, Unknowns.value?, after, Assoc.get?_append, known, Option.some_or]

omit [Scalar α] in
theorem Accounts.newly_solved_iff {w : Worksheet α} {r : Run α} (a : w.Accounts r) (v : String) :
    (r.worksheet.unknowns.isSolved v ∧ w.unknowns.isSolved v = false) ↔
      Name.internal v ∈ namesWritten r.blocks := by
  rw [a.worksheet_eq, w.isSolved_after a.filled]
  constructor
  · rintro ⟨before | written, fresh⟩
    · rw [before] at fresh
      cases fresh
    · exact written
  · intro written
    have fresh := a.fresh (Name.internal v) written
    rw [Unknowns.isSolved_eq, a.internal _ written] at fresh
    exact ⟨.inr written, fresh⟩

omit [Scalar α] in
theorem apply_of_none (w : Worksheet α) {b : SolvedBlock α}
    (none : b.result.outcome.hasValues = false) :
    w.apply b =
      { w with failed := true, timedOut := w.timedOut || b.result.outcome.isTimeout } := by
  rw [apply, none, Outcome.isError_eq, none, Bool.not_false, Bool.or_true]
  rfl

/-! ### The main statements -/

section Example

def twos : BlockSolver Rational where
  settings := .standard
  linear := .direct
  override? := some
    { name := "twos"
      run := fun p _ _ => .report ⟨List.replicate p.unknowns (.ofRat 2), 1, .ofRat 0, true⟩ }
  timing := .prompt

theorem twos_isComplete : twos.IsComplete := by
  intro k chosen p start cancelled r _ reported
  cases chosen
  cases reported
  exact List.length_replicate

def chained : Worksheet Rational :=
  ofLines .radians ["t = 3", "x + y = t + 1", "x * y = 4", "z = x ^ 2"]

theorem chained_open :
    ((chained.singles twos).2.map fun id =>
      (id, (chained.singles twos).1.worksheet.unsolvedIn id)) =
      [(1, ["x", "y"]), (2, ["x", "y"]), (3, ["z", "x"])] := by
  decide +kernel

theorem chained_planned : chained.planned twos = [⟨[1, 2], ["y", "x"]⟩, ⟨[3], ["z"]⟩] := by
  rw [planned, decompose, chained_open]
  cbv

theorem chained_fine :
    ∀ b ∈ (chained.solve twos).blocks, b.result.outcome.isError = false := by
  rw [solve_eq, chained_planned]
  decide +kernel

end Example

/-- Solving changes a worksheet just as the list of tried blocks tells. The unknowns that get values
are those of the blocks with values, each once and none that had a value, and a value once found
stays. The equations of these blocks are solved, each once and none that was solved, in the order of
the list. The unknowns leave those that are open, the equations leave those that wait, errors raise
flags, and all else is as before. A block without values and a block that is blocked change no more
than flags. -/
theorem solve_changes {w : Worksheet α} (reachable : Reachable w) (solver : BlockSolver α)
    (complete : solver.IsComplete) :
    let r := w.solve solver
    let valued := r.blocks.filter (·.result.outcome.hasValues)
    let names := valued.flatMap (·.result.unknowns)
    let ids := valued.flatMap (·.equations)
    (names.Nodup ∧ r.solvedCount = names.length ∧
      ∀ v, (r.worksheet.unknowns.isSolved v ∧ w.unknowns.isSolved v = false) ↔
        Name.internal v ∈ names) ∧
    ((∀ v x, w.unknowns.value? v = some x → r.worksheet.unknowns.value? v = some x) ∧
      ∀ b ∈ valued, b.result.values.length = b.result.unknowns.length ∧
        ∀ entry ∈ b.result.unknowns.zip b.result.values,
          r.worksheet.unknowns.value? entry.1 = some entry.2) ∧
    (ids.Nodup ∧ ∀ id ∈ ids, id ∈ w.unsolved) ∧
    r.worksheet =
      { w with
        unknowns :=
          { w.unknowns with
            pending := w.unknowns.pending.filter (·.name ∉ names)
            solved := w.unknowns.solved ++
              valued.flatMap fun b => b.result.unknowns.zip b.result.values }
        unsolved := w.unsolved.filter (· ∉ ids)
        solved := w.solved ++ ids
        failed := w.failed || r.blocks.any (·.result.outcome.isError)
        timedOut := w.timedOut || r.blocks.any (·.result.outcome.isTimeout) } ∧
    (∀ (during : Worksheet α) (b : SolvedBlock α), b.result.outcome.hasValues = false →
      during.apply b =
        { during with
          failed := true
          timedOut := during.timedOut || b.result.outcome.isTimeout }) ∧
    ∀ (during : Run α) (b : EquationBlock), during.worksheet.isBlocked b = true →
      solveNext solver during b = during := by
  intro r valued names ids
  have a : w.Accounts r := reachable.sound.accounts_solve complete
  refine ⟨⟨a.names_nodup, solvedCount_eq r, a.newly_solved_iff⟩,
    ⟨fun v x known => a.value?_of_known known, ?_⟩, ⟨a.ids_nodup, a.ids_unsolved⟩, a.worksheet_eq,
    fun during b none => during.apply_of_none none, fun during b => solveNext_of_blocked⟩
  intro b member
  obtain ⟨tried, values⟩ := List.mem_filter.1 member
  exact ⟨a.filled b tried values, fun entry => a.value?_of_mem tried values⟩

theorem chained_changes :
    Reachable chained ∧ twos.IsComplete ∧
      let r := chained.solve twos
      let valued := r.blocks.filter (·.result.outcome.hasValues)
      (valued.flatMap (·.result.unknowns)).Nodup ∧
        r.solvedCount = (valued.flatMap (·.result.unknowns)).length ∧
        ∀ v, (r.worksheet.unknowns.isSolved v ∧ chained.unknowns.isSolved v = false) ↔
          Name.internal v ∈ valued.flatMap (·.result.unknowns) :=
  ⟨reachable_ofLines _ _, twos_isComplete,
    (solve_changes (reachable_ofLines _ _) twos twos_isComplete).1⟩

/-- If no block that is tried fails or times out, then all unknowns of all equations have values, no
block that came up was blocked at its turn, and solving once more tries nothing and changes
nothing, with any solver. -/
theorem solve_settles {w : Worksheet α} (reachable : Reachable w) (solver : BlockSolver α)
    (complete : solver.IsComplete)
    (fine : ∀ b ∈ (w.solve solver).blocks, b.result.outcome.isError = false) :
    let r := w.solve solver
    (∀ e ∈ r.worksheet.equations, ∀ v ∈ e.unknowns, r.worksheet.unknowns.isSolved v = true) ∧
    (∀ earlier b later, w.planned solver = earlier ++ b :: later →
      (earlier.foldl (solveNext solver) (w.singles solver).1).worksheet.isBlocked b = false) ∧
    ∀ other : BlockSolver α, r.worksheet.solve other = ⟨r.worksheet, []⟩ ∧
      (r.worksheet.solve other).blocks = [] ∧ (r.worksheet.solve other).solvedCount = 0 := by
  intro r
  have s := reachable.sound
  have settled := s.unsolvedIn_of_fine complete fine
  refine ⟨?_, fun earlier b later => s.free_of_fine complete fine, ?_⟩
  · intro e member v named
    obtain ⟨id, entry⟩ := List.getElem?_of_mem member
    by_contra fresh
    have open_ := (r.worksheet.mem_unsolvedIn id v).2
      ⟨e, entry, named, Bool.eq_false_of_not_eq_true fresh⟩
    rw [settled id] at open_
    cases open_
  · intro other
    have again : r.worksheet.solve other = ⟨r.worksheet, []⟩ := solve_of_settled settled
    rw [again]
    exact ⟨rfl, rfl, rfl⟩

theorem chained_settles :
    Reachable chained ∧ twos.IsComplete ∧
      (∀ b ∈ (chained.solve twos).blocks, b.result.outcome.isError = false) ∧
      let r := chained.solve twos
      (∀ e ∈ r.worksheet.equations, ∀ v ∈ e.unknowns, r.worksheet.unknowns.isSolved v = true) ∧
        (∀ earlier b later, chained.planned twos = earlier ++ b :: later →
          (earlier.foldl (solveNext twos) (chained.singles twos).1).worksheet.isBlocked b =
            false) ∧
        ∀ other : BlockSolver Rational, r.worksheet.solve other = ⟨r.worksheet, []⟩ ∧
          (r.worksheet.solve other).blocks = [] ∧ (r.worksheet.solve other).solvedCount = 0 :=
  ⟨reachable_ofLines _ _, twos_isComplete, chained_fine,
    solve_settles (reachable_ofLines _ _) twos twos_isComplete chained_fine⟩

/-! ### Equations that wait and equations that are solved -/

section Example

def contradicted : Worksheet Rational :=
  ((ofLines .radians ["t = 3", "x = t + 1"]).solve twos).worksheet.enter .radians "t = 4" |>.1

theorem reachable_contradicted : Reachable contradicted :=
  .enterAt _ _ _ (.solve twos_isComplete (reachable_ofLines _ _))

end Example

/-- Every equation of a worksheet either waits or is solved, and nothing else does. An equation is
solved once, and then all its unknowns have values. -/
theorem equations_wait_or_are_solved {w : Worksheet α} (reachable : Reachable w) :
    (∀ id < w.equations.length, id ∈ w.unsolved ↔ id ∉ w.solved) ∧
    (∀ id, id ∈ w.unsolved ∨ id ∈ w.solved → id < w.equations.length) ∧
    (w.unsolved.Nodup ∧ w.solved.Nodup) ∧
    ∀ id ∈ w.solved, ∃ e, w.equations[id]? = some e ∧
      ∀ v ∈ e.unknowns, w.unknowns.isSolved v = true := by
  have s := reachable.sound
  have distinct : (w.solved ++ w.unsolved).Nodup := s.partition.nodup_iff.2 List.nodup_range
  obtain ⟨solved_nodup, unsolved_nodup, apart⟩ := List.nodup_append.1 distinct
  have listed (id : Nat) : id ∈ w.solved ∨ id ∈ w.unsolved ↔ id < w.equations.length := by
    rw [← List.mem_append, s.partition.mem_iff, List.mem_range]
  have not_both {id : Nat} (done : id ∈ w.solved) : id ∉ w.unsolved :=
    fun waits => apart id done id waits rfl
  refine ⟨fun id inside => ⟨fun waits done => not_both done waits, fun open_ => ?_⟩,
    fun id either => (listed id).1 either.symm, ⟨unsolved_nodup, solved_nodup⟩, ?_⟩
  · exact ((listed id).2 inside).resolve_left open_
  · intro id done
    have inside := (listed id).1 (.inl done)
    refine ⟨w.equations[id], List.getElem?_eq_getElem inside, fun v named => ?_⟩
    by_contra fresh
    have still := (w.mem_unsolvedIn id v).2
      ⟨w.equations[id], List.getElem?_eq_getElem inside, named, Bool.eq_false_of_not_eq_true fresh⟩
    rw [s.settled id (not_both done)] at still
    cases still

theorem contradicted_waits :
    Reachable contradicted ∧ contradicted.solved = [0, 1] ∧ contradicted.unsolved = [2] ∧
      (2 ∈ contradicted.unsolved ↔ 2 ∉ contradicted.solved) ∧
      ∀ id ∈ contradicted.solved, ∃ e, contradicted.equations[id]? = some e ∧
        ∀ v ∈ e.unknowns, contradicted.unknowns.isSolved v = true := by
  have split := equations_wait_or_are_solved reachable_contradicted
  refine ⟨reachable_contradicted, ?_, ?_, split.1 2 ?_, split.2.2.2⟩ <;> decide +kernel

end Simultaneous.Worksheet
