import Simultaneous.Report
import Simultaneous.Proofs.Worksheet.Entry
import Simultaneous.Proofs.Worksheet.Later
import Simultaneous.Proofs.Worksheet.NonFinite

/-!
What comes of a script on a new worksheet. The one flag that makes a report a failure is raised in
three places: when a line is refused, when a block is taken over, and in the review. Where nothing
raises it, all unknowns of all equations are among the results.
-/

namespace Simultaneous

/-! ### The flag -/

namespace Outcome

theorem isError_iff {α : Type} (o : Outcome α) :
    o.isError = true ↔ o = .timedOut ∨ ∃ e, o = .failed e := by
  cases o <;> simp [isError]

end Outcome

namespace Worksheet

section Solve

variable {α : Type} {w : Worksheet α} {r : Run α}

def FlagsErrors (w : Worksheet α) (r : Run α) : Prop :=
  r.worksheet.failed = (w.failed || r.blocks.any (·.result.outcome.isError))

theorem FlagsErrors.add (flags : w.FlagsErrors r) (b : SolvedBlock α) :
    w.FlagsErrors (r.add b) := by
  have failed : (r.worksheet.apply b).failed =
      (r.worksheet.failed || b.result.outcome.isError) := by
    unfold apply
    split <;> rfl
  rw [FlagsErrors] at flags
  rw [FlagsErrors, Run.add, failed, flags, List.any_append, List.any_cons, List.any_nil,
    Bool.or_false, Bool.or_assoc]

variable [Scalar α] {solver : BlockSolver α}

theorem FlagsErrors.solveSingles (flags : w.FlagsErrors r) (waiting : List Nat) :
    w.FlagsErrors (solveSingles solver r waiting).1 := by
  fun_induction Worksheet.solveSingles solver r waiting with
  | case1 r waiting none => exact flags
  | case2 r waiting id found block ih => exact ih (flags.add block)

theorem FlagsErrors.solveBlocks (flags : w.FlagsErrors r) (blocks : List EquationBlock) :
    w.FlagsErrors (blocks.foldl (solveNext solver) r) := by
  induction blocks generalizing r with
  | nil => exact flags
  | cons b later ih =>
    apply ih
    unfold solveNext
    split
    next => exact flags
    next => exact flags.add _

/-- Solving raises the flag for errors only, whatever iteration is used. -/
theorem flagsErrors_solve (solver : BlockSolver α) (w : Worksheet α) :
    w.FlagsErrors (w.solve solver) := by
  have start : w.FlagsErrors ⟨w, []⟩ := (Bool.or_false _).symm
  exact (start.solveSingles w.unsolved).solveBlocks _

end Solve

end Worksheet

/-! ### Lines -/

namespace Script

def stated (table? : Option PropertyTable) (mode : AngleMode) (line : String) :
    Except RefusalCause Statement :=
  if (tidied line).isEmpty then .ok .blank
  else match substituted table? (tidied line) with
    | .error e => .error (.call e)
    | .ok text =>
      match Statement.ofLine mode text with
      | .error e => .error (.line e)
      | .ok statement => .ok statement

def refusal? (table? : Option PropertyTable) (mode : AngleMode) (line : Nat × String) :
    Option Refusal :=
  match stated table? mode line.2 with
  | .error cause => some ⟨line.1, cause⟩
  | .ok _ => none

section Lines

variable {α : Type} {table? : Option PropertyTable} {mode : AngleMode}
variable {number : Nat} {line : String}

theorem refusal?_eq_some_iff {numbered : Nat × String} {refusal : Refusal} :
    refusal? table? mode numbered = some refusal ↔
      numbered.1 = refusal.line ∧ stated table? mode numbered.2 = .error refusal.cause := by
  unfold refusal?
  split
  next cause refused =>
    rw [refused, Option.some.injEq, Except.error.injEq]
    exact ⟨fun same => same ▸ ⟨rfl, rfl⟩, fun ⟨number, cause⟩ => by rw [number, cause]⟩
  next statement accepted =>
    simp only [accepted, reduceCtorEq, and_false]

inductive Enters (table? : Option PropertyTable) (mode : AngleMode) (w : Worksheet α)
    (number : Nat) (line : String) : Worksheet α × Option Refusal → Prop where
  | empty : stated table? mode line = .ok .blank → Enters table? mode w number line (w, none)
  | uncalled {e : CallError} : stated table? mode line = .error (.call e) →
      Enters table? mode w number line (w, some ⟨number, .call e⟩)
  | refused {e : LineError} (text : String) : stated table? mode line = .error (.line e) →
      Enters table? mode w number line
        ((w.enterAt mode text number).1, some ⟨number, .line e⟩)
  | accepted {statement : Statement} {text : String} : stated table? mode line = .ok statement →
      Statement.ofLine mode text = .ok statement →
      Enters table? mode w number line ((w.enterAt mode text number).1, none)

theorem enters_enterLine (w : Worksheet α) (number : Nat) (line : String) :
    Enters table? mode w number line (enterLine table? mode w number line) := by
  unfold enterLine
  simp only
  split
  next empty => exact .empty (by rw [stated, if_pos empty])
  next visible =>
    split
    next e unknown => exact .uncalled (by rw [stated, if_neg visible, unknown])
    next text found =>
      have reading : stated table? mode line =
          match Statement.ofLine mode text with
          | .error e => .error (.line e)
          | .ok statement => .ok statement := by
        rw [stated, if_neg visible, found]
      cases read : Statement.ofLine mode text with
      | error e =>
        rw [read] at reading
        have entered : Enters table? mode w number line
            ((w.enterAt mode text number).1, some ⟨number, .line e⟩) := .refused text reading
        rwa [w.enterAt_of_error read] at entered ⊢
      | ok statement =>
        rw [read] at reading
        have entered : Enters table? mode w number line ((w.enterAt mode text number).1, none) :=
          .accepted reading read
        rwa [w.enterAt_of_ok read] at entered ⊢

namespace Enters

variable {w : Worksheet α} {entered : Worksheet α × Option Refusal}

theorem refusal_eq (enters : Enters table? mode w number line entered) :
    entered.2 = refusal? table? mode (number, line) := by
  cases enters <;> simp only [refusal?, *]

theorem retains (enters : Enters table? mode w number line entered) : w.Retains entered.1 := by
  cases enters with
  | empty => exact .refl w
  | uncalled => exact .refl w
  | refused text => exact w.retains_enterAt mode text number
  | @accepted _ text => exact w.retains_enterAt mode text number

theorem later [Scalar α] (enters : Enters table? mode w number line entered) :
    w.Later entered.1 := by
  cases enters with
  | empty => exact .refl
  | uncalled => exact .refl
  | refused text => exact .single (.enterAt w mode text number)
  | @accepted _ text => exact .single (.enterAt w mode text number)

theorem equation_mem (enters : Enters table? mode w number line entered) {e : LineEquation}
    (states : stated table? mode line = .ok (.equation e)) :
    ⟨e.residual, e.unknowns, number⟩ ∈ entered.1.equations := by
  cases enters with
  | empty blank => cases states.symm.trans blank
  | uncalled unknown => cases states.symm.trans unknown
  | refused _ refused => cases states.symm.trans refused
  | accepted accepted read =>
    cases states.symm.trans accepted
    rw [w.enterAt_of_ok read]
    exact List.mem_append_right _ (List.mem_singleton_self _)

end Enters

theorem fst_enterLines_cons (w : Worksheet α) (first : Nat × String)
    (rest : List (Nat × String)) :
    (enterLines table? mode (first :: rest) w).1 =
      (enterLines table? mode rest (enterLine table? mode w first.1 first.2).1).1 := by
  rw [enterLines]

theorem snd_enterLines_cons (w : Worksheet α) (first : Nat × String)
    (rest : List (Nat × String)) :
    (enterLines table? mode (first :: rest) w).2 =
      (enterLine table? mode w first.1 first.2).2.toList ++
        (enterLines table? mode rest (enterLine table? mode w first.1 first.2).1).2 := by
  rw [enterLines]

variable (lines : List (Nat × String))

theorem refusals_enterLines (w : Worksheet α) :
    (enterLines table? mode lines w).2 = lines.filterMap (refusal? table? mode) := by
  induction lines generalizing w with
  | nil => rfl
  | cons first rest ih =>
    rw [snd_enterLines_cons, ih, (enters_enterLine w first.1 first.2).refusal_eq, Prod.mk.eta]
    cases refused : refusal? table? mode first with
    | none => rw [List.filterMap_cons_none refused]; rfl
    | some refusal => rw [List.filterMap_cons_some refused]; rfl

theorem retains_enterLines (w : Worksheet α) : w.Retains (enterLines table? mode lines w).1 := by
  induction lines generalizing w with
  | nil => exact .refl w
  | cons first rest ih =>
    rw [fst_enterLines_cons]
    exact (enters_enterLine w first.1 first.2).retains.trans (ih _)

variable [Scalar α]

theorem later_enterLines (w : Worksheet α) : w.Later (enterLines table? mode lines w).1 := by
  induction lines generalizing w with
  | nil => exact .refl
  | cons first rest ih =>
    rw [fst_enterLines_cons]
    exact (enters_enterLine w first.1 first.2).later.trans (ih _)

theorem equation_mem_enterLines {w : Worksheet α} (reachable : w.Reachable)
    {numbered : Nat × String} (member : numbered ∈ lines) {e : LineEquation}
    (states : stated table? mode numbered.2 = .ok (.equation e)) :
    ⟨e.residual, e.unknowns, numbered.1⟩ ∈ (enterLines table? mode lines w).1.equations := by
  induction lines generalizing w with
  | nil => cases member
  | cons first rest ih =>
    have enters : Enters table? mode w first.1 first.2 _ := enters_enterLine w first.1 first.2
    have reached := enters.later.reachable reachable
    rw [fst_enterLines_cons]
    rcases List.mem_cons.1 member with rfl | later
    · exact ((later_enterLines rest _).grows reached).equations.subset (enters.equation_mem states)
    · exact ih reached later

variable (starts : List (String × Decimal.Numeral))

theorem later_setStarts (w : Worksheet α) : w.Later (setStarts starts w) := by
  induction starts generalizing w with
  | nil => exact .refl
  | cons first rest ih => exact (ih _).head (.setInitial w first.1 _)

theorem failed_setStarts (w : Worksheet α) : (setStarts starts w).failed = w.failed := by
  induction starts generalizing w with
  | nil => rfl
  | cons first rest ih => exact ih _

end Lines

end Script

/-! ### Reports -/

theorem Solution.mem_results {α : Type} (s : Solution α) {v : String} {x : α}
    (internal : Name.internal v = v) (known : s.worksheet.unknowns.value? v = some x) :
    (s.worksheet.unknowns.shown v, x) ∈ s.results := by
  rw [Unknowns.value?, internal] at known
  exact List.mem_mergeSort.2 (List.mem_map.2 ⟨(v, x), Assoc.mem_of_get? known, rfl⟩)

namespace Script

variable {α : Type} [Scalar α] (s : Script) (solver : BlockSolver α)
variable (table? : Option PropertyTable)

def entered (mode : AngleMode) (w : Worksheet α) : Worksheet α :=
  setStarts s.starts (enterLines table? mode s.lines w).1

theorem reachable_entered (mode : AngleMode) {w : Worksheet α} (reachable : w.Reachable) :
    (s.entered table? mode w).Reachable :=
  (later_setStarts s.starts _).reachable ((later_enterLines s.lines w).reachable reachable)

theorem failed_entered (mode : AngleMode) (w : Worksheet α) :
    (s.entered table? mode w).failed = w.failed :=
  (failed_setStarts s.starts _).trans (retains_enterLines s.lines w).failed

variable {table?} in
theorem equation_mem_entered {mode : AngleMode} {w : Worksheet α} (reachable : w.Reachable)
    {line : Nat × String} (member : line ∈ s.lines) {e : LineEquation}
    (states : stated table? mode line.2 = .ok (.equation e)) :
    ⟨e.residual, e.unknowns, line.1⟩ ∈ (s.entered table? mode w).equations :=
  ((later_setStarts s.starts _).grows
    ((later_enterLines s.lines w).reachable reachable)).equations.subset
      (equation_mem_enterLines s.lines reachable member states)

def solution (w : Worksheet α) : Solution α :=
  let r := w.solve solver
  let reviewed := r.worksheet.review solver.settings.precision
  ⟨r, reviewed.1, reviewed.2⟩

theorem run_eq (w : Worksheet α) :
    s.run solver table? w =
      let refusals := s.lines.filterMap (refusal? table? solver.settings.angleMode)
      let entered := s.entered table? solver.settings.angleMode w
      if refusals.isEmpty then .solved (solution solver entered)
      else .refused refusals { entered with failed := true } := by
  rw [run, ← refusals_enterLines s.lines w]
  unfold entered
  rcases enterLines table? solver.settings.angleMode s.lines w with ⟨during, refusals⟩
  rfl

section Solution

variable {solver} {w : Worksheet α}

theorem failed_solution_iff (clean : w.failed = false) :
    (solution solver w).worksheet.failed = true ↔
      (∃ b ∈ (solution solver w).run.blocks, b.result.outcome.isError = true) ∨
        ∃ r, .nonFinite r ∈ (solution solver w).findings := by
  have flags := Worksheet.flagsErrors_solve solver w
  rw [Worksheet.FlagsErrors, clean, Bool.false_or] at flags
  refine (Worksheet.failed_review_iff _ _).trans (or_congr_left ?_)
  rw [flags, List.any_eq_true]
  rfl

/-- If solving and reviewing a worksheet is no failure, all unknowns of all equations have values
among the results. -/
theorem exists_result (reachable : w.Reachable) (complete : solver.IsComplete)
    (clean : w.failed = false) (fine : (solution solver w).worksheet.failed = false)
    {e : EquationEntry} (member : e ∈ w.equations) {v : String} (named : v ∈ e.unknowns) :
    ∃ x, (solution solver w).worksheet.unknowns.value? v = some x ∧
      ((solution solver w).worksheet.unknowns.shown v, x) ∈ (solution solver w).results := by
  have sound := reachable.sound
  have no_error : (w.solve solver).IsFine := by
    intro b tried
    by_contra error
    have failed : (solution solver w).worksheet.failed = true :=
      (failed_solution_iff clean).2 (.inl ⟨b, tried, Bool.eq_true_of_not_eq_false error⟩)
    rw [fine] at failed
    cases failed
  obtain ⟨high, flag, reviewed⟩ :=
    (w.solve solver).worksheet.review_eq solver.settings.precision
  have unknowns : (solution solver w).worksheet.unknowns = (w.solve solver).worksheet.unknowns := by
    rw [solution, reviewed]
  have solved : (w.solve solver).worksheet.unknowns.isSolved v = true := by
    by_contra fresh
    obtain ⟨id, entry⟩ :=
      List.getElem?_of_mem ((sound.accounts_solve complete).grows.equations.subset member)
    have open_ := (Worksheet.mem_unsolvedIn _ id v).2
      ⟨e, entry, named, Bool.eq_false_of_not_eq_true fresh⟩
    rw [sound.unsolvedIn_of_fine complete no_error id] at open_
    cases open_
  obtain ⟨x, known⟩ := Option.isSome_iff_exists.1 solved
  rw [← unknowns] at known
  exact ⟨x, known, (solution solver w).mem_results (sound.internal e member v named) known⟩

end Solution

/-- The report on a script. It is a failure exactly if a line is refused, a block that was tried
failed or timed out, or a residual is not finite. The lines that it lists are those that are
refused, and if there are any, nothing is tried. If it is no failure, every unknown of every
equation that a line states has a value among the results. -/
theorem report_on_run :
    ((s.run solver table? .empty).failed = true ↔
      (∃ line ∈ s.lines, ∃ cause,
        stated table? solver.settings.angleMode line.2 = .error cause) ∨
      (∃ b ∈ (s.run solver table? .empty).tried,
        b.result.outcome = .timedOut ∨ ∃ e, b.result.outcome = .failed e) ∨
      ∃ r, .nonFinite r ∈ (s.run solver table? .empty).findings) ∧
    (∀ refusal, refusal ∈ (s.run solver table? .empty).refusals ↔ ∃ line ∈ s.lines,
      line.1 = refusal.line ∧
        stated table? solver.settings.angleMode line.2 = .error refusal.cause) ∧
    ((∃ line ∈ s.lines, ∃ cause,
        stated table? solver.settings.angleMode line.2 = .error cause) →
      (s.run solver table? .empty).tried = []) ∧
    (solver.IsComplete → (s.run solver table? .empty).failed = false →
      ∃ found, s.run solver table? .empty = .solved found ∧ ∀ line ∈ s.lines, ∀ e,
        stated table? solver.settings.angleMode line.2 = .ok (.equation e) → ∀ v ∈ e.unknowns,
          ∃ x, found.worksheet.unknowns.value? v = some x ∧
            (found.worksheet.unknowns.shown v, x) ∈ found.results) := by
  set mode := solver.settings.angleMode
  set entered : Worksheet α := s.entered table? mode .empty
  have clean : entered.failed = false := s.failed_entered table? mode .empty
  have listed : ∀ refusal, refusal ∈ s.lines.filterMap (refusal? table? mode) ↔
      ∃ line ∈ s.lines,
        line.1 = refusal.line ∧ stated table? mode line.2 = .error refusal.cause := by
    intro refusal
    simp only [List.mem_filterMap, refusal?_eq_some_iff]
  have no_line (none_refused : s.lines.filterMap (refusal? table? mode) = []) :
      ¬∃ line ∈ s.lines, ∃ cause, stated table? mode line.2 = .error cause := by
    rintro ⟨line, member, cause, refused⟩
    have refusal := (listed ⟨line.1, cause⟩).2 ⟨line, member, rfl, refused⟩
    rw [none_refused] at refusal
    cases refusal
  by_cases none_refused : s.lines.filterMap (refusal? table? mode) = []
  · let found := solution solver entered
    have solved : s.run solver table? .empty = .solved found := by
      simp only [run_eq]
      rw [none_refused]
      rfl
    rw [none_refused] at listed
    rw [solved]
    refine ⟨?_, listed, fun refused => absurd refused (no_line none_refused), ?_⟩
    · simp only [no_line none_refused, false_or, ← Outcome.isError_iff]
      exact failed_solution_iff clean
    · intro complete fine
      refine ⟨found, rfl, fun line member e states v named => ?_⟩
      exact exists_result (s.reachable_entered table? mode .empty) complete clean fine
        (s.equation_mem_entered .empty member states) named
  · have refused : s.run solver table? .empty =
        .refused (s.lines.filterMap (refusal? table? mode)) { entered with failed := true } := by
      simp only [run_eq]
      exact if_neg (mt List.isEmpty_iff.1 none_refused)
    obtain ⟨refusal, member⟩ := List.exists_mem_of_ne_nil _ none_refused
    obtain ⟨line, inside, _, cause⟩ := (listed refusal).1 member
    rw [refused]
    exact ⟨iff_of_true rfl (.inl ⟨line, inside, _, cause⟩), listed, fun _ => rfl,
      fun _ fine => by cases fine⟩

section Example

def following : Script := ⟨[(1, "x = 2"), (3, "y = x + 1")], []⟩

def unfinished : Script := ⟨[(1, "x = 2"), (2, "y = (x + 1")], []⟩

theorem refused_unfinished : stated none .radians "y = (x + 1" =
    .error (.line ⟨.bracketMismatch, "("⟩) := by
  decide +kernel

end Example

theorem reports_on_following_and_unfinished :
    (Worksheet.newton.IsComplete ∧ (following.run Worksheet.newton none .empty).failed = false ∧
      ∃ found, following.run Worksheet.newton none .empty = .solved found ∧
        ∀ line ∈ following.lines, ∀ e, stated none .radians line.2 = .ok (.equation e) →
          ∀ v ∈ e.unknowns, ∃ x, found.worksheet.unknowns.value? v = some x ∧
            (found.worksheet.unknowns.shown v, x) ∈ found.results) ∧
    (∃ line ∈ unfinished.lines, ∃ cause, stated none .radians line.2 = .error cause) ∧
      (unfinished.run Worksheet.newton none .empty).tried = [] := by
  have complete : Worksheet.newton.IsComplete := nofun
  have fine : (following.run Worksheet.newton none .empty).failed = false := by decide +kernel
  have refused : ∃ line ∈ unfinished.lines, ∃ cause,
      stated none .radians line.2 = .error cause :=
    ⟨(2, "y = (x + 1"), List.mem_cons_of_mem _ List.mem_cons_self, _, refused_unfinished⟩
  exact ⟨⟨complete, fine, (report_on_run following Worksheet.newton none).2.2.2 complete fine⟩,
    refused, (report_on_run unfinished Worksheet.newton none).2.2.1 refused⟩

end Script

end Simultaneous
