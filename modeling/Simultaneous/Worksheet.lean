import Simultaneous.Block
import Simultaneous.Incidence.Decomposition
import Simultaneous.Statement
import Simultaneous.Unknowns

/-!
A worksheet: the equations entered so far, the unknowns in them, and what is known of their values.
Solving first takes equations with one open unknown, one after the other, and then cuts what is
left into blocks.
-/

namespace Simultaneous

structure EquationEntry where
  residual : String
  /-- internal names of its unknowns, by first occurrence -/
  unknowns : List String
  /-- the line it was read from, counted from one -/
  line : Nat
deriving Repr, DecidableEq

def EquationEntry.slope? {α : Type} [Scalar α] (e : EquationEntry) (name : String) :
    Option (Expr α) :=
  match Expr.ofResidual ⟨e.unknowns, []⟩ e.residual with
  | .ok r => some (r.slope name)
  | .error _ => none

/-- Equations and unknowns with values in `α`. An equation is known by its place. -/
structure Worksheet (α : Type) where
  equations : List EquationEntry
  /-- the equations not solved yet, in increasing order -/
  unsolved : List Nat
  /-- the equations of solved blocks in the order in which they were solved -/
  solved : List Nat
  unknowns : Unknowns α
  differentials : List Differential
  /-- starting values by internal name -/
  initial : Assoc α
  /-- something went wrong -/
  failed : Bool
  /-- a block took too long -/
  timedOut : Bool
  /-- some residual is far from zero -/
  highResidual : Bool
  /-- the highest line number so far -/
  lastLine : Nat

namespace Worksheet

variable {α : Type}

def empty : Worksheet α := ⟨[], [], [], .empty, [], [], false, false, false, 0⟩

def spellAll (w : Worksheet α) (text : String) : Worksheet α :=
  { w with unknowns := (Name.identifiersIn text).foldl Unknowns.spell w.unknowns }

def addDifferential (w : Worksheet α) (d : Differential) : Worksheet α :=
  let spelled := (w.unknowns.spell d.target).spell d.independent
  { w with
    unknowns := d.identifiers.foldl (fun u name => (u.use name 1).1.spell name) spelled
    differentials := w.differentials ++ [d] }

def useAll (u : Unknowns α) (names : List String) : Unknowns α :=
  names.foldl (fun u name => if u.isSolved name then u else (u.use name 1).1) u

def addEquation (w : Worksheet α) (e : LineEquation) (line : String) (number : Nat) :
    Worksheet α :=
  let counted := { w with unknowns := useAll w.unknowns e.unknowns }
  { counted.spellAll line with
    equations := w.equations ++ [⟨e.residual, e.unknowns, number⟩]
    unsolved := w.unsolved ++ [w.equations.length] }

def add (w : Worksheet α) (line : String) (number : Nat) : Statement → Worksheet α
  | .blank => w
  | .differential d => w.addDifferential d
  | .equation e => w.addEquation e line number

/-- Enters a line with a number; a line that is refused only counts as read. -/
def enterAt (w : Worksheet α) (mode : AngleMode) (line : String) (number : Nat) :
    Worksheet α × Except LineError Unit :=
  let w := { w with lastLine := max w.lastLine number }
  match Statement.ofLine mode line with
  | .error e => (w, .error e)
  | .ok s => (w.add line number s, .ok ())

def enter (w : Worksheet α) (mode : AngleMode) (line : String) :
    Worksheet α × Except LineError Unit :=
  w.enterAt mode line (w.lastLine + 1)

def setInitial (w : Worksheet α) (spelling : String) (value : α) : Worksheet α :=
  { w with initial := w.initial.insert (Name.internal spelling) value }

def unsolvedIn (w : Worksheet α) (id : Nat) : List String :=
  match w.equations[id]? with
  | none => []
  | some e => e.unknowns.filter fun v => !w.unknowns.isSolved v

def residualsOf (w : Worksheet α) (ids : List Nat) : List String :=
  ids.filterMap fun id => (w.equations[id]?).map (·.residual)

structure SolvedBlock (α : Type) where
  equations : List Nat
  result : BlockResult α
deriving DecidableEq

def record (u : Unknowns α) (names : List String) (values : List α) : Unknowns α :=
  (names.zip values).foldl (fun u (name, value) => u.solve name value) u

def apply (w : Worksheet α) (b : SolvedBlock α) : Worksheet α :=
  let flagged :=
    { w with
      failed := w.failed || b.result.outcome.isError
      timedOut := w.timedOut || b.result.outcome.isTimeout }
  if b.result.outcome.hasValues then
    { flagged with
      unknowns := record w.unknowns b.result.unknowns b.result.values
      unsolved := w.unsolved.filter (· ∉ b.equations)
      solved := w.solved ++ b.equations.filter (· ∈ w.unsolved) }
  else flagged

structure Run (α : Type) where
  worksheet : Worksheet α
  blocks : List (SolvedBlock α)

namespace Run

def solvedCount (r : Run α) : Nat :=
  (r.blocks.filter (·.result.outcome.hasValues)).foldl (· + ·.result.unknowns.length) 0

def add (r : Run α) (b : SolvedBlock α) : Run α := ⟨r.worksheet.apply b, r.blocks ++ [b]⟩

end Run

variable [Scalar α] (solver : BlockSolver α)

def solveBlock (w : Worksheet α) (ids : List Nat) (unknowns : List String) : SolvedBlock α :=
  ⟨ids, solver.solve (solver.timing.worker ids) (w.residualsOf ids) unknowns w.unknowns.solved
    w.initial⟩

def nextSingle? (w : Worksheet α) (waiting : List Nat) : Option Nat :=
  waiting.find? fun id => (w.unsolvedIn id).length = 1

/-- Solves equations with one open unknown for it, each once, until there are none. The result
lists the equations that are still waiting. -/
def solveSingles (r : Run α) (waiting : List Nat) : Run α × List Nat :=
  match _ : nextSingle? r.worksheet waiting with
  | none => (r, waiting)
  | some id =>
    let block := r.worksheet.solveBlock solver [id] (r.worksheet.unsolvedIn id)
    solveSingles (r.add block) (waiting.erase id)
termination_by waiting.length
decreasing_by
  rename_i found
  have member := List.mem_of_find?_eq_some found
  have := List.length_erase_of_mem member
  have := List.length_pos_of_mem member
  omega

def isBlocked (w : Worksheet α) (b : EquationBlock) : Bool :=
  b.equations.any fun id => (w.unsolvedIn id).any (· ∉ b.unknowns)

def solveNext (r : Run α) (b : EquationBlock) : Run α :=
  if r.worksheet.isBlocked b then r
  else r.add (r.worksheet.solveBlock solver b.equations b.unknowns)

def decompose (w : Worksheet α) (limit : Nat) (ids : List Nat) : Decomposition :=
  .of (.ofEquations (ids.map fun id => (id, w.unsolvedIn id)) fun _ => true) (.standard limit)

def solve (w : Worksheet α) : Run α :=
  let (r, waiting) := solveSingles solver ⟨w, []⟩ w.unsolved
  let d := r.worksheet.decompose solver.settings.startCandidates waiting
  d.blocks.foldl (solveNext solver) r

end Worksheet

end Simultaneous
