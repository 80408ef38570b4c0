import Simultaneous.Property.Call
import Simultaneous.Review
import Simultaneous.Script

/-!
Running a script on a worksheet: every line is entered, and if none was refused, all that can be
solved is solved and reviewed.
-/

namespace Simultaneous

inductive RefusalCause where
  | call (e : CallError)
  | line (e : LineError)
deriving Repr, DecidableEq

def RefusalCause.message : RefusalCause → String
  | call e => e.message
  | line e => e.message

structure Refusal where
  line : Nat
  cause : RefusalCause
deriving Repr, DecidableEq

structure Solution (α : Type) where
  /-- the blocks tried, and the worksheet before the review -/
  run : Worksheet.Run α
  /-- the worksheet after the review -/
  worksheet : Worksheet α
  findings : List (Finding α)

inductive Report (α : Type) where
  /-- lines were refused, and nothing was solved; the other lines are on the worksheet -/
  | refused (lines : List Refusal) (worksheet : Worksheet α)
  | solved (s : Solution α)

namespace Script

variable {α : Type}

def tidied (line : String) : String :=
  String.ofList ((Text.trim line.toList).map fun c => if c = '\t' then ' ' else c)

def substituted (table? : Option PropertyTable) (line : String) : Except CallError String :=
  match table? with
  | none => .ok line
  | some table => (table.substitute line).map (·.getD line)

def enterLine (table? : Option PropertyTable) (mode : AngleMode) (w : Worksheet α)
    (number : Nat) (line : String) : Worksheet α × Option Refusal :=
  let line := tidied line
  if line.isEmpty then (w, none)
  else match substituted table? line with
    | .error e => (w, some ⟨number, .call e⟩)
    | .ok line =>
      match w.enterAt mode line number with
      | (w, .ok ()) => (w, none)
      | (w, .error e) => (w, some ⟨number, .line e⟩)

def enterLines (table? : Option PropertyTable) (mode : AngleMode) :
    List (Nat × String) → Worksheet α → Worksheet α × List Refusal
  | [], w => (w, [])
  | (number, line) :: rest, w =>
    let (w, refusal?) := enterLine table? mode w number line
    let (w, refusals) := enterLines table? mode rest w
    (w, refusal?.toList ++ refusals)

variable [Scalar α]

def setStarts (starts : List (String × Decimal.Numeral)) (w : Worksheet α) : Worksheet α :=
  starts.foldl (fun w (name, value) => w.setInitial name (Scalar.ofNumeral value)) w

def run (s : Script) (solver : BlockSolver α) (table? : Option PropertyTable) (w : Worksheet α) :
    Report α :=
  let (w, refusals) := enterLines table? solver.settings.angleMode s.lines w
  let w := setStarts s.starts w
  if refusals.isEmpty then
    let r := w.solve solver
    let (reviewed, findings) := r.worksheet.review solver.settings.precision
    .solved ⟨r, reviewed, findings⟩
  else .refused refusals { w with failed := true }

end Script

namespace Solution

variable {α : Type}

def results (s : Solution α) : List (String × α) :=
  (s.worksheet.unknowns.solved.map fun (name, x) => (s.worksheet.unknowns.shown name, x)).mergeSort
    fun a b => a.1 ≤ b.1

def unsolved (s : Solution α) : List String :=
  (s.worksheet.unknowns.pending.map fun (u : Unknown) =>
    s.worksheet.unknowns.shown u.name).mergeSort

def differentials (s : Solution α) : List String := s.worksheet.differentials.map (·.text)

end Solution

/-! Where lines were refused there is nothing to tell but these, whatever the worksheet holds. -/

namespace Report

variable {α : Type}

def worksheet : Report α → Worksheet α
  | refused _ w => w
  | solved s => s.worksheet

def refusals : Report α → List Refusal
  | refused lines _ => lines
  | solved _ => []

def tried : Report α → List (Worksheet.SolvedBlock α)
  | refused _ _ => []
  | solved s => s.run.blocks

def findings : Report α → List (Finding α)
  | refused _ _ => []
  | solved s => s.findings

def results : Report α → List (String × α)
  | refused _ _ => []
  | solved s => s.results

def unsolved : Report α → List String
  | refused _ _ => []
  | solved s => s.unsolved

def differentials : Report α → List String
  | refused _ _ => []
  | solved s => s.differentials

def failed : Report α → Bool
  | refused _ _ => true
  | solved s => s.worksheet.failed

end Report

end Simultaneous
