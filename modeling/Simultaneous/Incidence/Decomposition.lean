import Simultaneous.Incidence.Layout

/-!
Cutting a system into blocks that can be solved one after the other. A column is settled once an
earlier block has it; a row whose columns are all settled only checks what was found.
-/

namespace Simultaneous

open Incidence

structure EquationBlock where
  /-- in increasing order -/
  equations : List Nat
  /-- in the order of columns -/
  unknowns : List String
deriving Repr, DecidableEq

def EquationBlock.isSquare (b : EquationBlock) : Bool := b.equations.length = b.unknowns.length

/-- Blocks in the order in which they can be solved, and the equations that no block needs. -/
structure Decomposition where
  blocks : List EquationBlock
  consistency : List Nat
deriving Repr, DecidableEq

namespace Decomposition

variable (g : Incidence)

def openColumns (settled : List Nat) (r : Nat) : List Nat := (g.row r).filter (· ∉ settled)

def isSettled (settled : List Nat) (r : Nat) : Bool := (openColumns g settled r).isEmpty

def isSingle (settled : List Nat) (r : Nat) : Bool := (openColumns g settled r).length = 1

def openUnion (columns settled rows : List Nat) : List Nat :=
  columns.filter fun c => rows.any fun r => c ∈ openColumns g settled r

/-- How many rows to join: the fewest first ones that have as many open columns as there are rows,
or all of them. -/
def joined (columns settled rows : List Nat) : Nat :=
  ((List.range' 1 rows.length).find? fun k =>
    (openUnion g columns settled (rows.take k)).length = k).getD rows.length

/-- The rows of the next block, and the rows left: the first row with a single open column, or
rows joined. -/
def split (columns settled rows : List Nat) : List Nat × List Nat :=
  match rows.find? (isSingle g settled) with
  | some r => ([r], rows.eraseP (isSingle g settled))
  | none => rows.splitAt (joined g columns settled rows)

theorem joined_pos (columns settled rows : List Nat) (h : rows ≠ []) :
    0 < joined g columns settled rows := by
  unfold joined
  cases found : (List.range' 1 rows.length).find? fun k =>
      (openUnion g columns settled (rows.take k)).length = k with
  | none => simpa [List.length_pos_iff] using h
  | some k =>
    have := List.mem_of_find?_eq_some found
    simp only [List.mem_range'_1] at this
    simp only [Option.getD_some]
    omega

theorem length_split_snd (columns settled rows : List Nat) (h : rows ≠ []) :
    (split g columns settled rows).2.length < rows.length := by
  have := List.length_pos_iff.2 h
  unfold split
  cases found : rows.find? (isSingle g settled) with
  | some r =>
    have := List.length_eraseP_of_mem (List.mem_of_find?_eq_some found)
      (List.find?_some found)
    simp only
    omega
  | none =>
    have := joined_pos g columns settled rows h
    simp only [List.splitAt_eq, List.length_drop]
    omega

def settledRows (settled rows : List Nat) : List Nat := rows.filter (isSettled g settled)

def openRows (settled rows : List Nat) : List Nat := rows.filter fun r => !isSettled g settled r

theorem length_openRows_le (settled rows : List Nat) :
    (openRows g settled rows).length ≤ rows.length :=
  List.length_filter_le _ _

def equationsOf (rows : List Nat) : List Nat := rows.filterMap (g.equations[·]?)

def blockOf (rows columns : List Nat) : EquationBlock where
  equations := (equationsOf g rows).mergeSort
  unknowns := columns.filterMap g.unknown?

def reduce (columns settled rows : List Nat) : Decomposition :=
  let checks := equationsOf g (settledRows g settled rows)
  if _ : openRows g settled rows = [] then ⟨[], checks⟩
  else
    let parts := split g columns settled (openRows g settled rows)
    let taken := openUnion g columns settled parts.1
    let later := reduce columns (settled ++ taken) parts.2
    ⟨blockOf g parts.1 taken :: later.blocks, checks ++ later.consistency⟩
termination_by rows.length
decreasing_by
  rename_i nonempty
  have := length_split_snd g columns settled _ nonempty
  have := length_openRows_le g settled rows
  omega

def of (h : Heuristic) : Decomposition :=
  let l := h.layout g
  reduce g l.columns [] l.rows

end Decomposition

end Simultaneous
