import Simultaneous.Distinct

/-!
Which unknowns occur in which equations: a table with a row per equation and a column per unknown,
kept from both sides.
-/

namespace Simultaneous

structure Incidence where
  /-- the equation of each row -/
  equations : List Nat
  /-- the unknown of each column -/
  unknowns : List String
  /-- the columns that each row meets -/
  rows : List (List Nat)
  /-- the rows that each column meets -/
  columns : List (List Nat)
deriving Repr, DecidableEq

namespace Incidence

def empty : Incidence := ⟨[], [], [], []⟩

/-- Adds a row for an equation that names unknowns; new ones get columns in the order in which the
equation names them. -/
def add (g : Incidence) (equation : Nat) (names : List String) : Incidence :=
  let named := firstOccurrences names
  let fresh := named.filter (· ∉ g.unknowns)
  let unknowns := g.unknowns ++ fresh
  let row := named.map unknowns.idxOf
  { equations := g.equations ++ [equation]
    unknowns
    rows := g.rows ++ [row]
    columns := (g.columns ++ fresh.map fun _ => []).mapIdx fun j met =>
      if j ∈ row then met ++ [g.rows.length] else met }

def ofEquations (equations : List (Nat × List String)) (isUnknown : String → Bool) : Incidence :=
  equations.foldl (fun g (equation, names) => g.add equation (names.filter isUnknown)) empty

def unknown? (g : Incidence) (column : Nat) : Option String := g.unknowns[column]?

def row (g : Incidence) (i : Nat) : List Nat := g.rows[i]?.getD []

def column (g : Incidence) (j : Nat) : List Nat := g.columns[j]?.getD []

def references (g : Incidence) (j : Nat) : Nat := (g.column j).length

inductive Node where
  | column (j : Nat)
  | row (i : Nat)
deriving Repr, DecidableEq

def nodes (g : Incidence) : List Node :=
  (List.range g.unknowns.length).map .column ++ (List.range g.equations.length).map .row

def place (g : Incidence) : Node → Nat
  | .column j => j
  | .row i => g.unknowns.length + i

def neighbours (g : Incidence) : Node → List Node
  | .column j => (g.column j).map .row
  | .row i => (g.row i).map .column

end Incidence

end Simultaneous
