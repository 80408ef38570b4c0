import Simultaneous.Graph.Component
import Simultaneous.Incidence.Basic

/-!
Layouts of the incidence table: an order of its rows and one of its columns, found by a search for
components, and the choice of the layout to work with.
-/

namespace Simultaneous

namespace Incidence

def Node.row? : Node → Option Nat
  | .row i => some i
  | .column _ => none

def Node.column? : Node → Option Nat
  | .column j => some j
  | .row _ => none

/-- The components in the order of a search from one node, if it exists, and then from all others.
A node is known by its place among all nodes. -/
def components (g : Incidence) (start? : Option Node) : List (List Node) :=
  Graph.components g.neighbours g.nodes
    ((start?.bind fun v => g.nodes[g.place v]?).toList ++ g.nodes)

end Incidence

open Incidence

structure Layout where
  rows : List Nat
  columns : List Nat
deriving Repr, DecidableEq

namespace Layout

def ofComponents (components : List (List Node)) : Layout where
  rows := components.flatten.filterMap Node.row?
  columns := components.flatten.filterMap Node.column?

def aboveDiagonal (g : Incidence) (l : Layout) : Nat :=
  (l.rows.mapIdx fun i r => ((g.row r).filter fun c => i < l.columns.idxOf c).length).foldl
    (· + ·) 0

end Layout

/-- The unknowns with the fewest references, in the order of their columns; at least one is taken
if there is any. -/
def Incidence.rarest (g : Incidence) (limit : Nat) : List Node :=
  let columns := List.range g.unknowns.length
  match (columns.map g.references).min? with
  | none => []
  | some least =>
    ((columns.filter fun j => g.references j = least).take (max limit 1)).map .column

structure Heuristic where
  /-- the nodes to start a search from, given a limit for their number -/
  candidates : Incidence → (limit : Nat) → List Node
  /-- the rank of a layout; lower is better -/
  score : Incidence → Layout → Nat
  limit : Nat

namespace Heuristic

def standard (limit : Nat) : Heuristic := ⟨Incidence.rarest, Layout.aboveDiagonal, limit⟩

def starts (h : Heuristic) (g : Incidence) : List (Option Node) :=
  match h.candidates g h.limit with
  | [] => [none]
  | candidates => candidates.map some

def layoutFrom (g : Incidence) (start? : Option Node) : Layout :=
  .ofComponents (g.components start?)

/-- The better of two layouts, the first one if they rank the same. -/
def better (h : Heuristic) (g : Incidence) (first second : Layout) : Layout :=
  if h.score g second < h.score g first then second else first

def layout (h : Heuristic) (g : Incidence) : Layout :=
  match (h.starts g).map (layoutFrom g) with
  | [] => layoutFrom g none
  | first :: others => others.foldl (h.better g) first

end Heuristic

end Simultaneous
