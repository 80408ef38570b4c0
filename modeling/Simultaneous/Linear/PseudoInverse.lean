import Simultaneous.Linear.Elimination

/-!
The shortest least-squares solution of linear equations. Plane rotations make the columns of the
matrix orthogonal; the lengths of the columns are then the singular values, and those that are
negligible are left out.
-/

namespace Simultaneous.Linear

variable {α : Type} [Scalar α]

/-- A column of the rotated matrix, and the column of the rotation that made it. -/
structure Column (α : Type) where
  image : List α
  direction : List α

def dotList (x y : List α) : α := (List.zipWith (· * ·) x y).foldl (· + ·) Scalar.zero

/-- The distance from one to the next floating-point number: what counts as zero. -/
def negligible : α := Scalar.one / Scalar.ofInt (Int.pow 2 52)

def turn (c s : α) (x y : List α) : List α × List α :=
  (List.zipWith (fun a b => c * a - s * b) x y, List.zipWith (fun a b => s * a + c * b) x y)

def orthogonalize (p q : Column α) : Column α × Column α × Bool :=
  let a := dotList p.image p.image
  let b := dotList q.image q.image
  let g := dotList p.image q.image
  if Scalar.le (Scalar.abs g) (negligible * Scalar.sqrt (a * b)) then (p, q, false)
  else
    let zeta := (b - a) / (Scalar.ofInt 2 * g)
    let size := Scalar.one / (Scalar.abs zeta + Scalar.sqrt (Scalar.one + zeta * zeta))
    let t := if Scalar.lt zeta Scalar.zero then -size else size
    let c := Scalar.one / Scalar.sqrt (Scalar.one + t * t)
    let s := c * t
    let (pi, qi) := turn c s p.image q.image
    let (pd, qd) := turn c s p.direction q.direction
    (⟨pi, pd⟩, ⟨qi, qd⟩, true)

def orthogonalizeAll (p : Column α) : List (Column α) → Column α × List (Column α) × Bool
  | [] => (p, [], false)
  | q :: rest =>
    let (p, q, turned) := orthogonalize p q
    let (p, rest, more) := orthogonalizeAll p rest
    (p, q :: rest, turned || more)

def sweep : List (Column α) → List (Column α) × Bool
  | [] => ([], false)
  | p :: rest =>
    let (rest, turned) := sweep rest
    let (p, rest, more) := orthogonalizeAll p rest
    (p :: rest, turned || more)

def sweeps : (limit : Nat) → List (Column α) → List (Column α)
  | 0, columns => columns
  | limit + 1, columns =>
    let (columns, turned) := sweep columns
    if turned then sweeps limit columns else columns

def combine (b : List α) (zero : List α) (columns : List (Column α)) : List α :=
  columns.foldl (fun x column =>
    let length := Scalar.sqrt (dotList column.image column.image)
    if Scalar.lt negligible length then
      let share := dotList column.image b / length / length
      List.zipWith (fun xi d => xi + share * d) x column.direction
    else x) zero

def leastSquares? {m n : Nat} (a : Grid α m n) (b : Vector α m) : Option (Vector α n) :=
  let unit (j : Nat) : List α :=
    (List.range n).map fun i => if i = j then Scalar.one else Scalar.zero
  let columns := (transpose a).toList.zipIdx.map fun (column, j) => Column.mk column.toList (unit j)
  vector? n (combine b.toList (List.replicate n Scalar.zero) (sweeps 60 columns))

end Simultaneous.Linear
