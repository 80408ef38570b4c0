import Simultaneous.Linear.Elimination

/-!
Linear equations with a positive definite matrix, by its triangular square root. Only the lower
triangle of the matrix is read; a pivot that is zero, negative or undefined shows that the matrix
is not positive definite.
-/

namespace Simultaneous.Linear

variable {α : Type} [Scalar α]

/-- Columns of a lower triangle, each from its diagonal entry down. -/
abbrev Triangle (α : Type) := List (List α)

def downdate : (left : List α) → Triangle α → Triangle α
  | l :: ls, column :: rest =>
    List.zipWith (fun y x => -l * x + y) column (l :: ls) :: downdate ls rest
  | _, _ => []

theorem length_downdate_le (left : List α) (t : Triangle α) :
    (downdate left t).length ≤ t.length := by
  induction t generalizing left with
  | nil => cases left <;> simp [downdate]
  | cons column rest ih =>
    cases left with
    | nil => simp [downdate]
    | cons l ls => simpa [downdate] using ih ls

def divideAll (xs : List α) (d : α) : List α := xs.map (· / d)

def squareRoot? (t : Triangle α) : Option (Triangle α) :=
  match t with
  | [] => some []
  | [] :: _ => none
  | (d :: below) :: rest =>
    if d == Scalar.zero || !Scalar.le Scalar.zero d then none
    else
      let root := Scalar.sqrt d
      let left := divideAll below root
      (squareRoot? (downdate left rest)).map ((root :: left) :: ·)
termination_by t.length
decreasing_by
  have := length_downdate_le (divideAll below (Scalar.sqrt d)) rest
  simp only [List.length_cons]
  omega

def forward : Triangle α → List α → List α
  | (d :: below) :: rest, b :: bs =>
    let y := b / d
    y :: forward rest (List.zipWith (fun c l => -y * l + c) bs below)
  | _, _ => []

def backward : Triangle α → List α → List α
  | (d :: below) :: rest, y :: ys =>
    let xs := backward rest ys
    let sum := (List.zipWith (· * ·) below xs).foldl (· + ·) Scalar.zero
    (y - sum) / d :: xs
  | _, _ => []

def lowerTriangle {n : Nat} (a : Grid α n n) : Triangle α :=
  ((transpose a).toList.zipIdx).map fun (column, j) => column.toList.drop j

def solvePositive? {n : Nat} (a : Grid α n n) (b : Vector α n) : Option (Vector α n) :=
  (squareRoot? (lowerTriangle a)).bind fun t => vector? n (backward t (forward t b.toList))

end Simultaneous.Linear
