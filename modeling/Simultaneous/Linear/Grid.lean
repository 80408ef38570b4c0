import Simultaneous.Scalar.Basic

/-!
Vectors and matrices of fixed size. A matrix is the vector of its rows. Sums run from the first
term to the last.
-/

namespace Simultaneous

abbrev Grid (α : Type) (m n : Nat) := Vector (Vector α n) m

namespace Linear

variable {α : Type} [Scalar α] {m n k : Nat}

def vectorOf (n : Nat) (entries : Array α) : Vector α n :=
  Vector.ofFn fun i => entries[i.val]?.getD Scalar.undefined

def gridOf (m n : Nat) (entries : Array α) : Grid α m n :=
  Vector.ofFn fun i => Vector.ofFn fun j => entries[i.val * n + j.val]?.getD Scalar.undefined

def add (x y : Vector α n) : Vector α n := Vector.zipWith (· + ·) x y

def sub (x y : Vector α n) : Vector α n := Vector.zipWith (· - ·) x y

def neg (x : Vector α n) : Vector α n := x.map (-·)

def scale (x : Vector α n) (c : α) : Vector α n := x.map (· * c)

def dot (x y : Vector α n) : α := (Vector.zipWith (· * ·) x y).foldl (· + ·) Scalar.zero

def normSquared (x : Vector α n) : α := dot x x

def norm (x : Vector α n) : α := Scalar.sqrt (normSquared x)

def maxAbs (x : Vector α n) : α :=
  x.foldl (fun largest c => Scalar.max largest (Scalar.abs c)) Scalar.zero

def isFinite (x : Vector α n) : Bool := x.all Scalar.isFinite

def transpose (a : Grid α m n) : Grid α n m :=
  Vector.ofFn fun j => a.map fun row => row[j]

def mulVector (a : Grid α m n) (x : Vector α n) : Vector α m := a.map (dot · x)

def mulTransposed (a : Grid α m n) (b : Grid α k n) : Grid α m k :=
  a.map fun row => b.map (dot row)

def addGrid (a b : Grid α m n) : Grid α m n := Vector.zipWith add a b

def diagonal (a : Grid α n n) : Vector α n := Vector.ofFn fun i => a[i][i]

def addDiagonal (a : Grid α n n) (d : Vector α n) : Grid α n n :=
  Vector.ofFn fun i => Vector.ofFn fun j => if i = j then a[i][j] + d[i] else a[i][j]

def isFiniteGrid (a : Grid α m n) : Bool := a.all isFinite

def quadratic (a : Grid α n n) (x : Vector α n) : α := dot (mulVector (transpose a) x) x

end Linear

end Simultaneous
