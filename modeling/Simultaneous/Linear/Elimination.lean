import Simultaneous.Linear.Grid

/-!
Linear equations by elimination with partial pivoting. The row with the largest leading magnitude
comes first; a column without a pivot leaves the equations unsolved.
-/

namespace Simultaneous.Linear

variable {α : Type} [Scalar α]

structure Row (α : Type) where
  coefficients : List α
  right : α

structure Led (α : Type) where
  lead : α
  others : List α
  right : α

def Row.led? (r : Row α) : Option (Led α) :=
  match r.coefficients with
  | [] => none
  | lead :: others => some ⟨lead, others, r.right⟩

/-- The row with the largest leading magnitude, the first of several. The rows that are left are
those after an exchange of that row with the first one. -/
def pivot (first : Led α) : List (Led α) → Led α × List (Led α)
  | [] => (first, [])
  | next :: rest =>
    let (best, others) := pivot first rest
    if Scalar.lt (Scalar.abs first.lead) (Scalar.abs next.lead) &&
        !Scalar.lt (Scalar.abs next.lead) (Scalar.abs best.lead) then
      (next, first :: rest)
    else (best, next :: others)

def reduce (p : Led α) (r : Led α) : Row α :=
  let factor := r.lead * (Scalar.one / p.lead)
  ⟨List.zipWith (fun y x => -x * factor + y) r.others p.others, -p.right * factor + r.right⟩

def substitute (p : Led α) (xs : List α) : α :=
  (p.others.zip xs).foldr (fun (a, x) right => -x * a + right) p.right / p.lead

def eliminate? : (unknowns : Nat) → List (Row α) → Option (List α)
  | 0, _ => some []
  | unknowns + 1, rows =>
    match rows.filterMap Row.led? with
    | [] => none
    | first :: rest =>
      let (p, others) := pivot first rest
      if p.lead == Scalar.zero then none
      else (eliminate? unknowns (others.map (reduce p))).map fun xs => substitute p xs :: xs

def vector? (n : Nat) (xs : List α) : Option (Vector α n) :=
  if h : xs.length = n then some ⟨xs.toArray, by simpa using h⟩ else none

def solve? {m n : Nat} (a : Grid α m n) (b : Vector α m) : Option (Vector α n) :=
  let rows := (Vector.zipWith (fun row right => Row.mk row.toList right) a b).toList
  if m = n then (eliminate? n rows).bind (vector? n) else none

end Simultaneous.Linear
