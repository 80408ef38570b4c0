import Simultaneous.Assoc
import Simultaneous.Name

/-!
The unknowns of a worksheet: which of them are open and how often each is used, which are solved
and with what values, and how users spell them. All operations take any spelling of a name.
-/

namespace Simultaneous

structure Unknown where
  /-- given at registration and never again -/
  handle : Nat
  /-- the internal name -/
  name : String
  /-- in how many places the unknown is used -/
  uses : Nat
deriving Repr, DecidableEq

structure Unknowns (α : Type) where
  /-- open unknowns in the order of registration -/
  pending : List Unknown
  /-- the handle of the next registration -/
  next : Nat
  /-- values by internal name, in the order in which they were found first -/
  solved : Assoc α
  /-- the first spelling of each internal name -/
  spellings : Assoc String
deriving Repr

namespace Unknowns

variable {α : Type}

def empty : Unknowns α := ⟨[], 0, [], []⟩

def find? (u : Unknowns α) (spelling : String) : Option Unknown :=
  let name := Name.internal spelling
  u.pending.find? (·.name = name)

def withHandle? (u : Unknowns α) (handle : Nat) : Option Unknown :=
  u.pending.find? (·.handle = handle)

def isPending (u : Unknowns α) (spelling : String) : Bool := (u.find? spelling).isSome

def uses (u : Unknowns α) (spelling : String) : Nat := ((u.find? spelling).map (·.uses)).getD 0

def changeUses (entries : List Unknown) (name : String) (change : Nat → Nat) : List Unknown :=
  entries.map fun e => if e.name = name then { e with uses := change e.uses } else e

def use (u : Unknowns α) (spelling : String) (n : Nat) : Unknowns α × Nat :=
  let name := Name.internal spelling
  match u.find? spelling with
  | some e => ({ u with pending := changeUses u.pending name (· + n) }, e.handle)
  | none => ({ u with pending := u.pending ++ [⟨u.next, name, n⟩], next := u.next + 1 }, u.next)

def close (u : Unknowns α) (spelling : String) : Unknowns α :=
  let name := Name.internal spelling
  { u with pending := u.pending.filter (·.name ≠ name) }

def release (u : Unknowns α) (spelling : String) : Unknowns α :=
  if u.uses spelling ≤ 1 then u.close spelling
  else { u with pending := changeUses u.pending (Name.internal spelling) (· - 1) }

def value? (u : Unknowns α) (spelling : String) : Option α := u.solved.get? (Name.internal spelling)

def isSolved (u : Unknowns α) (spelling : String) : Bool := (u.value? spelling).isSome

def solve (u : Unknowns α) (spelling : String) (value : α) : Unknowns α :=
  { u.close spelling with solved := u.solved.insert (Name.internal spelling) value }

def spell (u : Unknowns α) (spelling : String) : Unknowns α :=
  { u with spellings := u.spellings.insertNew (Name.internal spelling) spelling }

def shown (u : Unknowns α) (spelling : String) : String :=
  let name := Name.internal spelling
  (u.spellings.get? name).getD (Name.spelled name)

end Unknowns

end Simultaneous
