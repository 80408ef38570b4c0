import Simultaneous.Unknowns

/-!
The unknowns of a worksheet as they are stored. Open unknowns are in slots: a registration takes the
next slot, whose place is its handle, and closing an unknown leaves a hole. An index leads from
internal names to slots. Values and the order in which they were found are stored apart from each
other.
-/

namespace Simultaneous

structure Registry (α : Type) where
  /-- one slot per registration, in their order -/
  slots : Array (Option Unknown)
  /-- the slots of open unknowns by internal name -/
  index : Assoc Nat
  /-- values by internal name -/
  solved : Assoc α
  /-- the names with values in the order in which these were found first -/
  solveOrder : List String
  /-- the first spelling of each internal name -/
  spellings : Assoc String
deriving Repr

namespace Registry

variable {α : Type}

def empty : Registry α := ⟨#[], [], [], [], []⟩

def use (r : Registry α) (spelling : String) (n : Nat) : Registry α × Nat :=
  let key := Name.internal spelling
  match r.index.get? key with
  | some id =>
    ({ r with slots := r.slots.modify id (Option.map fun e => { e with uses := e.uses + n }) }, id)
  | none =>
    let id := r.slots.size
    ({ r with slots := r.slots.push (some ⟨id, key, n⟩), index := r.index.insert key id }, id)

def put (r : Registry α) (id : Nat) (slot : Option Unknown) : Registry α :=
  { r with slots := r.slots.setIfInBounds id slot }

/-- Takes a name out of the index and leaves a hole in its slot. -/
def remove (r : Registry α) (key : String) (id : Nat) : Registry α :=
  { r.put id none with index := r.index.erase key }

def withHandle? (r : Registry α) (id : Nat) : Option Unknown := r.slots[id]?.join

def release (r : Registry α) (spelling : String) : Registry α × Bool :=
  let key := Name.internal spelling
  match r.index.get? key with
  | none => (r, false)
  | some id =>
    match r.withHandle? id with
    | none => (r, true)
    | some e =>
      let left := e.uses - 1
      let counted := r.put id (some { e with uses := left })
      (if left = 0 then counted.remove key id else counted, true)

def close (r : Registry α) (spelling : String) : Registry α × Bool :=
  let key := Name.internal spelling
  match r.index.get? key with
  | some id => (r.remove key id, true)
  | none => (r, false)

def find? (r : Registry α) (spelling : String) : Option Unknown :=
  (r.index.get? (Name.internal spelling)).bind r.withHandle?

def uses (r : Registry α) (spelling : String) : Nat := ((r.find? spelling).map (·.uses)).getD 0

def pending (r : Registry α) : List Unknown := r.slots.toList.filterMap id

def isPending (r : Registry α) (spelling : String) : Bool :=
  r.index.contains (Name.internal spelling)

def solve (r : Registry α) (spelling : String) (value : α) : Registry α :=
  let key := Name.internal spelling
  let closed := (r.close key).1
  { closed with
    solved := closed.solved.insert key value
    solveOrder :=
      if closed.solved.contains key then closed.solveOrder else closed.solveOrder ++ [key] }

def value? (r : Registry α) (spelling : String) : Option α := r.solved.get? (Name.internal spelling)

def spell (r : Registry α) (spelling : String) : Registry α :=
  { r with spellings := r.spellings.insertNew (Name.internal spelling) spelling }

/-- The name to show: the first spelling, or else the internal name with underscores. -/
def shown (r : Registry α) (spelling : String) : String :=
  let key := Name.internal spelling
  (r.spellings.get? key).getD (Name.spelled key)

end Registry

end Simultaneous
