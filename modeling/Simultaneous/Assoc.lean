/-!
Tables of named values that keep the order in which the names were first entered.
-/

namespace Simultaneous

/-- Named values; a name occurs at most once if the table was made by insertion. -/
abbrev Assoc (β : Type) := List (String × β)

namespace Assoc

variable {β : Type}

def get? (t : Assoc β) (name : String) : Option β := (t.find? (·.1 = name)).map (·.2)

/-- Replaces the value of a name where it stands, or adds the name at the end. -/
def insert (t : Assoc β) (name : String) (value : β) : Assoc β :=
  match t with
  | [] => [(name, value)]
  | entry :: rest =>
    if entry.1 = name then (name, value) :: rest else entry :: insert rest name value

def insertNew (t : Assoc β) (name : String) (value : β) : Assoc β :=
  if (t.get? name).isSome then t else t ++ [(name, value)]

def erase (t : Assoc β) (name : String) : Assoc β := t.filter (·.1 ≠ name)

def contains (t : Assoc β) (name : String) : Bool := (t.get? name).isSome

def names (t : Assoc β) : List String := t.map (·.1)

theorem get?_nil (name : String) : get? ([] : Assoc β) name = none := rfl

theorem get?_cons (entry : String × β) (rest : Assoc β) (name : String) :
    get? (entry :: rest) name = if entry.1 = name then some entry.2 else get? rest name := by
  by_cases h : entry.1 = name <;> simp [get?, h]

theorem get?_insert (t : Assoc β) (name other : String) (value : β) :
    (t.insert name value).get? other = if name = other then some value else t.get? other := by
  induction t with
  | nil => simp [insert, get?_cons, get?_nil]
  | cons entry rest ih =>
    by_cases h : entry.1 = name
    · rw [insert, if_pos h, get?_cons, get?_cons, h]
      by_cases same : name = other <;> simp [same]
    · rw [insert, if_neg h, get?_cons, get?_cons, ih]
      by_cases first : entry.1 = other
      · have : ¬name = other := fun eq => h (first.trans eq.symm)
        simp [first, this]
      · simp [first]

theorem get?_erase (t : Assoc β) (name other : String) :
    (t.erase name).get? other = if name = other then none else t.get? other := by
  induction t with
  | nil => simp [erase, get?_nil]
  | cons entry rest ih =>
    rw [erase] at ih
    by_cases h : entry.1 = name
    · rw [erase, List.filter_cons_of_neg (by simpa using h), ih, get?_cons, h]
      by_cases same : name = other <;> simp [same]
    · rw [erase, List.filter_cons_of_pos (by simpa using h), get?_cons, get?_cons, ih]
      by_cases first : entry.1 = other
      · have : ¬name = other := fun eq => h (first.trans eq.symm)
        simp [first, this]
      · simp [first]

end Assoc

end Simultaneous
