import Simultaneous.Proofs.Worksheet.Uses

/-!
The open unknowns as a finite map from internal names to numbers of uses, with the names in the
order of their registration. Every operation on unknowns is one on this map, whatever spellings it
is given.
-/

namespace Simultaneous

namespace Unknowns

variable {α : Type}

inductive Operation (α : Type) where
  | use (spelling : String) (n : Nat)
  | release (spelling : String)
  | close (spelling : String)
  | solve (spelling : String) (value : α)
  | spell (spelling : String)

def operate (u : Unknowns α) : Operation α → Unknowns α
  | .use spelling n => (u.use spelling n).1
  | .release spelling => u.release spelling
  | .close spelling => u.close spelling
  | .solve spelling value => u.solve spelling value
  | .spell spelling => u.spell spelling

def operated (operations : List (Operation α)) : Unknowns α := operations.foldl operate empty

end Unknowns

/-- Numbers of uses by internal name, and the names that have one in the order in which they got
it. -/
@[ext]
structure Ledger where
  names : List String
  count : String → Option Nat

namespace Ledger

open Unknowns (Operation)

variable {α : Type}

def empty : Ledger := ⟨[], fun _ => none⟩

def set (l : Ledger) (name : String) (n : Nat) : Ledger :=
  { l with count := Function.update l.count name (some n) }

def add (l : Ledger) (name : String) (n : Nat) : Ledger :=
  { l.set name n with names := l.names ++ [name] }

def strike (l : Ledger) (name : String) : Ledger :=
  ⟨l.names.filter (· ≠ name), Function.update l.count name none⟩

theorem count_set (l : Ledger) (name other : String) (n : Nat) :
    (l.set name n).count other = if other = name then some n else l.count other :=
  Function.update_apply ..

theorem count_add (l : Ledger) (name other : String) (n : Nat) :
    (l.add name n).count other = if other = name then some n else l.count other :=
  Function.update_apply ..

theorem count_strike (l : Ledger) (name other : String) :
    (l.strike name).count other = if other = name then none else l.count other :=
  Function.update_apply ..

def operate (l : Ledger) : Operation α → Ledger
  | .use spelling n =>
    let name := Name.internal spelling
    match l.count name with
    | some k => l.set name (k + n)
    | none => l.add name n
  | .release spelling =>
    let name := Name.internal spelling
    match l.count name with
    | some k => if k - 1 = 0 then l.strike name else l.set name (k - 1)
    | none => l
  | .close spelling => l.strike (Name.internal spelling)
  | .solve spelling _ => l.strike (Name.internal spelling)
  | .spell _ => l

def operated (operations : List (Operation α)) : Ledger := operations.foldl operate empty

structure IsExact (l : Ledger) : Prop where
  distinct : l.names.Nodup
  mem_iff : ∀ name, name ∈ l.names ↔ (l.count name).isSome

theorem isExact_empty : empty.IsExact := ⟨.nil, fun _ => by simp [empty]⟩

theorem IsExact.set {l : Ledger} (exact_ : l.IsExact) {name : String} {k : Nat}
    (present : l.count name = some k) (n : Nat) : (l.set name n).IsExact where
  distinct := exact_.distinct
  mem_iff other := by
    rw [count_set]
    split
    next same => exact iff_of_true ((exact_.mem_iff other).2 (by rw [same, present]; rfl)) rfl
    next => exact exact_.mem_iff other

theorem IsExact.add {l : Ledger} (exact_ : l.IsExact) {name : String}
    (absent : l.count name = none) (n : Nat) : (l.add name n).IsExact where
  distinct := by
    have new : name ∉ l.names := by
      rw [exact_.mem_iff, absent, Option.isSome_none]
      exact Bool.false_ne_true
    exact exact_.distinct.append (List.nodup_singleton name) (by simpa using new)
  mem_iff other := by
    rw [count_add, Ledger.add, List.mem_append, List.mem_singleton, exact_.mem_iff]
    split
    next same => exact iff_of_true (.inr same) rfl
    next apart => exact or_iff_left apart

theorem IsExact.strike {l : Ledger} (exact_ : l.IsExact) (name : String) :
    (l.strike name).IsExact where
  distinct := exact_.distinct.filter _
  mem_iff other := by
    rw [count_strike, Ledger.strike, List.mem_filter, exact_.mem_iff, decide_eq_true_eq]
    split
    next same => exact iff_of_false (fun both => both.2 same) Bool.false_ne_true
    next apart => exact and_iff_left apart

theorem IsExact.operate {l : Ledger} (exact_ : l.IsExact) (operation : Operation α) :
    (l.operate operation).IsExact := by
  cases operation with
  | use spelling n =>
    rw [Ledger.operate]
    split
    next present => exact exact_.set present _
    next absent => exact exact_.add absent n
  | release spelling =>
    rw [Ledger.operate]
    split
    next present =>
      split
      next => exact exact_.strike _
      next => exact exact_.set present _
    next => exact exact_
  | close spelling => exact exact_.strike _
  | solve spelling value => exact exact_.strike _
  | spell spelling => exact exact_

theorem isExact_operated (operations : List (Operation α)) : (operated operations).IsExact :=
  List.foldlRecOn operations operate isExact_empty fun _ exact_ operation _ =>
    exact_.operate operation

end Ledger

namespace Unknowns

variable {α : Type} (u : Unknowns α)

def ledger : Ledger where
  names := u.pending.map (·.name)
  count name := (u.pending.find? (·.name = name)).map (·.uses)

theorem count_ledger (spelling : String) :
    u.ledger.count (Name.internal spelling) = (u.find? spelling).map (·.uses) := rfl

theorem ledger_changeUses {spelling : String} {e : Unknown} (found : u.find? spelling = some e)
    (change : Nat → Nat) :
    ledger { u with pending := changeUses u.pending (Name.internal spelling) change } =
      u.ledger.set (Name.internal spelling) (change e.uses) := by
  ext1
  · exact map_name_changeUses u.pending (Name.internal spelling) change
  · funext name
    change ((changeUses u.pending _ change).find? (·.name = name)).map _ = _
    rw [find?_changeUses, Ledger.count_set]
    split
    next same =>
      subst same
      have entry : u.pending.find? (·.name = Name.internal spelling) = some e := found
      rw [entry, Option.map_some, if_pos (u.name_of_find? found)]
      rfl
    next apart =>
      change _ = (u.pending.find? (·.name = name)).map (·.uses)
      cases other : u.pending.find? (·.name = name) with
      | none => rfl
      | some f =>
        have named := List.find?_some other
        rw [decide_eq_true_eq] at named
        rw [Option.map_some, if_neg (named ▸ apart)]

theorem ledger_close (spelling : String) :
    (u.close spelling).ledger = u.ledger.strike (Name.internal spelling) := by
  ext1
  · change (u.pending.filter (·.name ≠ Name.internal spelling)).map (·.name) =
      (u.pending.map (·.name)).filter (· ≠ Name.internal spelling)
    rw [List.filter_map]
    rfl
  · funext name
    change ((u.pending.filter (·.name ≠ Name.internal spelling)).find? (·.name = name)).map _ = _
    rw [Ledger.count_strike, List.find?_filter]
    split
    next same =>
      rw [Option.map_eq_none_iff, List.find?_eq_none]
      rintro e - both
      simp [same] at both
    next apart =>
      change _ = (u.pending.find? (·.name = name)).map (·.uses)
      congr 2
      funext e
      simp only [decide_eq_true_eq]
      exact decide_eq_decide.2 ⟨And.right, fun named => ⟨named ▸ apart, named⟩⟩

theorem ledger_use (spelling : String) (n : Nat) :
    (u.use spelling n).1.ledger = u.ledger.operate (.use spelling n : Operation α) := by
  rw [Ledger.operate, count_ledger]
  cases found : u.find? spelling with
  | some e =>
    rw [u.use_of_some found]
    exact u.ledger_changeUses found (· + n)
  | none =>
    rw [u.use_of_none found]
    ext1
    · exact List.map_append
    · funext name
      let opened : Unknown := ⟨u.next, Name.internal spelling, n⟩
      change ((u.pending ++ [opened]).find? fun e : Unknown => e.name = name).map (·.uses) = _
      rw [List.find?_append, List.find?_singleton, Option.map_none, Ledger.count_add]
      by_cases same : name = Name.internal spelling
      · subst same
        have absent : u.pending.find? (·.name = Name.internal spelling) = none := found
        rw [absent, if_pos rfl, if_pos (decide_eq_true rfl), Option.none_or]
        rfl
      · have other : ¬decide (opened.name = name) = true := by simpa using Ne.symm same
        rw [if_neg same, if_neg other, Option.or_none]
        rfl

theorem close_of_none {spelling : String} (absent : u.find? spelling = none) :
    u.close spelling = u := by
  have all : u.pending.filter (·.name ≠ Name.internal spelling) = u.pending :=
    List.filter_eq_self.2 fun e member => by simpa using List.find?_eq_none.1 absent e member
  rw [close, all]

theorem ledger_release (spelling : String) :
    (u.release spelling).ledger = u.ledger.operate (.release spelling : Operation α) := by
  rw [Ledger.operate, count_ledger, release, uses]
  cases found : u.find? spelling with
  | some e =>
    simp only [Option.map_some, Option.getD_some]
    by_cases last : e.uses ≤ 1
    · rw [if_pos last, if_pos (Nat.sub_eq_zero_of_le last), ledger_close]
    · rw [if_neg last, if_neg fun none => last (Nat.le_of_sub_eq_zero none)]
      exact u.ledger_changeUses found (· - 1)
  | none =>
    simp only [Option.map_none, Option.getD_none, Nat.zero_le, if_true]
    rw [u.close_of_none found]

/-- Every operation is one on the map. -/
theorem ledger_operate (operation : Operation α) :
    (u.operate operation).ledger = u.ledger.operate operation := by
  cases operation with
  | use spelling n => exact u.ledger_use spelling n
  | release spelling => exact u.ledger_release spelling
  | close spelling => exact u.ledger_close spelling
  | solve spelling value => exact u.ledger_close spelling
  | spell spelling => rfl

theorem ledger_operated (operations : List (Operation α)) :
    (operated operations).ledger = Ledger.operated operations := by
  rw [operated, Ledger.operated]
  exact (List.foldl_hom ledger fun u operation => (u.ledger_operate operation).symm).symm

end Unknowns

end Simultaneous
