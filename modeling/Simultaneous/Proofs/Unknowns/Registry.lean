import Simultaneous.Proofs.Unknowns.Shown
import Simultaneous.Registry

/-!
Unknowns in slots. As long as the index and the slots agree, every operation on them is the one on
the list of unknowns, whatever holes there are. A slot is never filled again, so a handle refers to
the name that it was issued for, or to nothing.
-/

namespace Simultaneous.Registry

open Unknowns (Operation)

variable {α : Type} {r r' : Registry α}

def operate (r : Registry α) : Operation α → Registry α
  | .use spelling n => (r.use spelling n).1
  | .release spelling => (r.release spelling).1
  | .close spelling => (r.close spelling).1
  | .solve spelling value => r.solve spelling value
  | .spell spelling => r.spell spelling

def operated (operations : List (Operation α)) : Registry α := operations.foldl operate empty

def unknowns (r : Registry α) : Unknowns α := ⟨r.pending, r.slots.size, r.solved, r.spellings⟩

/-! ### Slots -/

theorem withHandle?_eq_some {id : Nat} {e : Unknown} :
    r.withHandle? id = some e ↔ r.slots[id]? = some (some e) :=
  Option.join_eq_some_iff

theorem lt_size_of_withHandle? {id : Nat} {e : Unknown} (found : r.withHandle? id = some e) :
    id < r.slots.size :=
  (Array.getElem?_eq_some_iff.1 (withHandle?_eq_some.1 found)).1

theorem mem_pending {e : Unknown} : e ∈ r.pending ↔ ∃ id, r.withHandle? id = some e := by
  rw [pending, List.mem_filterMap]
  simp only [withHandle?_eq_some, id_eq, exists_eq_right, Array.mem_toList_iff,
    Array.mem_iff_getElem?]

theorem withHandle?_put {id : Nat} {e : Unknown} (found : r.withHandle? id = some e)
    (slot : Option Unknown) (other : Nat) :
    (r.put id slot).withHandle? other = if other = id then slot else r.withHandle? other := by
  rw [withHandle?, put, Array.getElem?_setIfInBounds]
  by_cases same : id = other
  · rw [if_pos same, if_pos same.symm, if_pos (lt_size_of_withHandle? found), Option.join_some]
  · rw [if_neg same, if_neg (Ne.symm same)]
    rfl

theorem size_put (r : Registry α) (id : Nat) (slot : Option Unknown) :
    (r.put id slot).slots.size = r.slots.size :=
  Array.size_setIfInBounds

theorem withHandle?_push {slot : Unknown} (slots : r'.slots = r.slots.push (some slot)) (id : Nat) :
    r'.withHandle? id = if id = r.slots.size then some slot else r.withHandle? id := by
  rw [withHandle?, slots, Array.getElem?_push]
  split
  next => rfl
  next => rfl

theorem find?_eq_some_of_only {entries : List Unknown} {p : Unknown → Bool} {e : Unknown}
    (member : e ∈ entries) (own : p e = true) (only : ∀ f ∈ entries, p f = true → f = e) :
    entries.find? p = some e := by
  obtain ⟨f, first⟩ := Option.isSome_iff_exists.1 (List.find?_isSome.2 ⟨e, member, own⟩)
  rw [first, only f (List.mem_of_find?_eq_some first) (List.find?_some first)]

/-! ### The index -/

/-- The index leads to just the open unknowns, and the values are in the order in which they were
found. -/
structure IsConsistent (r : Registry α) : Prop where
  of_entry : ∀ {id : Nat} {e : Unknown}, r.withHandle? id = some e →
    e.handle = id ∧ r.index.get? e.name = some id
  of_index : ∀ {name : String} {id : Nat}, r.index.get? name = some id →
    ∃ e, r.withHandle? id = some e ∧ e.name = name
  order : r.solveOrder = r.solved.names

theorem isConsistent_empty : (empty : Registry α).IsConsistent := ⟨nofun, nofun, rfl⟩

theorem IsConsistent.find?_pending (c : r.IsConsistent) (name : String) :
    r.pending.find? (·.name = name) = (r.index.get? name).bind r.withHandle? := by
  cases found : r.index.get? name with
  | none =>
    rw [Option.bind_none, List.find?_eq_none]
    intro e member named
    obtain ⟨id, entry⟩ := mem_pending.1 member
    obtain ⟨-, indexed⟩ := c.of_entry entry
    rw [of_decide_eq_true named, found] at indexed
    cases indexed
  | some id =>
    obtain ⟨e, entry, named⟩ := c.of_index found
    rw [Option.bind_some, entry]
    refine find?_eq_some_of_only (mem_pending.2 ⟨id, entry⟩) (decide_eq_true named) ?_
    intro f member same
    obtain ⟨id', entry'⟩ := mem_pending.1 member
    obtain ⟨-, indexed⟩ := c.of_entry entry'
    rw [of_decide_eq_true same, found] at indexed
    obtain rfl := Option.some.inj indexed
    exact Option.some.inj (entry'.symm.trans entry)

theorem IsConsistent.find?_unknowns (c : r.IsConsistent) (spelling : String) :
    r.unknowns.find? spelling = r.find? spelling :=
  c.find?_pending (Name.internal spelling)

theorem IsConsistent.withHandle?_unknowns (c : r.IsConsistent) (id : Nat) :
    r.unknowns.withHandle? id = r.withHandle? id := by
  change r.pending.find? (·.handle = id) = r.withHandle? id
  cases entry : r.withHandle? id with
  | none =>
    rw [List.find?_eq_none]
    intro e member named
    obtain ⟨id', entry'⟩ := mem_pending.1 member
    obtain ⟨handle, -⟩ := c.of_entry entry'
    rw [← handle, of_decide_eq_true named, entry] at entry'
    cases entry'
  | some e =>
    refine find?_eq_some_of_only (mem_pending.2 ⟨id, entry⟩)
      (decide_eq_true (c.of_entry entry).1) ?_
    intro f member same
    obtain ⟨id', entry'⟩ := mem_pending.1 member
    rw [← (c.of_entry entry').1, of_decide_eq_true same] at entry'
    exact Option.some.inj (entry'.symm.trans entry)

theorem IsConsistent.pending_put (c : r.IsConsistent) {name : String} {id : Nat} {e : Unknown}
    (found : r.index.get? name = some id) (entry : r.withHandle? id = some e)
    (f : Unknown → Option Unknown) :
    (r.put id (f e)).pending =
      r.pending.filterMap fun e => if e.name = name then f e else some e := by
  have slot_eq : (r.put id (f e)).slots.toList =
      r.slots.toList.map (·.bind fun e => if e.name = name then f e else some e) := by
    apply List.ext_getElem?
    intro i
    rw [List.getElem?_map, Array.getElem?_toList, Array.getElem?_toList, put,
      Array.getElem?_setIfInBounds]
    by_cases same : id = i
    · subst same
      obtain ⟨e', own, named⟩ := c.of_index found
      obtain rfl := Option.some.inj (own.symm.trans entry)
      rw [if_pos rfl, if_pos (lt_size_of_withHandle? entry), withHandle?_eq_some.1 entry,
        Option.map_some, Option.bind_some, if_pos named]
    · rw [if_neg same]
      cases other : r.slots[i]? with
      | none => rfl
      | some slot =>
        cases slot with
        | none => rfl
        | some g =>
          obtain ⟨-, indexed⟩ := c.of_entry (withHandle?_eq_some.2 other)
          have apart : g.name ≠ name := by
            intro named
            rw [named, found] at indexed
            exact same (Option.some.inj indexed)
          rw [Option.map_some, Option.bind_some, if_neg apart]
  rw [pending, slot_eq, List.filterMap_map, pending, List.filterMap_filterMap]
  rfl

/-! ### One operation -/

theorem IsConsistent.put (c : r.IsConsistent) {id : Nat} {e : Unknown}
    (entry : r.withHandle? id = some e) (n : Nat) :
    (r.put id (some { e with uses := n })).IsConsistent where
  of_entry {other f} found := by
    rw [withHandle?_put entry] at found
    split at found
    next same =>
      cases found
      subst same
      obtain ⟨handle, indexed⟩ := c.of_entry entry
      exact ⟨handle, indexed⟩
    next => exact c.of_entry found
  of_index {other id'} found := by
    obtain ⟨f, entry', named⟩ := c.of_index found
    rw [withHandle?_put entry]
    split
    next same =>
      rw [same, entry] at entry'
      cases entry'
      exact ⟨_, rfl, named⟩
    next => exact ⟨f, entry', named⟩
  order := c.order

theorem IsConsistent.remove (c : r.IsConsistent) {name : String} {id : Nat}
    (found : r.index.get? name = some id) : (r.remove name id).IsConsistent := by
  obtain ⟨e, entry, named⟩ := c.of_index found
  have entries (other : Nat) : (r.remove name id).withHandle? other =
      if other = id then none else r.withHandle? other := withHandle?_put entry none other
  have indexed (other : String) : (r.remove name id).index.get? other =
      if name = other then none else r.index.get? other := r.index.get?_erase name other
  refine ⟨fun {other f} found' => ?_, fun {other id'} found' => ?_, c.order⟩
  · rw [entries] at found'
    rw [indexed]
    split at found'
    next => cases found'
    next apart =>
      obtain ⟨handle, own⟩ := c.of_entry found'
      have different : name ≠ f.name := by
        rintro rfl
        exact apart (Option.some.inj (own.symm.trans found))
      exact ⟨handle, by rw [if_neg different, own]⟩
  · rw [indexed] at found'
    rw [entries]
    split at found'
    next => cases found'
    next different =>
      obtain ⟨f, entry', named'⟩ := c.of_index found'
      have apart : id' ≠ id := by
        rintro rfl
        rw [entry] at entry'
        cases entry'
        exact different (named.symm.trans named')
      exact ⟨f, by rw [if_neg apart, entry'], named'⟩

theorem use_of_some {spelling : String} {id : Nat}
    (found : r.index.get? (Name.internal spelling) = some id) {e : Unknown}
    (entry : r.withHandle? id = some e) (n : Nat) :
    r.use spelling n = (r.put id (some { e with uses := e.uses + n }), id) := by
  have modified : r.slots.modify id (Option.map fun e => { e with uses := e.uses + n }) =
      r.slots.setIfInBounds id (some { e with uses := e.uses + n }) := by
    apply Array.ext_getElem?
    intro i
    rw [Array.getElem?_modify, Array.getElem?_setIfInBounds]
    by_cases same : id = i
    · subst same
      rw [if_pos rfl, if_pos rfl, if_pos (lt_size_of_withHandle? entry),
        withHandle?_eq_some.1 entry]
      rfl
    · rw [if_neg same, if_neg same]
  rw [use, found]
  exact congrArg (fun slots => ({ r with slots := slots }, id)) modified

theorem use_of_none {spelling : String} (absent : r.index.get? (Name.internal spelling) = none)
    (n : Nat) :
    r.use spelling n =
      ({ r with
          slots := r.slots.push (some ⟨r.slots.size, Name.internal spelling, n⟩)
          index := r.index.insert (Name.internal spelling) r.slots.size }, r.slots.size) := by
  rw [use, absent]

theorem IsConsistent.unknowns_put (c : r.IsConsistent) {name : String} {id : Nat} {e : Unknown}
    (found : r.index.get? name = some id) (entry : r.withHandle? id = some e) (change : Nat → Nat) :
    (r.put id (some { e with uses := change e.uses })).unknowns =
      { r.unknowns with pending := Unknowns.changeUses r.pending name change } := by
  have pending := c.pending_put found entry fun e => some { e with uses := change e.uses }
  have listed : Unknowns.changeUses r.pending name change = r.pending.filterMap fun e =>
      if e.name = name then some { e with uses := change e.uses } else some e := by
    rw [Unknowns.changeUses, ← List.filterMap_eq_map]
    congr 1
    funext e
    exact apply_ite some ..
  rw [unknowns, pending, listed, size_put]
  rfl

theorem IsConsistent.unknowns_remove (c : r.IsConsistent) {spelling : String} {id : Nat}
    (found : r.index.get? (Name.internal spelling) = some id) :
    (r.remove (Name.internal spelling) id).unknowns = r.unknowns.close spelling := by
  obtain ⟨e, entry, -⟩ := c.of_index found
  have listed : r.pending.filter (·.name ≠ Name.internal spelling) = r.pending.filterMap fun e =>
      if e.name = Name.internal spelling then none else some e := by
    rw [← List.filterMap_eq_filter]
    congr 1
    funext e
    by_cases same : e.name = Name.internal spelling <;> simp [same]
  have pending : (r.remove (Name.internal spelling) id).pending =
      r.pending.filter (·.name ≠ Name.internal spelling) :=
    (c.pending_put found entry fun _ => none).trans listed.symm
  have size : (r.remove (Name.internal spelling) id).slots.size = r.slots.size := r.size_put id none
  rw [unknowns, pending, size]
  rfl

theorem remove_put (r : Registry α) (id : Nat) (slot : Option Unknown) (name : String) :
    (r.put id slot).remove name id = r.remove name id := by
  rw [remove, put, put, Array.setIfInBounds_setIfInBounds]
  rfl

theorem IsConsistent.use (c : r.IsConsistent) (spelling : String) (n : Nat) :
    (r.use spelling n).1.IsConsistent ∧
      ((r.use spelling n).1.unknowns, (r.use spelling n).2) = r.unknowns.use spelling n := by
  have listed := c.find?_unknowns spelling
  rw [find?] at listed
  cases found : r.index.get? (Name.internal spelling) with
  | some id =>
    obtain ⟨e, entry, named⟩ := c.of_index found
    rw [found, Option.bind_some, entry] at listed
    rw [use_of_some found entry, r.unknowns.use_of_some listed]
    exact ⟨c.put entry (e.uses + n),
      Prod.ext (c.unknowns_put found entry (· + n)) (c.of_entry entry).1.symm⟩
  | none =>
    rw [found, Option.bind_none] at listed
    rw [use_of_none found, r.unknowns.use_of_none listed]
    refine ⟨⟨fun {id e} entry => ?_, fun {name id} indexed => ?_, c.order⟩, ?_⟩
    · rw [withHandle?_push rfl] at entry
      rw [Assoc.get?_insert]
      split at entry
      next new =>
        cases entry
        exact ⟨new.symm, by rw [if_pos rfl, new]⟩
      next =>
        obtain ⟨handle, indexed⟩ := c.of_entry entry
        have other : Name.internal spelling ≠ e.name := by
          intro same
          rw [← same, found] at indexed
          cases indexed
        exact ⟨handle, by rw [if_neg other, indexed]⟩
    · rw [Assoc.get?_insert] at indexed
      rw [withHandle?_push rfl]
      split at indexed
      next same =>
        obtain rfl := Option.some.inj indexed
        exact ⟨_, if_pos rfl, same⟩
      next =>
        obtain ⟨e, entry, named⟩ := c.of_index indexed
        exact ⟨e, by rw [if_neg (lt_size_of_withHandle? entry).ne, entry], named⟩
    · refine Prod.ext ?_ rfl
      rw [unknowns, pending, Array.toList_push, List.filterMap_append, Array.size_push]
      rfl

theorem IsConsistent.close (c : r.IsConsistent) (spelling : String) :
    (r.close spelling).1.IsConsistent ∧
      (r.close spelling).1.unknowns = r.unknowns.close spelling ∧
      (r.close spelling).2 = r.unknowns.isPending spelling := by
  have listed := c.find?_unknowns spelling
  rw [find?] at listed
  rw [Registry.close, Unknowns.isPending, listed]
  cases found : r.index.get? (Name.internal spelling) with
  | some id =>
    obtain ⟨e, entry, -⟩ := c.of_index found
    rw [Option.bind_some, entry]
    exact ⟨c.remove found, c.unknowns_remove found, rfl⟩
  | none =>
    rw [found] at listed
    exact ⟨c, (r.unknowns.close_of_none listed).symm, rfl⟩

theorem IsConsistent.release (c : r.IsConsistent) (spelling : String) :
    (r.release spelling).1.IsConsistent ∧
      (r.release spelling).1.unknowns = r.unknowns.release spelling ∧
      (r.release spelling).2 = r.unknowns.isPending spelling := by
  have listed := c.find?_unknowns spelling
  rw [find?] at listed
  rw [Registry.release, Unknowns.release, Unknowns.uses, Unknowns.isPending, listed]
  cases found : r.index.get? (Name.internal spelling) with
  | some id =>
    obtain ⟨e, entry, -⟩ := c.of_index found
    simp only [Option.bind_some, entry, Option.map_some, Option.getD_some]
    by_cases last : e.uses ≤ 1
    · rw [if_pos last, if_pos (Nat.sub_eq_zero_of_le last), remove_put]
      exact ⟨c.remove found, c.unknowns_remove found, rfl⟩
    · rw [if_neg last, if_neg fun none => last (Nat.le_of_sub_eq_zero none)]
      exact ⟨c.put entry _, c.unknowns_put found entry (· - 1), rfl⟩
  | none =>
    rw [found] at listed
    simp only [Option.bind_none, Option.map_none, Option.getD_none, Nat.zero_le, if_true]
    exact ⟨c, (r.unknowns.close_of_none listed).symm, rfl⟩

theorem IsConsistent.solve (c : r.IsConsistent) (spelling : String) (value : α) :
    (r.solve spelling value).IsConsistent ∧
      (r.solve spelling value).unknowns = r.unknowns.solve spelling value := by
  obtain ⟨closed, same, -⟩ := c.close (Name.internal spelling)
  refine ⟨⟨closed.of_entry, closed.of_index, ?_⟩, ?_⟩
  · rw [Registry.solve, Assoc.names_insert, closed.order]
  · have same_close : r.unknowns.close (Name.internal spelling) = r.unknowns.close spelling := by
      rw [Unknowns.close, Unknowns.close, Name.internal_internal]
    have kept : (r.close (Name.internal spelling)).1.solved = r.solved :=
      congrArg Unknowns.solved same
    rw [Unknowns.solve, ← same_close, ← same, Registry.solve, unknowns, kept]
    rfl

theorem IsConsistent.operate (c : r.IsConsistent) (operation : Operation α) :
    (r.operate operation).IsConsistent ∧
      (r.operate operation).unknowns = r.unknowns.operate operation := by
  cases operation with
  | use spelling n => exact ⟨(c.use spelling n).1, congrArg Prod.fst (c.use spelling n).2⟩
  | release spelling => exact ⟨(c.release spelling).1, (c.release spelling).2.1⟩
  | close spelling => exact ⟨(c.close spelling).1, (c.close spelling).2.1⟩
  | solve spelling value => exact c.solve spelling value
  | spell spelling => exact ⟨⟨c.of_entry, c.of_index, c.order⟩, rfl⟩

theorem IsConsistent.foldl (c : r.IsConsistent) (later : List (Operation α)) :
    (later.foldl Registry.operate r).IsConsistent ∧
      (later.foldl Registry.operate r).unknowns = later.foldl Unknowns.operate r.unknowns := by
  induction later generalizing r with
  | nil => exact ⟨c, rfl⟩
  | cons operation rest ih =>
    obtain ⟨next, same⟩ := c.operate operation
    rw [List.foldl_cons, List.foldl_cons, ← same]
    exact ih next

/-- After any operations, the slots hold the unknowns of the list. -/
theorem operated_spec (operations : List (Operation α)) :
    (operated operations).IsConsistent ∧
      (operated operations).unknowns = Unknowns.operated operations :=
  isConsistent_empty.foldl operations

/-! ### Handles -/

/-- Handles that were given before refer to the same names, or to nothing. -/
structure Keeps (r r' : Registry α) : Prop where
  size_le : r.slots.size ≤ r'.slots.size
  of_entry : ∀ {id : Nat} {e : Unknown}, id < r.slots.size → r'.withHandle? id = some e →
    ∃ before, r.withHandle? id = some before ∧ before.name = e.name

theorem keeps_refl (r : Registry α) : r.Keeps r := ⟨le_rfl, fun _ found => ⟨_, found, rfl⟩⟩

theorem Keeps.trans {during : Registry α} (first : r.Keeps during) (second : during.Keeps r') :
    r.Keeps r' where
  size_le := first.size_le.trans second.size_le
  of_entry given found := by
    obtain ⟨f, entry, same⟩ := second.of_entry (given.trans_le first.size_le) found
    obtain ⟨g, before, named⟩ := first.of_entry given entry
    exact ⟨g, before, named.trans same⟩

theorem keeps_put {id : Nat} {e : Unknown} (entry : r.withHandle? id = some e)
    {slot : Option Unknown} (named : ∀ f, slot = some f → e.name = f.name) :
    r.Keeps (r.put id slot) where
  size_le := (r.size_put id slot).ge
  of_entry {other f} given found := by
    rw [withHandle?_put entry] at found
    split at found
    next same => exact ⟨e, same ▸ entry, named f found⟩
    next => exact ⟨f, found, rfl⟩

theorem keeps_remove {id : Nat} {e : Unknown} (entry : r.withHandle? id = some e) (name : String) :
    r.Keeps (r.remove name id) :=
  have hole : r.Keeps (r.put id none) := keeps_put entry nofun
  ⟨hole.size_le, hole.of_entry⟩

theorem IsConsistent.keeps_use (c : r.IsConsistent) (spelling : String) (n : Nat) :
    r.Keeps (r.use spelling n).1 := by
  cases found : r.index.get? (Name.internal spelling) with
  | some id =>
    obtain ⟨e, entry, -⟩ := c.of_index found
    rw [use_of_some found entry]
    exact keeps_put entry fun f same => by cases same; rfl
  | none =>
    rw [use_of_none found]
    refine ⟨by simp, fun {id e} given entry => ?_⟩
    rw [withHandle?_push rfl, if_neg given.ne] at entry
    exact ⟨e, entry, rfl⟩

theorem IsConsistent.keeps_close (c : r.IsConsistent) (spelling : String) :
    r.Keeps (r.close spelling).1 := by
  rw [Registry.close]
  split
  next id found =>
    obtain ⟨e, entry, -⟩ := c.of_index found
    exact keeps_remove entry _
  next => exact keeps_refl r

theorem IsConsistent.keeps_release (c : r.IsConsistent) (spelling : String) :
    r.Keeps (r.release spelling).1 := by
  rw [Registry.release]
  split
  next => exact keeps_refl r
  next id found =>
    obtain ⟨e, entry, -⟩ := c.of_index found
    simp only [entry]
    split
    next =>
      rw [remove_put]
      exact keeps_remove entry _
    next => exact keeps_put entry fun f same => by cases same; rfl

theorem IsConsistent.keeps_operate (c : r.IsConsistent) (operation : Operation α) :
    r.Keeps (r.operate operation) := by
  cases operation with
  | use spelling n => exact c.keeps_use spelling n
  | release spelling => exact c.keeps_release spelling
  | close spelling => exact c.keeps_close spelling
  | solve spelling value =>
    have closed := c.keeps_close (Name.internal spelling)
    exact ⟨closed.size_le, closed.of_entry⟩
  | spell spelling => exact ⟨le_rfl, fun _ found => ⟨_, found, rfl⟩⟩

theorem IsConsistent.keeps_foldl (c : r.IsConsistent) (later : List (Operation α)) :
    r.Keeps (later.foldl Registry.operate r) := by
  induction later generalizing r with
  | nil => exact keeps_refl r
  | cons operation rest ih => exact (c.keeps_operate operation).trans (ih (c.operate operation).1)

/-- A use finds the unknown of the name, or else gives it the next handle. -/
theorem IsConsistent.handle_use (c : r.IsConsistent) (spelling : String) (n : Nat) :
    (∃ e, (r.use spelling n).1.withHandle? (r.use spelling n).2 = some e ∧
      e.name = Name.internal spelling) ∧
    (r.isPending spelling = true →
      r.index.get? (Name.internal spelling) = some (r.use spelling n).2) ∧
    (r.isPending spelling = false → (r.use spelling n).2 = r.slots.size) := by
  rw [isPending, Assoc.contains]
  cases found : r.index.get? (Name.internal spelling) with
  | some id =>
    obtain ⟨e, entry, named⟩ := c.of_index found
    rw [use_of_some found entry]
    refine ⟨⟨{ e with uses := e.uses + n }, ?_, named⟩, fun _ => rfl, by simp⟩
    rw [withHandle?_put entry, if_pos rfl]
  | none =>
    rw [use_of_none found]
    refine ⟨⟨⟨r.slots.size, Name.internal spelling, n⟩, ?_, rfl⟩, by simp, fun _ => rfl⟩
    rw [withHandle?_push rfl, if_pos rfl]

/-! ### The finite map -/

structure Agrees (r : Registry α) (l : Ledger) : Prop where
  find? : ∀ v, (r.find? v).map (fun e => (e.name, e.uses)) =
    (l.count (Name.internal v)).map fun n => (Name.internal v, n)
  shared : ∀ {v w : String} {e f : Unknown}, r.find? v = some e → r.find? w = some f →
    (e.handle = f.handle ↔ Name.internal v = Name.internal w)
  uses : ∀ v, r.uses v = (l.count (Name.internal v)).getD 0
  isPending : ∀ v, r.isPending v = (l.count (Name.internal v)).isSome
  released : ∀ v, (r.release v).2 = (l.count (Name.internal v)).isSome
  closed : ∀ v, (r.close v).2 = (l.count (Name.internal v)).isSome
  /-- just the names in the map are listed, each once, in the order in which they got there -/
  pending : r.pending.map (fun e => (e.name, some e.uses)) =
    l.names.map fun name => (name, l.count name)
  isExact : l.IsExact

theorem IsConsistent.agrees (c : r.IsConsistent) (isExact : r.unknowns.ledger.IsExact) :
    r.Agrees r.unknowns.ledger := by
  have count (v : String) :
      r.unknowns.ledger.count (Name.internal v) = (r.find? v).map (·.uses) := by
    rw [Unknowns.count_ledger, c.find?_unknowns]
  have named {v : String} {e : Unknown} (found : r.find? v = some e) :
      e.name = Name.internal v := by
    rw [← c.find?_unknowns] at found
    exact r.unknowns.name_of_find? found
  have entry {v : String} {e : Unknown} (found : r.find? v = some e) :
      r.withHandle? e.handle = some e := by
    obtain ⟨id, -, slot⟩ := Option.bind_eq_some_iff.1 found
    rw [(c.of_entry slot).1, slot]
  have isPending (v : String) : r.unknowns.isPending v =
      (r.unknowns.ledger.count (Name.internal v)).isSome := by
    rw [Unknowns.isPending, Unknowns.count_ledger, Option.isSome_map]
  constructor
  case find? =>
    intro v
    rw [count]
    cases found : r.find? v with
    | none => rfl
    | some e => simp only [Option.map_some, named found]
  case shared =>
    intro v w e f found other
    rw [← named found, ← named other]
    constructor
    · intro same
      have both := entry found
      rw [same, entry other] at both
      exact congrArg Unknown.name (Option.some.inj both).symm
    · intro same
      have both : r.find? v = r.find? w := by
        rw [Registry.find?, ← named found, same, named other, Registry.find?]
      rw [found, other] at both
      exact congrArg Unknown.handle (Option.some.inj both)
  case uses =>
    intro v
    rw [count, Registry.uses]
  case isPending =>
    intro v
    rw [count, Option.isSome_map, Registry.find?, Registry.isPending, Assoc.contains]
    cases found : r.index.get? (Name.internal v) with
    | none => rfl
    | some id =>
      obtain ⟨e, slot, -⟩ := c.of_index found
      rw [Option.bind_some, slot]
      rfl
  case released => exact fun v => (c.release v).2.2.trans (isPending v)
  case closed => exact fun v => (c.close v).2.2.trans (isPending v)
  case pending =>
    change _ = (r.pending.map (·.name)).map _
    rw [List.map_map]
    apply List.map_congr_left
    intro e member
    obtain ⟨id, slot⟩ := mem_pending.1 member
    have own : r.pending.find? (·.name = e.name) = some e := by
      rw [c.find?_pending, (c.of_entry slot).2, Option.bind_some, slot]
    have count_eq : r.unknowns.ledger.count e.name = some e.uses :=
      congrArg (Option.map Unknown.uses) own
    rw [Function.comp_apply, count_eq]
  case isExact => exact isExact

/-- A registry in which a handle was given to a name refers by it to the name or to nothing, and
once to nothing for ever. The handle is given again for just that name, as long as it refers to it;
what is opened gets another one. -/
structure Knows (r : Registry α) (handle : Nat) (name : String) : Prop where
  of_entry : ∀ e, r.withHandle? handle = some e → e.name = name ∧ e.handle = handle
  closed : r.withHandle? handle = none →
    ∀ later : List (Operation α), (later.foldl operate r).withHandle? handle = none
  given_iff : ∀ v n, (r.use v n).2 = handle ↔
    (r.withHandle? handle).isSome ∧ Name.internal v = name
  opened : ∀ v n, r.isPending v = false → (r.use v n).2 ≠ handle

theorem IsConsistent.knows (c : r.IsConsistent) {handle : Nat} {name : String}
    (given : handle < r.slots.size) (named : ∀ e, r.withHandle? handle = some e → e.name = name) :
    r.Knows handle name := by
  have opened : ∀ v n, r.isPending v = false → (r.use v n).2 ≠ handle := by
    intro v n absent same
    rw [(c.handle_use v n).2.2 absent] at same
    exact absurd given (same ▸ lt_irrefl _)
  refine ⟨fun e found => ⟨named e found, (c.of_entry found).1⟩, ?_, fun v n => ⟨?_, ?_⟩, opened⟩
  · intro hole later
    rw [Option.eq_none_iff_forall_ne_some]
    intro e found
    obtain ⟨before, present, -⟩ := (c.keeps_foldl later).of_entry given found
    rw [hole] at present
    cases present
  · intro same
    cases open_ : r.isPending v with
    | false => exact absurd same (opened v n open_)
    | true =>
      obtain ⟨e, found, e_name⟩ := c.of_index ((c.handle_use v n).2.1 open_)
      rw [same] at found
      exact ⟨by rw [found]; rfl, e_name.symm.trans (named e found)⟩
  · rintro ⟨present, same⟩
    obtain ⟨e, found⟩ := Option.isSome_iff_exists.1 present
    have indexed := (c.of_entry found).2
    rw [named e found, ← same] at indexed
    have open_ : r.isPending v = true := by
      rw [isPending, Assoc.contains, indexed]
      rfl
    exact Option.some.inj (((c.handle_use v n).2.1 open_).symm.trans indexed)

/-- After any operations, the open unknowns in the slots are those of a finite map from names to
numbers of uses, and those of the list of unknowns. The handle that a use comes with refers to its
name then, and ever after to that name or to nothing, and is not given to what is opened later. -/
theorem slots_are_finite_map (operations : List (Operation α)) :
    let r := operated operations
    r.Agrees (Ledger.operated operations) ∧
      r.unknowns = Unknowns.operated operations ∧
      (∀ handle, (Unknowns.operated operations).withHandle? handle = r.withHandle? handle) ∧
      ∀ (v : String) (n : Nat),
        let used := (r.use v n).1
        let handle := (r.use v n).2
        (∃ e, used.withHandle? handle = some e ∧ e.name = Name.internal v) ∧
          ∀ later : List (Operation α),
            (later.foldl operate used).Knows handle (Name.internal v) := by
  obtain ⟨c, same⟩ := operated_spec operations
  have ledger : (operated operations).unknowns.ledger = Ledger.operated operations := by
    rw [same, Unknowns.ledger_operated]
  refine ⟨?_, same, same ▸ c.withHandle?_unknowns, fun v n =>
    ⟨(c.handle_use v n).1, fun later => ?_⟩⟩
  · have agrees := c.agrees (ledger ▸ Ledger.isExact_operated operations)
    rwa [ledger] at agrees
  · obtain ⟨e, issued, e_name⟩ := (c.handle_use v n).1
    have used := (c.use v n).1
    have keeps := used.keeps_foldl later
    have given := lt_size_of_withHandle? issued
    refine (used.foldl later).1.knows (given.trans_le keeps.size_le) fun f found => ?_
    obtain ⟨g, first, named⟩ := keeps.of_entry given found
    obtain rfl := Option.some.inj (issued.symm.trans first)
    exact named.symm.trans e_name

example : (operated [.use "x" 1, .close "X", .use "x" 2] : Registry Nat).pending =
    [⟨1, "x", 2⟩] := by
  decide +kernel

end Simultaneous.Registry
