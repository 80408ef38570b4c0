import Mathlib.Data.List.Basic
import Simultaneous.Worksheet

/-!
What solving does to the unknowns: an unknown that had no value gets one at the end of the table of
values and is no longer open. No other operation touches the values.
-/

namespace Simultaneous

namespace Assoc

variable {β : Type}

theorem get?_append (t s : Assoc β) (name : String) :
    get? (t ++ s) name = (get? t name).or (get? s name) := by
  rw [get?, get?, get?, List.find?_append]
  cases t.find? (·.1 = name) <;> rfl

theorem isSome_get?_iff (t : Assoc β) (name : String) :
    (get? t name).isSome ↔ name ∈ t.map (·.1) := by
  rw [get?, Option.isSome_map, List.find?_isSome, List.mem_map]
  simp only [decide_eq_true_eq]

theorem get?_of_mem {t : Assoc β} (distinct : (t.map (·.1)).Nodup) {entry : String × β}
    (member : entry ∈ t) : get? t entry.1 = some entry.2 := by
  induction t with
  | nil => cases member
  | cons first rest ih =>
    rw [List.map_cons, List.nodup_cons] at distinct
    rw [get?_cons]
    rcases List.mem_cons.1 member with rfl | later
    · exact if_pos rfl
    · have other : first.1 ≠ entry.1 := fun same => distinct.1 (same ▸ List.mem_map_of_mem later)
      rw [if_neg other, ih distinct.2 later]

theorem mem_of_get? {t : Assoc β} {name : String} {value : β} (found : get? t name = some value) :
    (name, value) ∈ t := by
  obtain ⟨entry, first, rfl⟩ := Option.map_eq_some_iff.1 found
  have same := List.find?_some first
  rw [decide_eq_true_eq] at same
  exact same ▸ List.mem_of_find?_eq_some first

theorem insert_of_absent (t : Assoc β) {name : String} (absent : get? t name = none) (value : β) :
    t.insert name value = t ++ [(name, value)] := by
  induction t with
  | nil => rfl
  | cons entry rest ih =>
    rw [get?_cons] at absent
    by_cases same : entry.1 = name
    · rw [if_pos same] at absent
      cases absent
    · rw [if_neg same] at absent
      rw [insert, if_neg same, ih absent, List.cons_append]

theorem names_insert (t : Assoc β) (name : String) (value : β) :
    (t.insert name value).names = if t.contains name then t.names else t.names ++ [name] := by
  induction t with
  | nil => rfl
  | cons entry rest ih =>
    rw [insert, contains, get?_cons]
    by_cases same : entry.1 = name
    · rw [if_pos same, if_pos same, Option.isSome_some, if_pos rfl, names, names, List.map_cons,
        List.map_cons, same]
    · rw [if_neg same, if_neg same, ← contains, names, List.map_cons, ← names, ih]
      split <;> rfl

theorem get?_insertNew (t : Assoc β) (name other : String) (value : β) :
    (t.insertNew name value).get? other =
      if name = other then some ((t.get? other).getD value) else t.get? other := by
  unfold insertNew
  by_cases same : name = other
  · subst same
    rw [if_pos rfl]
    cases found : t.get? name with
    | some x => rw [Option.isSome_some, if_pos rfl, found, Option.getD_some]
    | none =>
      rw [Option.isSome_none, if_neg Bool.false_ne_true, get?_append, found, Option.none_or,
        get?_cons, if_pos rfl, Option.getD_none]
  · rw [if_neg same]
    split
    next => rfl
    next => rw [get?_append, get?_cons, if_neg same, get?_nil, Option.or_none]

end Assoc

namespace Unknowns

variable {α : Type} (u : Unknowns α)

theorem isSolved_eq (v : String) : u.isSolved v = (u.solved.get? (Name.internal v)).isSome := rfl

theorem solved_use (spelling : String) (n : Nat) : (u.use spelling n).1.solved = u.solved := by
  unfold use
  simp only
  split <;> rfl

theorem isSolved_solve (spelling v : String) (value : α) :
    (u.solve spelling value).isSolved v ↔
      u.isSolved v ∨ Name.internal spelling = Name.internal v := by
  rw [isSolved_eq, isSolved_eq, solve, Assoc.get?_insert]
  split
  next same => simp only [Option.isSome_some, same, or_true]
  next other => simp only [other, or_false]

theorem solve_of_fresh {name : String} (internal : Name.internal name = name)
    (fresh : u.isSolved name = false) (value : α) :
    u.solve name value =
      { u with
        pending := u.pending.filter (·.name ≠ name)
        solved := u.solved ++ [(name, value)] } := by
  rw [isSolved_eq, internal, Option.isSome_eq_false_iff, Option.isNone_iff_eq_none] at fresh
  rw [solve, close, internal, Assoc.insert_of_absent _ fresh]

end Unknowns

namespace Worksheet

variable {α : Type}

/-- Recording one value for each of some distinct unknowns without values closes these and adds
their values at the end. -/
theorem record_eq (u : Unknowns α) {names : List String} {values : List α}
    (distinct : names.Nodup) (internal : ∀ v ∈ names, Name.internal v = v)
    (fresh : ∀ v ∈ names, u.isSolved v = false) (lengths : values.length = names.length) :
    record u names values =
      { u with
        pending := u.pending.filter (·.name ∉ names)
        solved := u.solved ++ names.zip values } := by
  induction names generalizing u values with
  | nil =>
    have all : u.pending.filter (fun e => e.name ∉ ([] : List String)) = u.pending :=
      List.filter_eq_self.2 fun _ _ => by simp
    rw [all, List.zip_nil_left, List.append_nil]
    rfl
  | cons name rest ih =>
    cases values with
    | nil => cases lengths
    | cons value others =>
      rw [List.nodup_cons] at distinct
      have own := internal name List.mem_cons_self
      have solve_eq := u.solve_of_fresh own (fresh name List.mem_cons_self) value
      have later_fresh : ∀ v ∈ rest, (u.solve name value).isSolved v = false := by
        intro v member
        rw [Bool.eq_false_iff, ne_eq, u.isSolved_solve, not_or]
        refine ⟨by rw [fresh v (List.mem_cons_of_mem name member)]; decide, ?_⟩
        rw [own, internal v (List.mem_cons_of_mem name member)]
        exact fun same => distinct.1 (same ▸ member)
      have step := ih (u.solve name value) distinct.2
        (fun v member => internal v (List.mem_cons_of_mem name member)) later_fresh
        (Nat.succ.inj lengths)
      have filter_eq : (u.pending.filter (·.name ≠ name)).filter (·.name ∉ rest) =
          u.pending.filter (·.name ∉ name :: rest) := by
        rw [List.filter_filter]
        apply List.filter_congr
        intro e _
        rw [Bool.eq_iff_iff]
        simp only [ne_eq, Bool.and_eq_true, decide_eq_true_eq, List.mem_cons, not_or]
        exact and_comm
      calc
        record u (name :: rest) (value :: others) = record (u.solve name value) rest others := rfl
        _ = _ := by
          rw [step, solve_eq]
          simp only [filter_eq, List.append_assoc, List.zip_cons_cons, List.singleton_append]

end Worksheet

end Simultaneous
