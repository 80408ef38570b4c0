import Simultaneous.Proofs.Line.Sides
import Simultaneous.Proofs.Unknowns.Ledger

/-!
The names that users see. An unknown is shown under the first spelling of its name, or under the
name with underscores for pairs `Gg`. Both are kept under that name, so unknowns that differ are
shown under names that differ, whatever was spelled before.
-/

namespace Simultaneous

namespace Name

open Text

theorem toLower_ne_underscore {c : Char} (plain : c ≠ '_') : c.toLower ≠ '_' :=
  fun same => plain ((Line.toLower_eq_mark (by decide)).1 same)

theorem isInternal_internalChars (s : List Char) : IsInternal (internalChars s) := by
  fun_induction internalChars s with
  | case1 => exact .nil
  | case2 => exact .pair .nil
  | case3 c plain =>
    have other : c ≠ '_' := fun same => plain (same ▸ rfl)
    exact .plain (Char.toLower_toLower_eq_toLower c) (toLower_ne_underscore other) .nil
  | case4 d rest ih => exact .pair ih
  | case5 c d rest plain pair ih => exact .pair ih
  | case6 c d rest plain no_pair ih =>
    exact .plain (Char.toLower_toLower_eq_toLower c) (toLower_ne_underscore plain) ih

theorem isInternal_internal (spelling : String) : IsInternal (internal spelling).toList := by
  rw [internal, String.toList_ofList]
  exact isInternal_internalChars spelling.toList

theorem internal_internal (spelling : String) : internal (internal spelling) = internal spelling :=
  internal_of_isInternal (isInternal_internal spelling)

end Name

namespace Unknowns

variable {α : Type} {u : Unknowns α}

structure IsNamed (u : Unknowns α) : Prop where
  spelled : ∀ name spelling, u.spellings.get? name = some spelling → Name.internal spelling = name
  internal : ∀ entry ∈ u.solved, Name.internal entry.1 = entry.1
  distinct : (u.solved.map (·.1)).Nodup

theorem IsNamed.congr {u' : Unknowns α} (n : u.IsNamed) (spellings : u'.spellings = u.spellings)
    (solved : u'.solved = u.solved) : u'.IsNamed where
  spelled := by
    rw [spellings]
    exact n.spelled
  internal := by
    rw [solved]
    exact n.internal
  distinct := by
    rw [solved]
    exact n.distinct

theorem IsNamed.spell (n : u.IsNamed) (spelling : String) : (u.spell spelling).IsNamed where
  spelled name other found := by
    rw [Unknowns.spell, Assoc.get?_insertNew] at found
    split at found
    next same =>
      obtain rfl := Option.some.inj found
      cases before : u.spellings.get? name with
      | none => rw [Option.getD_none, same]
      | some first => rw [Option.getD_some, n.spelled name first before]
    next => exact n.spelled name other found
  internal := n.internal
  distinct := n.distinct

theorem IsNamed.solve (n : u.IsNamed) (spelling : String) (value : α) :
    (u.solve spelling value).IsNamed := by
  have names : ((u.solve spelling value).solved.map (·.1)) =
      if u.isSolved spelling then u.solved.map (·.1)
      else u.solved.map (·.1) ++ [Name.internal spelling] :=
    Assoc.names_insert u.solved (Name.internal spelling) value
  refine ⟨n.spelled, fun entry member => ?_, ?_⟩
  · have listed : entry.1 ∈ (u.solve spelling value).solved.map (·.1) := List.mem_map_of_mem member
    rw [names] at listed
    have before : entry.1 ∈ u.solved.map (·.1) → Name.internal entry.1 = entry.1 := by
      intro known
      obtain ⟨other, member, same⟩ := List.mem_map.1 known
      rw [← same, n.internal other member]
    split at listed
    next => exact before listed
    next =>
      rcases List.mem_append.1 listed with known | new
      · exact before known
      · rw [List.mem_singleton.1 new, Name.internal_internal]
  · rw [names]
    split
    next => exact n.distinct
    next fresh =>
      have new : Name.internal spelling ∉ u.solved.map (·.1) := by
        rw [← Assoc.isSome_get?_iff]
        exact fresh
      exact n.distinct.append (List.nodup_singleton _) (by simpa using new)

theorem IsNamed.operate (n : u.IsNamed) (operation : Operation α) :
    (u.operate operation).IsNamed := by
  cases operation with
  | use spelling k =>
    refine n.congr ?_ (u.solved_use spelling k)
    rw [Unknowns.operate, use]
    split <;> rfl
  | release spelling =>
    rw [Unknowns.operate, release]
    split
    next => exact n.congr rfl rfl
    next => exact n.congr rfl rfl
  | close spelling => exact n.congr rfl rfl
  | solve spelling value => exact n.solve spelling value
  | spell spelling => exact n.spell spelling

end Unknowns

end Simultaneous
