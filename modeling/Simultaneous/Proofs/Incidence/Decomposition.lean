import Mathlib.Data.List.Nodup
import Simultaneous.Proofs.Incidence.Layout
import Simultaneous.Proofs.Incidence.Plan
import Simultaneous.Proofs.Incidence.Table

/-!
What the decomposition of a list of equations comes to, whatever starts are tried and however
layouts are ranked. Main statements: every equation and every unknown is accounted for exactly
once, and a block has just those unknowns of its equations that no earlier block has.
-/

namespace Simultaneous.Decomposition

open scoped List

open Incidence

section Entries

variable {β γ : Type}

def entriesAt (entries : List β) (places : List Nat) : List β := places.filterMap (entries[·]?)

theorem mem_entriesAt {entries : List β} {places : List Nat} {x : β} :
    x ∈ entriesAt entries places ↔ ∃ i ∈ places, entries[i]? = some x :=
  List.mem_filterMap

theorem entriesAt_map (f : β → γ) (entries : List β) (places : List Nat) :
    entriesAt (entries.map f) places = (entriesAt entries places).map f := by
  rw [entriesAt, entriesAt, List.map_filterMap]
  apply List.filterMap_congr
  intro i _
  exact List.getElem?_map

theorem entriesAt_range (entries : List β) :
    entriesAt entries (List.range entries.length) = entries := by
  induction entries with
  | nil => rfl
  | cons first rest ih =>
    rw [List.length_cons, List.range_succ_eq_map, entriesAt, List.filterMap_cons,
      List.filterMap_map]
    exact congrArg (first :: ·) ih

theorem entriesAt_perm {entries : List β} {places : List Nat}
    (all : places ~ List.range entries.length) : entriesAt entries places ~ entries := by
  have perm : entriesAt entries places ~ entriesAt entries (List.range entries.length) :=
    all.filterMap _
  rwa [entriesAt_range] at perm

end Entries

variable (g : Incidence) (h : Heuristic)

def planOf : Plan := plan g (h.layout g).columns [] (h.layout g).rows

theorem of_blocks : (Decomposition.of g h).blocks =
    (planOf g h).groups.map fun b => blockOf g b.rows b.columns := by
  rw [Decomposition.of, reduce_eq_plan, planOf]

theorem of_consistency :
    (Decomposition.of g h).consistency = equationsOf g (planOf g h).checks := by
  rw [Decomposition.of, reduce_eq_plan, planOf]

theorem planOf_rows_perm : (planOf g h).groups.flatMap (·.rows) ++ (planOf g h).checks ~
    List.range g.equations.length :=
  (plan_rows_perm g _ _ _).trans (h.layout_rows_perm g)

theorem blocks_equations_perm :
    (Decomposition.of g h).blocks.flatMap (·.equations) ++ (Decomposition.of g h).consistency ~
      g.equations := by
  refine List.Perm.trans ?_ (entriesAt_perm (planOf_rows_perm g h))
  rw [of_blocks, of_consistency, List.flatMap_map, entriesAt, List.filterMap_append,
    List.filterMap_flatMap]
  apply List.Perm.append_right
  apply List.Perm.flatMap_left
  intro b _
  exact List.mergeSort_perm _ _

variable {g} {equations : List (Nat × List String)}

theorem openUnion_layout (t : Tabulates g equations) :
    openUnion g (h.layout g).columns [] (h.layout g).rows = (h.layout g).columns := by
  rw [openUnion, List.filter_eq_self]
  intro c laid
  have bound : c < g.unknowns.length := by
    simpa using (h.layout_columns_perm g).subset laid
  obtain ⟨e, member, named⟩ := (t.mem_unknowns _).1 (List.getElem_mem bound)
  obtain ⟨r, found⟩ := List.getElem?_of_mem member
  have row : r ∈ (h.layout g).rows := by
    apply (h.layout_rows_perm g).symm.subset
    rw [List.mem_range, t.length_equations]
    exact (List.getElem?_eq_some_iff.1 found).1
  have meets : c ∈ g.row r :=
    (t.mem_row found c).2 ⟨_, named, List.getElem?_eq_getElem bound⟩
  simp only [List.any_eq_true, decide_eq_true_eq]
  exact ⟨r, row, (mem_openColumns g [] r c).2 ⟨meets, List.not_mem_nil⟩⟩

theorem planOf_columns_perm (t : Tabulates g equations) :
    (planOf g h).groups.flatMap (·.columns) ~ List.range g.unknowns.length := by
  have settled := plan_columns_perm g (h.layout g).columns [] (h.layout g).rows
  rw [openUnion_layout h t] at settled
  exact settled.trans (h.layout_columns_perm g)

theorem flatMap_unknowns_eq :
    (Decomposition.of g h).blocks.flatMap (·.unknowns) =
      entriesAt g.unknowns ((planOf g h).groups.flatMap (·.columns)) := by
  rw [of_blocks, List.flatMap_map, entriesAt, List.filterMap_flatMap]
  rfl

theorem blocks_unknowns_perm (t : Tabulates g equations) :
    (Decomposition.of g h).blocks.flatMap (·.unknowns) ~ g.unknowns := by
  rw [flatMap_unknowns_eq]
  exact entriesAt_perm (planOf_columns_perm h t)

theorem mem_columns_of_inOrder {columns settled : List Nat} {groups : List Group}
    (ordered : InOrder g columns settled groups) {k : Nat} {b : Group}
    (found : groups[k]? = some b) (c : Nat) :
    c ∈ b.columns ↔ c ∈ columns ∧ c ∉ settled ++ (groups.take k).flatMap (·.columns) ∧
      ∃ r ∈ b.rows, c ∈ g.row r := by
  induction groups generalizing settled k with
  | nil => simp at found
  | cons first later ih =>
    cases k with
    | zero =>
      rw [List.getElem?_cons_zero, Option.some.injEq] at found
      subst b
      rw [List.take_zero, List.flatMap_nil, List.append_nil]
      exact ordered.1 c
    | succ k =>
      rw [List.getElem?_cons_succ] at found
      rw [ih ordered.2 found, List.take_succ_cons, List.flatMap_cons, List.append_assoc]

theorem mem_entriesAt_unknowns (t : Tabulates g equations) {v : String} {c : Nat}
    (column : g.unknowns[c]? = some v) (places : List Nat) :
    v ∈ entriesAt g.unknowns places ↔ c ∈ places := by
  rw [mem_entriesAt]
  constructor
  · rintro ⟨j, member, same⟩
    obtain ⟨bound, value⟩ := List.getElem?_eq_some_iff.1 column
    obtain ⟨bound', value'⟩ := List.getElem?_eq_some_iff.1 same
    have equal : c = j := (t.unknowns_nodup.getElem_inj_iff).1 (value.trans value'.symm)
    rwa [equal]
  · exact fun member => ⟨c, member, column⟩

theorem exists_row_iff (t : Tabulates g equations) {v : String} {c : Nat}
    (column : g.unknowns[c]? = some v) (rows : List Nat)
    (inside : ∀ r ∈ rows, r < equations.length) :
    (∃ r ∈ rows, c ∈ g.row r) ↔ ∃ e ∈ entriesAt equations rows, v ∈ e.2 := by
  constructor
  · rintro ⟨r, member, meets⟩
    have entry := List.getElem?_eq_getElem (inside r member)
    obtain ⟨w, named, same⟩ := (t.mem_row entry c).1 meets
    rw [column, Option.some.injEq] at same
    exact ⟨_, mem_entriesAt.2 ⟨r, member, entry⟩, same ▸ named⟩
  · rintro ⟨e, chosen, named⟩
    obtain ⟨r, member, entry⟩ := mem_entriesAt.1 chosen
    exact ⟨r, member, (t.mem_row entry c).2 ⟨v, named, column⟩⟩

theorem equationsOf_eq (t : Tabulates g equations) (rows : List Nat) :
    equationsOf g rows = (entriesAt equations rows).map (·.1) := by
  rw [← entriesAt_map, ← t.equations_eq]
  rfl

theorem flatMap_unknowns_take (k : Nat) :
    ((Decomposition.of g h).blocks.take k).flatMap (·.unknowns) =
      entriesAt g.unknowns (((planOf g h).groups.take k).flatMap (·.columns)) := by
  rw [of_blocks, ← List.map_take, List.flatMap_map, entriesAt, List.filterMap_flatMap]
  rfl

theorem group_rows_lt (t : Tabulates g equations) {b : Group} (member : b ∈ (planOf g h).groups) :
    ∀ r ∈ b.rows, r < equations.length := by
  intro r inside
  have all := (planOf_rows_perm g h).subset
    (List.mem_append_left _ (List.mem_flatMap.2 ⟨b, member, inside⟩))
  rwa [List.mem_range, t.length_equations] at all

/-- The unknowns of a block are those in its equations that no earlier block has. -/
theorem mem_unknowns_iff (t : Tabulates g equations) {k : Nat} {group : Group}
    (found : (planOf g h).groups[k]? = some group) (v : String) :
    v ∈ (blockOf g group.rows group.columns).unknowns ↔
      (∃ e ∈ entriesAt equations group.rows, v ∈ e.2) ∧
        v ∉ ((Decomposition.of g h).blocks.take k).flatMap (·.unknowns) := by
  have inside := group_rows_lt h t (List.mem_of_getElem? found)
  have known : (∃ e ∈ entriesAt equations group.rows, v ∈ e.2) → v ∈ g.unknowns := by
    rintro ⟨e, chosen, named⟩
    obtain ⟨r, _, entry⟩ := mem_entriesAt.1 chosen
    exact (t.mem_unknowns v).2 ⟨e, List.mem_of_getElem? entry, named⟩
  by_cases unknown : v ∈ g.unknowns
  · obtain ⟨c, column⟩ := List.getElem?_of_mem unknown
    have laid : c ∈ (h.layout g).columns := by
      apply (h.layout_columns_perm g).symm.subset
      exact List.mem_range.2 (List.getElem?_eq_some_iff.1 column).1
    have order := mem_columns_of_inOrder (plan_inOrder g _ _ _) found c
    rw [List.nil_append, exists_row_iff t column _ inside] at order
    rw [flatMap_unknowns_take, mem_entriesAt_unknowns t column]
    change v ∈ entriesAt g.unknowns group.columns ↔ _
    rw [mem_entriesAt_unknowns t column, order]
    constructor
    · rintro ⟨_, fresh, named⟩
      exact ⟨named, fresh⟩
    · rintro ⟨named, fresh⟩
      exact ⟨laid, fresh, named⟩
  · constructor
    · intro member
      obtain ⟨c, _, column⟩ := List.mem_filterMap.1 member
      exact absurd (List.mem_of_getElem? column) unknown
    · exact fun both => absurd (known both.1) unknown

theorem mem_blocks_unknowns (t : Tabulates g equations) {e : Nat × List String}
    (member : e ∈ equations) {v : String} (named : v ∈ e.2) :
    v ∈ (Decomposition.of g h).blocks.flatMap (·.unknowns) :=
  (blocks_unknowns_perm h t).symm.subset ((t.mem_unknowns v).2 ⟨e, member, named⟩)

theorem blocks_of_nameless (t : Tabulates g equations) (nameless : ∀ e ∈ equations, e.2 = []) :
    (Decomposition.of g h).blocks = [] := by
  have settled : ∀ r, isSettled g [] r = true := by
    intro r
    rw [isSettled, List.isEmpty_iff, List.eq_nil_iff_forall_not_mem]
    intro c open_
    have meets := ((mem_openColumns g [] r c).1 open_).1
    cases entry : equations[r]? with
    | none =>
      rw [row, t.rows_eq, List.getElem?_map, entry] at meets
      cases meets
    | some e =>
      obtain ⟨v, named, _⟩ := (t.mem_row entry c).1 meets
      rw [nameless e (List.mem_of_getElem? entry)] at named
      cases named
  have done : openRows g [] (h.layout g).rows = [] :=
    List.filter_eq_nil_iff.2 fun r _ => by simp [settled r]
  rw [of_blocks, planOf, plan, dif_pos done]
  rfl

theorem mem_entriesAt_of_number (t : Tabulates g equations)
    (distinct : (equations.map (·.1)).Nodup) {e : Nat × List String} (member : e ∈ equations)
    (rows columns : List Nat) :
    e ∈ entriesAt equations rows ↔ e.1 ∈ (blockOf g rows columns).equations := by
  have numbers : e.1 ∈ (blockOf g rows columns).equations ↔
      ∃ f ∈ entriesAt equations rows, f.1 = e.1 := by
    change e.1 ∈ (equationsOf g rows).mergeSort ↔ _
    rw [List.mem_mergeSort, equationsOf_eq t, List.mem_map]
  rw [numbers]
  constructor
  · exact fun chosen => ⟨e, chosen, rfl⟩
  · rintro ⟨f, chosen, same⟩
    obtain ⟨r, _, entry⟩ := mem_entriesAt.1 chosen
    have equal : f = e :=
      List.inj_on_of_nodup_map distinct (List.mem_of_getElem? entry) member same
    exact equal ▸ chosen

theorem mem_block_unknowns_iff (t : Tabulates g equations)
    (distinct : (equations.map (·.1)).Nodup) {k : Nat} {block : EquationBlock}
    (found : (Decomposition.of g h).blocks[k]? = some block) (v : String) :
    v ∈ block.unknowns ↔
      (∃ e ∈ equations, e.1 ∈ block.equations ∧ v ∈ e.2) ∧
        v ∉ ((Decomposition.of g h).blocks.take k).flatMap (·.unknowns) := by
  have blocks := found
  rw [of_blocks, List.getElem?_map, Option.map_eq_some_iff] at blocks
  obtain ⟨group, found_group, rfl⟩ := blocks
  rw [mem_unknowns_iff h t found_group]
  apply and_congr_left
  intro _
  constructor
  · rintro ⟨e, chosen, named⟩
    obtain ⟨r, _, entry⟩ := mem_entriesAt.1 chosen
    have member := List.mem_of_getElem? entry
    exact ⟨e, member, (mem_entriesAt_of_number t distinct member _ _).1 chosen, named⟩
  · rintro ⟨e, member, number, named⟩
    exact ⟨e, (mem_entriesAt_of_number t distinct member _ _).2 number, named⟩

section OfEquations

variable (equations : List (Nat × List String)) (isUnknown : String → Bool)

theorem exists_entry_iff (rows : List Nat) (v : String) :
    (∃ e ∈ entriesAt (equations.map fun e => (e.1, e.2.filter isUnknown)) rows, v ∈ e.2) ↔
      ∃ e ∈ entriesAt equations rows, v ∈ e.2 ∧ isUnknown v := by
  simp only [entriesAt_map, List.mem_map, exists_exists_and_eq_and, List.mem_filter]

theorem equationsOf_ofEquations (rows : List Nat) :
    equationsOf (.ofEquations equations isUnknown) rows = (entriesAt equations rows).map (·.1) := by
  rw [equationsOf_eq (tabulates_ofEquations equations isUnknown), entriesAt_map, List.map_map]
  rfl

/-- The groups of the plan and the checks use every equation once. -/
theorem planOf_entries_perm :
    ((planOf (.ofEquations equations isUnknown) h).groups.map fun b =>
        entriesAt equations b.rows).flatten ++
      entriesAt equations (planOf (.ofEquations equations isUnknown) h).checks ~ equations := by
  have rows_perm := planOf_rows_perm (.ofEquations equations isUnknown) h
  have length_eq := (tabulates_ofEquations equations isUnknown).length_equations
  rw [List.length_map] at length_eq
  rw [length_eq] at rows_perm
  have entries_perm := entriesAt_perm rows_perm
  rwa [entriesAt, List.filterMap_append, List.filterMap_flatMap] at entries_perm

theorem mem_blocks_of_unknown {e : Nat × List String} (member : e ∈ equations) {v : String}
    (named : v ∈ e.2) (unknown : isUnknown v) :
    v ∈ (Decomposition.of (.ofEquations equations isUnknown) h).blocks.flatMap (·.unknowns) :=
  mem_blocks_unknowns h (tabulates_ofEquations equations isUnknown) (List.mem_map_of_mem member)
    (List.mem_filter.2 ⟨named, unknown⟩)

end OfEquations

/-- Every equation is in one block or only checks, once, and every unknown that an equation names is
in one block, once. -/
theorem blocks_and_checks_partition (equations : List (Nat × List String))
    (isUnknown : String → Bool) (h : Heuristic) (distinct : (equations.map (·.1)).Nodup) :
    let g := Incidence.ofEquations equations isUnknown
    let d := Decomposition.of g h
    (d.blocks.flatMap (·.equations) ++ d.consistency ~ equations.map (·.1) ∧
        (d.blocks.flatMap (·.equations) ++ d.consistency).Nodup) ∧
      (d.blocks.flatMap (·.unknowns) ~ g.unknowns ∧ (d.blocks.flatMap (·.unknowns)).Nodup) ∧
      ∀ v, v ∈ g.unknowns ↔ ∃ e ∈ equations, v ∈ e.2 ∧ isUnknown v := by
  intro g d
  have t := tabulates_ofEquations equations isUnknown
  have equations_perm := blocks_equations_perm g h
  rw [t.equations_eq, List.map_map] at equations_perm
  have unknowns_perm := blocks_unknowns_perm h t
  refine ⟨⟨equations_perm, equations_perm.nodup_iff.2 distinct⟩,
    ⟨unknowns_perm, unknowns_perm.nodup_iff.2 t.unknowns_nodup⟩, ?_⟩
  intro v
  simp only [g, t.mem_unknowns, List.mem_map, exists_exists_and_eq_and, List.mem_filter]

theorem partition_of_pair_with_tail :
    let equations := [(4, ["z", "x"]), (7, ["x", "y"]), (1, ["y", "x", "x"]), (3, ["k", "y"])]
    let isUnknown := fun v => v != "k"
    (equations.map (·.1)).Nodup ∧
      let g := Incidence.ofEquations equations isUnknown
      let d := Decomposition.of g (.standard 5)
      (d.blocks.flatMap (·.equations) ++ d.consistency ~ equations.map (·.1) ∧
          (d.blocks.flatMap (·.equations) ++ d.consistency).Nodup) ∧
        (d.blocks.flatMap (·.unknowns) ~ g.unknowns ∧ (d.blocks.flatMap (·.unknowns)).Nodup) ∧
        ∀ v, v ∈ g.unknowns ↔ ∃ e ∈ equations, v ∈ e.2 ∧ isUnknown v :=
  ⟨by decide, blocks_and_checks_partition _ _ _ (by decide)⟩

/-- Blocks come in the order of dependency. Each is made of a group of the given equations and has
just those unknowns of the group that no earlier block has; the equations that only check need
none but unknowns of blocks. Where numbers are distinct, they tell which equations are meant. -/
theorem blocks_in_dependency_order (equations : List (Nat × List String))
    (isUnknown : String → Bool) (h : Heuristic) :
    let d := Decomposition.of (.ofEquations equations isUnknown) h
    (∃ (groups : List (List (Nat × List String))) (checks : List (Nat × List String)),
      groups.flatten ++ checks ~ equations ∧
      d.blocks.map (·.equations) = groups.map (fun group => (group.map (·.1)).mergeSort) ∧
      d.consistency = checks.map (·.1) ∧
      (∀ k group block, groups[k]? = some group → d.blocks[k]? = some block →
        ∀ v, v ∈ block.unknowns ↔ (∃ e ∈ group, v ∈ e.2 ∧ isUnknown v) ∧
          v ∉ (d.blocks.take k).flatMap (·.unknowns)) ∧
      ∀ e ∈ checks, ∀ v ∈ e.2, isUnknown v → v ∈ d.blocks.flatMap (·.unknowns)) ∧
    ((equations.map (·.1)).Nodup →
      (∀ k block, d.blocks[k]? = some block →
        ∀ v, v ∈ block.unknowns ↔
          (∃ e ∈ equations, e.1 ∈ block.equations ∧ v ∈ e.2 ∧ isUnknown v) ∧
          v ∉ (d.blocks.take k).flatMap (·.unknowns)) ∧
      ∀ e ∈ equations, e.1 ∈ d.consistency → ∀ v ∈ e.2, isUnknown v →
        v ∈ d.blocks.flatMap (·.unknowns)) := by
  intro d
  let g := Incidence.ofEquations equations isUnknown
  have t := tabulates_ofEquations equations isUnknown
  have in_blocks : ∀ e ∈ equations, ∀ v ∈ e.2, isUnknown v → v ∈ d.blocks.flatMap (·.unknowns) :=
    fun e member v => mem_blocks_of_unknown h equations isUnknown member
  refine ⟨⟨(planOf g h).groups.map fun b => entriesAt equations b.rows,
    entriesAt equations (planOf g h).checks, planOf_entries_perm h equations isUnknown,
    ?_, ?_, ?_, ?_⟩, ?_⟩
  · rw [of_blocks, List.map_map, List.map_map]
    apply List.map_congr_left
    intro b _
    exact congrArg List.mergeSort (equationsOf_ofEquations equations isUnknown b.rows)
  · rw [of_consistency, equationsOf_ofEquations]
  · intro k group block found_group found v
    rw [List.getElem?_map, Option.map_eq_some_iff] at found_group
    obtain ⟨b, found_b, rfl⟩ := found_group
    rw [of_blocks, List.getElem?_map, found_b, Option.map_some, Option.some.injEq] at found
    subst block
    rw [mem_unknowns_iff h t found_b, exists_entry_iff]
  · intro e member
    obtain ⟨r, _, entry⟩ := mem_entriesAt.1 member
    exact in_blocks e (List.mem_of_getElem? entry)
  · intro distinct
    refine ⟨?_, fun e member _ => in_blocks e member⟩
    intro k block found v
    rw [mem_block_unknowns_iff h t (by rwa [List.map_map]) found]
    simp only [List.mem_map, exists_exists_and_eq_and, List.mem_filter, d]

end Simultaneous.Decomposition
