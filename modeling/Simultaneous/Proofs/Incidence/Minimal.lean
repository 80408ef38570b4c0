import Mathlib
import Simultaneous.Proofs.Incidence.Decomposition

/-!
How far the blocks of a decomposition are minimal. A block of several equations grows along the
layout until it has as many unknowns as equations, so that no part from which it has grown could be
solved by itself, but other parts may.
-/

namespace Simultaneous.Decomposition

open scoped List

open Incidence

variable {g : Incidence} {columns settled : List Nat}

/-- Every row meets columns of the layout only, and each once. -/
structure Laid (g : Incidence) (columns : List Nat) : Prop where
  columns_nodup : columns.Nodup
  row_nodup : ∀ r, (g.row r).Nodup
  row_subset : ∀ r, g.row r ⊆ columns

theorem Laid.length_openUnion_single (laid : Laid g columns) (settled : List Nat) (r : Nat) :
    (openUnion g columns settled [r]).length = (openColumns g settled r).length := by
  have union_nodup : (openUnion g columns settled [r]).Nodup := laid.columns_nodup.filter _
  have open_nodup : (openColumns g settled r).Nodup := (laid.row_nodup r).filter _
  apply List.Perm.length_eq
  rw [List.perm_ext_iff_of_nodup union_nodup open_nodup]
  intro c
  rw [mem_openColumns, mem_openUnion]
  simp only [List.mem_singleton, exists_eq_left]
  constructor
  · rintro ⟨_, fresh, meets⟩
    exact ⟨meets, fresh⟩
  · rintro ⟨meets, fresh⟩
    exact ⟨laid.row_subset r meets, fresh, meets⟩

theorem length_openUnion_mono (columns settled : List Nat) {rows more : List Nat}
    (subset : rows ⊆ more) :
    (openUnion g columns settled rows).length ≤ (openUnion g columns settled more).length := by
  apply List.Sublist.length_le
  apply List.monotone_filter_right
  intro c
  simp only [List.any_eq_true, decide_eq_true_eq]
  rintro ⟨r, member, open_⟩
  exact ⟨r, subset member, open_⟩

/-! ### Rows that are joined -/

theorem joined_le (columns settled rows : List Nat) :
    joined g columns settled rows ≤ rows.length := by
  unfold joined
  cases found : (List.range' 1 rows.length).find? fun k =>
      (openUnion g columns settled (rows.take k)).length = k with
  | none => exact Nat.le_refl _
  | some k =>
    have member := List.mem_of_find?_eq_some found
    rw [List.mem_range'_1] at member
    rw [Option.getD_some]
    omega

theorem length_openUnion_ne_of_lt_joined {rows : List Nat} {k : Nat} (positive : 0 < k)
    (early : k < joined g columns settled rows) :
    (openUnion g columns settled (rows.take k)).length ≠ k := by
  have inside := Nat.lt_of_lt_of_le early (joined_le columns settled rows)
  unfold joined at early
  cases found : (List.range' 1 rows.length).find? fun k =>
      (openUnion g columns settled (rows.take k)).length = k with
  | none =>
    have differ := List.find?_eq_none.1 found k (List.mem_range'_1.2 (by omega))
    rwa [decide_eq_true_eq] at differ
  | some m =>
    rw [found, Option.getD_some] at early
    have differ := (List.find?_range'_eq_some.1 found).2.2 k positive early
    simpa using differ

/-- Joining ends when the numbers are equal, or with the last row. -/
theorem length_openUnion_joined (columns settled rows : List Nat) :
    (openUnion g columns settled (rows.take (joined g columns settled rows))).length =
        joined g columns settled rows ∨
      joined g columns settled rows = rows.length := by
  unfold joined
  cases found : (List.range' 1 rows.length).find? fun k =>
      (openUnion g columns settled (rows.take k)).length = k with
  | none => exact .inr rfl
  | some k =>
    have equal := List.find?_some found
    rw [decide_eq_true_eq] at equal
    exact .inl equal

def Entangled (g : Incidence) (settled rows : List Nat) : Prop :=
  ∀ r ∈ rows, 1 < (openColumns g settled r).length

theorem entangled_of_no_single {rows : List Nat} (open_ : ∀ r ∈ rows, isSettled g settled r = false)
    (none_single : rows.find? (isSingle g settled) = none) : Entangled g settled rows := by
  intro r member
  have not_empty := open_ r member
  have not_single := List.find?_eq_none.1 none_single r member
  rw [isSettled, List.isEmpty_eq_false_iff, ← List.length_pos_iff] at not_empty
  rw [isSingle, decide_eq_true_eq] at not_single
  omega

/-- Rows that are joined never have fewer open columns than there are of them. -/
theorem le_length_openUnion_take (laid : Laid g columns) {rows : List Nat}
    (entangled : Entangled g settled rows) {k : Nat} (positive : 0 < k)
    (early : k ≤ joined g columns settled rows) :
    k ≤ (openUnion g columns settled (rows.take k)).length := by
  -- the rows before the last one did not balance, so they have one column more than needed
  induction k with
  | zero => cases positive
  | succ k ih =>
    cases k with
    | zero =>
      cases rows with
      | nil => cases Nat.lt_of_lt_of_le early (joined_le columns settled [])
      | cons r rest =>
        rw [List.take_succ_cons, List.take_zero, laid.length_openUnion_single]
        exact Nat.le_of_lt (entangled r List.mem_cons_self)
    | succ k =>
      have some_ : 0 < k + 1 := Nat.succ_pos k
      have before := ih some_ (Nat.le_of_lt early)
      have differ := length_openUnion_ne_of_lt_joined some_ early
      have grows : (openUnion g columns settled (rows.take (k + 1))).length ≤
          (openUnion g columns settled (rows.take (k + 1 + 1))).length :=
        length_openUnion_mono columns settled (List.take_subset_take_left rows (Nat.le_succ _))
      omega

/-! ### Groups of a plan -/

/-- How a group came about, before the groups that come later. -/
structure Grown (g : Incidence) (columns settled : List Nat) (b : Group) (later : List Group) :
    Prop where
  columns_eq : b.columns = openUnion g columns settled b.rows
  /-- until it was complete, it had fewer rows than columns -/
  initial : ∀ part, part <+: b.rows → part ≠ [] → part ≠ b.rows →
    part.length < (openUnion g columns settled part).length
  balance : b.rows.length = b.columns.length ∨ b.rows.length < b.columns.length ∧ later = []
  /-- rows are only joined if no row could be solved by itself -/
  entangled : 1 < b.rows.length → Entangled g settled (b.rows ++ later.flatMap (·.rows))

theorem grown_single (laid : Laid g columns) {r : Nat} (single : isSingle g settled r = true)
    (later : List Group) :
    Grown g columns settled ⟨[r], openUnion g columns settled [r]⟩ later where
  columns_eq := rfl
  initial := by
    intro part initial nonempty proper
    rcases List.prefix_cons_iff.1 initial with rfl | ⟨rest, rfl, none⟩
    · exact absurd rfl nonempty
    · rw [List.prefix_nil.1 none] at proper
      exact absurd rfl proper
  balance := by
    left
    rw [isSingle, decide_eq_true_eq] at single
    rw [laid.length_openUnion_single, single]
    rfl
  entangled := by
    intro several
    cases several with
    | step impossible => cases impossible

theorem grown_joined (laid : Laid g columns) {rows : List Nat} (nonempty : rows ≠ [])
    (entangled : Entangled g settled rows) {later : List Group}
    (others : later.flatMap (·.rows) ⊆ rows.drop (joined g columns settled rows))
    (complete : rows.drop (joined g columns settled rows) = [] → later = []) :
    let taken := rows.take (joined g columns settled rows)
    Grown g columns settled ⟨taken, openUnion g columns settled taken⟩ later := by
  intro taken
  have positive := joined_pos g columns settled rows nonempty
  have inside := joined_le (g := g) columns settled rows
  have length_taken : taken.length = joined g columns settled rows := by
    rw [List.length_take]
    omega
  refine ⟨rfl, ?_, ?_, ?_⟩
  · intro part initial some_ proper
    have shorter : part.length < taken.length := by
      refine Nat.lt_of_le_of_ne initial.length_le ?_
      exact fun same => proper (initial.eq_of_length same)
    have part_eq : part = rows.take part.length :=
      List.prefix_iff_eq_take.1 (initial.trans (List.take_prefix _ _))
    rw [length_taken] at shorter
    have least := le_length_openUnion_take laid entangled (List.length_pos_iff.2 some_)
      (Nat.le_of_lt shorter)
    have differ := length_openUnion_ne_of_lt_joined (List.length_pos_iff.2 some_) shorter
    rw [← part_eq] at least differ
    omega
  · have least := le_length_openUnion_take laid entangled positive (Nat.le_refl _)
    rw [length_taken]
    rcases length_openUnion_joined columns settled rows with equal | all
    · exact .inl equal.symm
    · rcases Nat.eq_or_lt_of_le least with equal | more
      · exact .inl equal
      · exact .inr ⟨more, complete (List.drop_eq_nil_of_le (Nat.le_of_eq all.symm))⟩
  · intro _ r member
    apply entangled r
    rcases List.mem_append.1 member with first | further
    · exact List.mem_of_mem_take first
    · exact List.mem_of_mem_drop (others further)

theorem grown_split (laid : Laid g columns) {rows : List Nat} (nonempty : rows ≠ [])
    (open_ : ∀ r ∈ rows, isSettled g settled r = false) {later : List Group}
    (others : later.flatMap (·.rows) ⊆ (split g columns settled rows).2)
    (complete : (split g columns settled rows).2 = [] → later = []) :
    let taken := (split g columns settled rows).1
    Grown g columns settled ⟨taken, openUnion g columns settled taken⟩ later := by
  cases found : rows.find? (isSingle g settled) with
  | some r =>
    have parts : (split g columns settled rows).1 = [r] := by rw [split, found]
    rw [parts]
    exact grown_single laid (List.find?_some found) later
  | none =>
    have parts : split g columns settled rows =
        rows.splitAt (joined g columns settled rows) := by rw [split, found]
    rw [parts, List.splitAt_eq] at others complete ⊢
    exact grown_joined laid nonempty (entangled_of_no_single open_ found) others complete

theorem plan_nil (columns settled : List Nat) : (plan g columns settled []).groups = [] := by
  rw [plan]
  rfl

/-- Every group of a plan has grown from rows that were open when its turn came. -/
theorem plan_grown (laid : Laid g columns) (settled rows : List Nat) :
    let groups := (plan g columns settled rows).groups
    ∀ k b, groups[k]? = some b →
      Grown g columns (settled ++ (groups.take k).flatMap (·.columns)) b (groups.drop (k + 1)) := by
  fun_induction plan g columns settled rows with
  | case1 settled rows done =>
    intro groups k b found
    cases found
  | case2 settled rows more parts taken later ih =>
    intro groups k b found
    cases k with
    | zero =>
      cases found
      rw [List.take_zero, List.flatMap_nil, List.append_nil]
      refine grown_split laid more ?_ ?_ ?_
      · intro r member
        simpa using (List.mem_filter.1 member).2
      · intro r member
        exact (plan_rows_perm g columns (settled ++ taken) parts.2).subset
          (List.mem_append_left _ member)
      · intro none_left
        change later.groups = []
        rw [show later = plan g columns (settled ++ taken) parts.2 from rfl,
          show parts.2 = [] from none_left]
        exact plan_nil columns _
    | succ k =>
      have grown := ih k b found
      rwa [List.append_assoc] at grown

/-! ### Blocks of equations -/

theorem laid_layout {equations : List (Nat × List String)} (t : Tabulates g equations)
    (h : Heuristic) : Laid g (h.layout g).columns where
  columns_nodup := (h.layout_columns_perm g).nodup_iff.2 List.nodup_range
  row_nodup := by
    intro r
    cases entry : equations[r]? with
    | none =>
      rw [row, t.rows_eq, List.getElem?_map, entry]
      exact List.nodup_nil
    | some e =>
      rw [t.row_eq entry]
      refine List.Nodup.map_on ?_ (nodup_firstOccurrences e.2)
      intro v named w _ same
      have known := (t.mem_unknowns v).2
        ⟨e, List.mem_of_getElem? entry, (mem_firstOccurrences e.2 v).1 named⟩
      exact (List.idxOf_inj known).1 same
  row_subset := by
    intro r c meets
    apply (h.layout_columns_perm g).symm.subset
    cases entry : equations[r]? with
    | none =>
      rw [row, t.rows_eq, List.getElem?_map, entry] at meets
      cases meets
    | some e =>
      obtain ⟨v, _, column⟩ := (t.mem_row entry c).1 meets
      exact List.mem_range.2 (List.getElem?_eq_some_iff.1 column).1

def openUnknowns (isUnknown : String → Bool) (settled : List String)
    (part : List (Nat × List String)) : List String :=
  firstOccurrences ((part.flatMap (·.2)).filter fun v => isUnknown v && v ∉ settled)

theorem mem_openUnknowns (isUnknown : String → Bool) (settled : List String)
    (part : List (Nat × List String)) (v : String) :
    v ∈ openUnknowns isUnknown settled part ↔
      (∃ e ∈ part, v ∈ e.2 ∧ isUnknown v) ∧ v ∉ settled := by
  rw [openUnknowns, mem_firstOccurrences, List.mem_filter, List.mem_flatMap, Bool.and_eq_true,
    decide_eq_true_eq]
  constructor
  · rintro ⟨⟨e, member, named⟩, unknown, fresh⟩
    exact ⟨⟨e, member, named, unknown⟩, fresh⟩
  · rintro ⟨⟨e, member, named, unknown⟩, fresh⟩
    exact ⟨⟨e, member, named⟩, unknown, fresh⟩

theorem planOf_grown {equations : List (Nat × List String)} (h : Heuristic)
    (t : Tabulates g equations) {k : Nat} {b : Group}
    (found : (planOf g h).groups[k]? = some b) :
    Grown g (h.layout g).columns (((planOf g h).groups.take k).flatMap (·.columns)) b
      ((planOf g h).groups.drop (k + 1)) := by
  have grown := plan_grown (laid_layout t h) [] (h.layout g).rows k b found
  rwa [List.nil_append] at grown

theorem length_entriesAt {β : Type} {entries : List β} {places : List Nat}
    (inside : ∀ i ∈ places, i < entries.length) :
    (entriesAt entries places).length = places.length := by
  induction places with
  | nil => rfl
  | cons i rest ih =>
    have later := ih fun j member => inside j (List.mem_cons_of_mem i member)
    rw [entriesAt, List.filterMap_cons, List.getElem?_eq_getElem (inside i List.mem_cons_self)]
    exact congrArg Nat.succ later

section OfEquations

variable (equations : List (Nat × List String)) (isUnknown : String → Bool)

theorem mem_openUnknowns_iff_mem_openUnion (h : Heuristic) (places : List Nat) {rows : List Nat}
    (inside : ∀ r ∈ rows, r < equations.length) {v : String} {c : Nat}
    (column : (Incidence.ofEquations equations isUnknown).unknowns[c]? = some v) :
    let g := Incidence.ofEquations equations isUnknown
    v ∈ openUnknowns isUnknown (entriesAt g.unknowns places) (entriesAt equations rows) ↔
      c ∈ openUnion g (h.layout g).columns places rows := by
  intro g
  have t := tabulates_ofEquations equations isUnknown
  have meets := exists_row_iff t column rows (by rwa [List.length_map])
  rw [exists_entry_iff] at meets
  rw [mem_openUnknowns, mem_openUnion, mem_entriesAt_unknowns t column, meets]
  constructor
  · rintro ⟨named, fresh⟩
    refine ⟨?_, fresh, named⟩
    apply (h.layout_columns_perm g).symm.subset
    exact List.mem_range.2 (List.getElem?_eq_some_iff.1 column).1
  · rintro ⟨_, fresh, named⟩
    exact ⟨named, fresh⟩

theorem length_openUnknowns (h : Heuristic) (places : List Nat) {rows : List Nat}
    (inside : ∀ r ∈ rows, r < equations.length) :
    let g := Incidence.ofEquations equations isUnknown
    (openUnknowns isUnknown (entriesAt g.unknowns places) (entriesAt equations rows)).length =
      (openUnion g (h.layout g).columns places rows).length := by
  intro g
  have t := tabulates_ofEquations equations isUnknown
  have column_of : ∀ v ∈ openUnknowns isUnknown (entriesAt g.unknowns places)
      (entriesAt equations rows), g.unknowns[g.unknowns.idxOf v]? = some v := by
    intro v member
    obtain ⟨named, _⟩ := (mem_openUnknowns _ _ _ v).1 member
    rw [← exists_entry_iff] at named
    obtain ⟨e, chosen, also⟩ := named
    obtain ⟨r, _, entry⟩ := mem_entriesAt.1 chosen
    exact List.getElem?_idxOf ((t.mem_unknowns v).2 ⟨e, List.mem_of_getElem? entry, also⟩)
  have places_nodup : ((openUnknowns isUnknown (entriesAt g.unknowns places)
      (entriesAt equations rows)).map g.unknowns.idxOf).Nodup := by
    refine List.Nodup.map_on ?_ (nodup_firstOccurrences _)
    intro v first w second same
    have equal := column_of v first
    rw [same, column_of w second] at equal
    exact (Option.some.inj equal).symm
  have union_nodup : (openUnion g (h.layout g).columns places rows).Nodup :=
    (laid_layout t h).columns_nodup.filter _
  rw [← List.length_map g.unknowns.idxOf]
  apply List.Perm.length_eq
  rw [List.perm_ext_iff_of_nodup places_nodup union_nodup]
  intro c
  rw [List.mem_map]
  constructor
  · rintro ⟨v, member, rfl⟩
    exact (mem_openUnknowns_iff_mem_openUnion equations isUnknown h places inside
      (column_of v member)).1 member
  · intro open_
    obtain ⟨_, _, r, chosen, meets⟩ := (mem_openUnion g _ _ _ c).1 open_
    obtain ⟨v, _, column⟩ := (t.mem_row (List.getElem?_eq_getElem (by
      rw [List.length_map]
      exact inside r chosen)) c).1 meets
    refine ⟨v, (mem_openUnknowns_iff_mem_openUnion equations isUnknown h places inside
      column).2 open_, ?_⟩
    have bound := List.getElem?_eq_some_iff.1 column
    rw [← bound.2]
    exact t.unknowns_nodup.idxOf_getElem c bound.1

variable {equations isUnknown} {h : Heuristic} {k : Nat} {b : Group}

theorem length_openUnknowns_take (k : Nat) {rows : List Nat}
    (inside : ∀ r ∈ rows, r < equations.length) :
    let g := Incidence.ofEquations equations isUnknown
    let settled := ((Decomposition.of g h).blocks.take k).flatMap (·.unknowns)
    (openUnknowns isUnknown settled (entriesAt equations rows)).length =
      (openUnion g (h.layout g).columns (((planOf g h).groups.take k).flatMap (·.columns))
        rows).length := by
  intro g settled
  rw [show settled = _ from flatMap_unknowns_take h k]
  exact length_openUnknowns equations isUnknown h _ inside

theorem group_rows_lt_length {group : Group}
    (member : group ∈ (planOf (.ofEquations equations isUnknown) h).groups) :
    ∀ r ∈ group.rows, r < equations.length := by
  have inside := group_rows_lt h (tabulates_ofEquations equations isUnknown) member
  rwa [List.length_map] at inside

theorem lt_length_openUnknowns_of_prefix
    (found : (planOf (.ofEquations equations isUnknown) h).groups[k]? = some b)
    {part : List (Nat × List String)} (first : part <+: entriesAt equations b.rows)
    (nonempty : part ≠ []) (proper : part ≠ entriesAt equations b.rows) :
    let d := Decomposition.of (.ofEquations equations isUnknown) h
    part.length <
      (openUnknowns isUnknown ((d.blocks.take k).flatMap (·.unknowns)) part).length := by
  intro d
  obtain ⟨rows, first_rows, same⟩ := List.prefix_filterMap_iff.1 first
  change part = entriesAt equations rows at same
  subst same
  have inside : ∀ r ∈ rows, r < equations.length := fun r member =>
    group_rows_lt_length (List.mem_of_getElem? found) r (first_rows.subset member)
  rw [length_entriesAt inside, length_openUnknowns_take k inside]
  have grown := planOf_grown h (tabulates_ofEquations equations isUnknown) found
  apply grown.initial rows first_rows
  · rintro rfl
    exact nonempty rfl
  · rintro rfl
    exact proper rfl

/-- When a block of several equations comes up, every equation of it and of the later blocks has at
least two open unknowns. -/
theorem one_lt_length_openUnknowns
    (found : (planOf (.ofEquations equations isUnknown) h).groups[k]? = some b)
    (several : 1 < (entriesAt equations b.rows).length) {e : Nat × List String}
    (member : e ∈ (((planOf (.ofEquations equations isUnknown) h).groups.map
      fun b => entriesAt equations b.rows).drop k).flatten) :
    let d := Decomposition.of (.ofEquations equations isUnknown) h
    1 < (openUnknowns isUnknown ((d.blocks.take k).flatMap (·.unknowns)) [e]).length := by
  intro d
  have t := tabulates_ofEquations equations isUnknown
  have grown := planOf_grown h t found
  rw [length_entriesAt (group_rows_lt_length (List.mem_of_getElem? found))] at several
  rw [← List.map_drop, List.mem_flatten] at member
  obtain ⟨_, listed, chosen⟩ := member
  obtain ⟨group, later, rfl⟩ := List.mem_map.1 listed
  obtain ⟨r, row, entry⟩ := mem_entriesAt.1 chosen
  have waiting : r ∈ b.rows ++
      ((planOf (.ofEquations equations isUnknown) h).groups.drop (k + 1)).flatMap (·.rows) := by
    rw [List.drop_eq_getElem?_toList_append, found] at later
    exact List.mem_flatMap.2 ⟨group, later, row⟩
  have single : [e] = entriesAt equations [r] := by
    rw [entriesAt, List.filterMap_cons, entry]
    rfl
  rw [single, length_openUnknowns_take k, (laid_layout t h).length_openUnion_single]
  · exact grown.entangled several r waiting
  · intro s only
    rw [List.mem_singleton.1 only]
    exact (List.getElem?_eq_some_iff.1 entry).1

theorem length_openUnknowns_group
    (found : (planOf (.ofEquations equations isUnknown) h).groups[k]? = some b) :
    let d := Decomposition.of (.ofEquations equations isUnknown) h
    (openUnknowns isUnknown ((d.blocks.take k).flatMap (·.unknowns))
      (entriesAt equations b.rows)).length = b.columns.length := by
  have grown := planOf_grown h (tabulates_ofEquations equations isUnknown) found
  intro d
  rw [length_openUnknowns_take k (group_rows_lt_length (List.mem_of_getElem? found)),
    grown.columns_eq]

theorem length_unknowns_group
    (found : (planOf (.ofEquations equations isUnknown) h).groups[k]? = some b) :
    (blockOf (.ofEquations equations isUnknown) b.rows b.columns).unknowns.length =
      b.columns.length := by
  have grown := planOf_grown h (tabulates_ofEquations equations isUnknown) found
  apply length_entriesAt
  intro c member
  rw [grown.columns_eq, mem_openUnion] at member
  exact List.mem_range.1 ((h.layout_columns_perm _).subset member.1)

/-- A block that is not square takes all that is left. -/
theorem balance_group
    (found : (planOf (.ofEquations equations isUnknown) h).groups[k]? = some b) :
    let d := Decomposition.of (.ofEquations equations isUnknown) h
    (entriesAt equations b.rows).length = b.columns.length ∨
      (entriesAt equations b.rows).length < b.columns.length ∧ k + 1 = d.blocks.length := by
  have grown := planOf_grown h (tabulates_ofEquations equations isUnknown) found
  intro d
  rw [length_entriesAt (group_rows_lt_length (List.mem_of_getElem? found))]
  refine grown.balance.imp_right fun under => ⟨under.1, ?_⟩
  have last := List.drop_eq_nil_iff.1 under.2
  have inside := (List.getElem?_eq_some_iff.1 found).1
  rw [of_blocks, List.length_map]
  omega

end OfEquations

/-- A block is minimal if every proper part of its equations has more open unknowns than equations,
so that no part could have been solved by itself. -/
def IsMinimal (isUnknown : String → Bool) (settled : List String)
    (block : List (Nat × List String)) : Prop :=
  ∀ part, part <+ block → part ≠ [] → part ≠ block →
    part.length < (openUnknowns isUnknown settled part).length

/-- In a block of two equations the proper parts are single equations. -/
theorem isMinimal_of_length_le_two {isUnknown : String → Bool} {settled : List String}
    {block : List (Nat × List String)} (small : block.length ≤ 2)
    (entangled : 1 < block.length →
      ∀ e ∈ block, 1 < (openUnknowns isUnknown settled [e]).length) :
    IsMinimal isUnknown settled block := by
  intro part sublist nonempty proper
  have shorter : part.length < block.length :=
    Nat.lt_of_le_of_ne sublist.length_le fun same => proper (sublist.eq_of_length same)
  have some_ := List.length_pos_iff.2 nonempty
  obtain ⟨e, rfl⟩ := List.length_eq_one_iff.1 (show part.length = 1 by omega)
  exact entangled (by omega) e (sublist.subset (List.mem_singleton_self e))

/-- Blocks are made of groups of the given equations, listed as they were joined. A block has as
many unknowns as equations, or else more and it is the last one. What it has grown from, one
equation after the other, always had more open unknowns than equations, and equations are only
joined if each of them and of all later blocks has at least two open unknowns. So blocks of one or
two equations are minimal. -/
theorem blocks_grow_until_balanced (equations : List (Nat × List String))
    (isUnknown : String → Bool) (h : Heuristic) :
    let d := Decomposition.of (.ofEquations equations isUnknown) h
    ∃ (groups : List (List (Nat × List String))) (checks : List (Nat × List String)),
      groups.flatten ++ checks ~ equations ∧
      d.blocks.map (·.equations) = groups.map (fun group => (group.map (·.1)).mergeSort) ∧
      ∀ k group block, groups[k]? = some group → d.blocks[k]? = some block →
        let settled := (d.blocks.take k).flatMap (·.unknowns)
        let openIn := openUnknowns isUnknown settled
        (block.unknowns.length = (openIn group).length ∧
          (group.length = (openIn group).length ∨
            group.length < (openIn group).length ∧ k + 1 = d.blocks.length)) ∧
        (∀ part, part <+: group → part ≠ [] → part ≠ group →
          part.length < (openIn part).length) ∧
        (1 < group.length → ∀ e ∈ (groups.drop k).flatten, 1 < (openIn [e]).length) ∧
        (group.length ≤ 2 → IsMinimal isUnknown settled group) := by
  intro d
  let g := Incidence.ofEquations equations isUnknown
  have t := tabulates_ofEquations equations isUnknown
  refine ⟨(planOf g h).groups.map fun b => entriesAt equations b.rows,
    entriesAt equations (planOf g h).checks, planOf_entries_perm h equations isUnknown, ?_, ?_⟩
  · rw [of_blocks, List.map_map, List.map_map]
    apply List.map_congr_left
    intro b _
    exact congrArg List.mergeSort (equationsOf_ofEquations equations isUnknown b.rows)
  · intro k group block found_group found settled openIn
    rw [List.getElem?_map, Option.map_eq_some_iff] at found_group
    obtain ⟨b, found_b, rfl⟩ := found_group
    rw [of_blocks, List.getElem?_map, found_b, Option.map_some, Option.some.injEq] at found
    subst block
    have size := length_openUnknowns_group found_b
    have entangled := fun several e => one_lt_length_openUnknowns found_b several (e := e)
    refine ⟨⟨(length_unknowns_group found_b).trans size.symm, ?_⟩,
      fun part => lt_length_openUnknowns_of_prefix found_b, entangled, ?_⟩
    · rw [size]
      exact balance_group found_b
    · intro small
      apply isMinimal_of_length_le_two small
      intro several e member
      apply entangled several e
      rw [List.drop_eq_getElem?_toList_append, List.getElem?_map, found_b]
      exact List.mem_append_left _ member

section Example

def apart : List (Nat × List String) := [(0, ["a", "b"]), (1, ["x", "y"]), (2, ["x", "y"])]

def dependent : List (Nat × List String) :=
  [(0, ["a", "b"]), (1, ["b", "a"]), (2, ["b", "d"]), (3, ["c", "a"])]

end Example

/-- That all blocks are minimal is wrong: an equation with one unknown too many is joined with two
that could have been solved by themselves. It is wrong for square blocks, too: the first block of
the second table has two equations without other unknowns than `a` and `b`. -/
theorem blocks_not_minimal :
    ((Decomposition.of (.ofEquations apart fun _ => true) (.standard 5)).blocks =
        [⟨[0, 1, 2], ["b", "a", "y", "x"]⟩] ∧
      ¬IsMinimal (fun _ => true) [] apart) ∧
    ((Decomposition.of (.ofEquations dependent fun _ => true) (.standard 5)).blocks =
        [⟨[0, 1, 3], ["c", "a", "b"]⟩, ⟨[2], ["d"]⟩] ∧
      ¬IsMinimal (fun _ => true) [] (dependent.filter (·.1 ∈ [0, 1, 3]))) := by
  refine ⟨⟨by cbv, fun minimal => ?_⟩, ⟨by cbv, fun minimal => ?_⟩⟩
  · exact absurd (minimal [(1, ["x", "y"]), (2, ["x", "y"])] (by decide) (by decide) (by decide))
      (by decide)
  · exact absurd (minimal [(0, ["a", "b"]), (1, ["b", "a"])] (by decide) (by decide) (by decide))
      (by decide)

end Simultaneous.Decomposition
