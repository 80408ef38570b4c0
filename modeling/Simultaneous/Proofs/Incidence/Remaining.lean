import Simultaneous.Proofs.Incidence.Minimal

/-!
The rows that are left when the turn of a group comes, and what a group takes of them. A row that
can be solved by itself goes first; otherwise the rows are joined from the first one on, up to the
first place where they have as many open columns as there are of them.
-/

namespace Simultaneous.Decomposition

open scoped List

open Incidence

variable {g : Incidence} {columns settled rows : List Nat}

def remaining (g : Incidence) (settled taken rows : List Nat) : List Nat :=
  (openRows g settled rows).filter (· ∉ taken)

theorem mem_remaining {taken : List Nat} {r : Nat} :
    r ∈ remaining g settled taken rows ↔
      r ∈ rows ∧ isSettled g settled r = false ∧ r ∉ taken := by
  simp only [remaining, openRows, List.mem_filter, Bool.not_eq_true', decide_eq_true_eq,
    and_assoc]

theorem remaining_nil_taken (g : Incidence) (settled rows : List Nat) :
    remaining g settled [] rows = openRows g settled rows :=
  List.filter_eq_self.2 fun _ _ => by simp

theorem isSettled_append (more : List Nat) {r : Nat} (done : isSettled g settled r = true) :
    isSettled g (settled ++ more) r = true := by
  rw [isSettled, List.isEmpty_iff] at done ⊢
  rw [List.eq_nil_iff_forall_not_mem] at done ⊢
  intro c open_
  rw [mem_openColumns, List.mem_append] at open_
  exact done c ((mem_openColumns g settled r c).2 ⟨open_.1, fun early => open_.2 (.inl early)⟩)

theorem openRows_openRows_append (more : List Nat) :
    openRows g (settled ++ more) (openRows g settled rows) = openRows g (settled ++ more) rows := by
  rw [openRows, openRows, openRows, List.filter_filter]
  apply List.filter_congr
  intro r _
  cases done : isSettled g settled r with
  | false => simp
  | true => simp [isSettled_append more done]

/-- The rows that a split leaves are those that it does not take. -/
theorem split_snd_eq_filter (distinct : rows.Nodup) :
    (split g columns settled rows).2 = rows.filter (· ∉ (split g columns settled rows).1) := by
  cases found : rows.find? (isSingle g settled) with
  | some r =>
    have parts : split g columns settled rows = ([r], rows.eraseP (isSingle g settled)) := by
      rw [split, found]
    obtain ⟨single, before, after, rfl, none_before⟩ := List.find?_eq_some_iff_append.1 found
    have skip : ∀ x ∈ before, ¬ isSingle g settled x = true := by
      intro x member
      simpa using none_before x member
    have erased : (before ++ r :: after).eraseP (isSingle g settled) =
        (before ++ r :: after).erase r := by
      have absent : r ∉ before := fun early => skip r early single
      rw [List.eraseP_append_right _ skip, List.eraseP_cons_of_pos single,
        List.erase_append_right _ absent, List.erase_cons_head]
    rw [parts, erased, distinct.erase_eq_filter]
    apply List.filter_congr
    intro x _
    rw [Bool.eq_iff_iff]
    simp
  | none =>
    have parts : split g columns settled rows =
        rows.splitAt (joined g columns settled rows) := by rw [split, found]
    rw [parts, List.splitAt_eq]
    generalize joined g columns settled rows = k
    have apart := List.disjoint_take_drop distinct (Nat.le_refl k)
    conv_rhs => rw [← List.take_append_drop k rows]
    rw [List.filter_append]
    simp only [List.take_append_drop]
    rw [List.filter_eq_nil_iff.2, List.filter_eq_self.2, List.nil_append]
    · intro r late
      simpa using fun early => apart early late
    · intro r early
      simpa using early

theorem remaining_append (more first others : List Nat) :
    remaining g (settled ++ more) (first ++ others) rows =
      remaining g (settled ++ more) others
        ((openRows g settled rows).filter (· ∉ first)) := by
  unfold remaining
  rw [← openRows_openRows_append]
  simp only [openRows, List.filter_filter]
  apply List.filter_congr
  intro r _
  rw [Bool.eq_iff_iff]
  simp only [Bool.and_eq_true, decide_eq_true_eq, List.mem_append]
  tauto

structure Chosen (g : Incidence) (columns settled left : List Nat) (b : Group) : Prop where
  nonempty : left ≠ []
  rows_eq : b.rows = (split g columns settled left).1
  columns_eq : b.columns = openUnion g columns settled b.rows

theorem plan_chosen (g : Incidence) (columns settled rows : List Nat) (distinct : rows.Nodup) :
    let groups := (plan g columns settled rows).groups
    ∀ k b, groups[k]? = some b →
      let before := settled ++ (groups.take k).flatMap (·.columns)
      Chosen g columns before
        (remaining g before ((groups.take k).flatMap (·.rows)) rows) b := by
  fun_induction plan g columns settled rows with
  | case1 settled rows done =>
    intro groups k b found
    cases found
  | case2 settled rows more parts taken later ih =>
    intro groups k b found before
    have distinct_open : (openRows g settled rows).Nodup := distinct.filter _
    have left_eq : parts.2 = (openRows g settled rows).filter (· ∉ parts.1) :=
      split_snd_eq_filter distinct_open
    cases k with
    | zero =>
      cases found
      have same : before = settled := List.append_nil settled
      rw [same, List.take_zero, List.flatMap_nil, remaining_nil_taken]
      exact ⟨more, rfl, rfl⟩
    | succ k =>
      have distinct_left : parts.2.Nodup := by
        rw [left_eq]
        exact distinct_open.filter _
      have chosen := ih distinct_left k b found
      have place : before = settled ++ (taken ++ (later.groups.take k).flatMap (·.columns)) := rfl
      have left : remaining g before ((groups.take (k + 1)).flatMap (·.rows)) rows =
          remaining g before ((later.groups.take k).flatMap (·.rows)) parts.2 := by
        rw [left_eq, place]
        exact remaining_append _ parts.1 _
      rw [left]
      rwa [List.append_assoc, ← place] at chosen

/-- Either the first row that can be solved by itself, or the rows as far as they are joined. -/
theorem Chosen.single_or_joined {left : List Nat} {b : Group}
    (chosen : Chosen g columns settled left b) :
    (∃ r ∈ left, isSingle g settled r = true ∧ b.rows = [r]) ∨
      left.find? (isSingle g settled) = none ∧
        b.rows = left.take (joined g columns settled left) := by
  have rows_eq := chosen.rows_eq
  unfold split at rows_eq
  split at rows_eq
  next r found =>
    exact .inl ⟨r, List.mem_of_find?_eq_some found, List.find?_some found, rows_eq⟩
  next none_found =>
    rw [List.splitAt_eq] at rows_eq
    exact .inr ⟨none_found, rows_eq⟩

theorem Chosen.rows_subset {left : List Nat} {b : Group}
    (chosen : Chosen g columns settled left b) : b.rows ⊆ left := by
  rw [chosen.rows_eq]
  exact fun r member =>
    (split_append g columns settled left).subset (List.mem_append_left _ member)

theorem Chosen.joined_of_several (laid : Laid g columns) {left : List Nat} {b : Group}
    (chosen : Chosen g columns settled left b)
    (several : 1 < b.rows.length ∨ 1 < b.columns.length) :
    (∀ r ∈ left, (openColumns g settled r).length ≠ 1) ∧ b.rows <+: left := by
  rcases chosen.single_or_joined with ⟨r, _, single, rows_eq⟩ | ⟨none_single, rows_eq⟩
  · rw [isSingle, decide_eq_true_eq] at single
    rw [chosen.columns_eq, rows_eq, laid.length_openUnion_single, single] at several
    simp at several
  · refine ⟨fun r member => ?_, rows_eq ▸ List.take_prefix _ _⟩
    simpa [isSingle] using List.find?_eq_none.1 none_single r member

/-- A group has as many rows as columns, or else fewer, and these are all rows that are left. -/
theorem Chosen.balance (laid : Laid g columns) {left : List Nat}
    (open_ : ∀ r ∈ left, isSettled g settled r = false) {b : Group}
    (chosen : Chosen g columns settled left b) :
    b.rows.length = b.columns.length ∨ b.rows.length < b.columns.length ∧ b.rows = left := by
  rw [chosen.columns_eq]
  rcases chosen.single_or_joined with ⟨r, _, single, rows_eq⟩ | ⟨none_single, rows_eq⟩
  · rw [isSingle, decide_eq_true_eq] at single
    rw [rows_eq, laid.length_openUnion_single, single]
    exact .inl rfl
  · have inside := joined_le (g := g) columns settled left
    have least := le_length_openUnion_take laid (entangled_of_no_single open_ none_single)
      (joined_pos g columns settled left chosen.nonempty) (Nat.le_refl _)
    rw [← rows_eq] at least
    have length_rows : b.rows.length = joined g columns settled left := by
      rw [rows_eq, List.length_take]
      omega
    rcases Nat.eq_or_lt_of_le least with equal | more
    · exact .inl (length_rows.trans equal)
    · refine .inr ⟨length_rows ▸ more, ?_⟩
      rcases length_openUnion_joined columns settled left with equal | all
      · rw [← rows_eq] at equal
        omega
      · rw [rows_eq, all, List.take_length]

/-! ### Blocks of equations -/

variable {equations : List (Nat × List String)} {isUnknown : String → Bool} {h : Heuristic}

theorem layout_rows_nodup (g : Incidence) (h : Heuristic) : (h.layout g).rows.Nodup :=
  (h.layout_rows_perm g).nodup_iff.2 List.nodup_range

theorem planOf_chosen {k : Nat} {b : Group} (found : (planOf g h).groups[k]? = some b) :
    let settled := ((planOf g h).groups.take k).flatMap (·.columns)
    Chosen g (h.layout g).columns settled
      (remaining g settled (((planOf g h).groups.take k).flatMap (·.rows)) (h.layout g).rows) b := by
  have chosen := plan_chosen g (h.layout g).columns [] _ (layout_rows_nodup g h) k b found
  rwa [List.nil_append] at chosen

theorem length_equations_group {b : Group}
    (member : b ∈ (planOf (.ofEquations equations isUnknown) h).groups) :
    (blockOf (.ofEquations equations isUnknown) b.rows b.columns).equations.length =
      b.rows.length := by
  change (equationsOf _ b.rows).mergeSort.length = _
  rw [List.length_mergeSort, equationsOf_ofEquations, List.length_map,
    length_entriesAt (group_rows_lt_length member)]

theorem length_equations_le (equations : List (Nat × List String)) (isUnknown : String → Bool)
    (h : Heuristic) {block : EquationBlock}
    (member : block ∈ (Decomposition.of (.ofEquations equations isUnknown) h).blocks) :
    block.equations.length ≤ block.unknowns.length := by
  rw [of_blocks, List.mem_map] at member
  obtain ⟨b, listed, rfl⟩ := member
  obtain ⟨k, found⟩ := List.getElem?_of_mem listed
  rw [length_equations_group listed, length_unknowns_group found]
  rcases (planOf_grown h (tabulates_ofEquations equations isUnknown) found).balance with
    equal | under
  · exact Nat.le_of_eq equal
  · exact Nat.le_of_lt under.1

/-- A block has at most as many equations as unknowns. When its turn comes, some rows are left: they
are in no earlier block and meet a column that no earlier block has settled. A block of several
equations or unknowns is taken only if none of them has exactly one open column; then it is a first
part of them along the layout, and every proper part of it from the first row on has more open
columns than rows. A block that is not square is the last one and takes all rows that are left. -/
theorem blocks_join_no_row_too_many (equations : List (Nat × List String))
    (isUnknown : String → Bool) (h : Heuristic) :
    let g := Incidence.ofEquations equations isUnknown
    let l := h.layout g
    let d := Decomposition.of g h
    (∀ block ∈ d.blocks, block.equations.length ≤ block.unknowns.length) ∧
    ∃ (groups : List Group) (checks : List Nat),
      groups.flatMap (·.rows) ++ checks ~ l.rows ∧ l.rows.Nodup ∧
      d = ⟨groups.map fun b => blockOf g b.rows b.columns, equationsOf g checks⟩ ∧
      ∀ k b block, groups[k]? = some b → d.blocks[k]? = some block →
        let settled := (groups.take k).flatMap (·.columns)
        let left := remaining g settled ((groups.take k).flatMap (·.rows)) l.rows
        (b.rows ⊆ left ∧ b.columns = openUnion g l.columns settled b.rows ∧
          block.equations.length = b.rows.length ∧
          block.unknowns.length = b.columns.length) ∧
        (1 < block.equations.length ∨ 1 < block.unknowns.length →
          (∀ r ∈ left, (openColumns g settled r).length ≠ 1) ∧ b.rows <+: left ∧
            ∀ part, part <+: b.rows → part ≠ [] → part ≠ b.rows →
              part.length < (openUnion g l.columns settled part).length) ∧
        (block.equations.length ≠ block.unknowns.length →
          k + 1 = d.blocks.length ∧ b.rows = left) := by
  intro g l d
  have t := tabulates_ofEquations equations isUnknown
  refine ⟨fun block => length_equations_le equations isUnknown h,
    (planOf g h).groups, (planOf g h).checks, plan_rows_perm g _ _ _, layout_rows_nodup g h,
    reduce_eq_plan g _ _ _, ?_⟩
  intro k b block found_b found settled left
  rw [of_blocks, List.getElem?_map, found_b, Option.map_some, Option.some.injEq] at found
  subst block
  have laid := laid_layout t h
  have grown := planOf_grown h t found_b
  have chosen : Chosen g l.columns settled left b := planOf_chosen found_b
  rw [length_equations_group (List.mem_of_getElem? found_b), length_unknowns_group found_b]
  refine ⟨⟨chosen.rows_subset, chosen.columns_eq, rfl, rfl⟩, ?_, ?_⟩
  · intro several
    obtain ⟨no_single, first⟩ := chosen.joined_of_several laid several
    exact ⟨no_single, first, grown.initial⟩
  · intro differ
    have open_ : ∀ r ∈ left, isSettled g settled r = false :=
      fun r member => (mem_remaining.1 member).2.1
    refine ⟨?_, ((chosen.balance laid open_).resolve_left differ).2⟩
    have last := List.drop_eq_nil_iff.1 (grown.balance.resolve_left differ).2
    have inside := (List.getElem?_eq_some_iff.1 found_b).1
    rw [of_blocks, List.length_map]
    exact Nat.le_antisymm inside last

end Simultaneous.Decomposition
