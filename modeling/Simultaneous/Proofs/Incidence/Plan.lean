import Mathlib.Data.List.Perm.Basic
import Simultaneous.Incidence.Decomposition

/-!
The decomposition by places in the table: which rows and columns make up each block, and which rows
only check. Every row is used in one place, every column that a row needs is settled by one block,
and a block settles just those columns of its rows that no earlier one has settled.
-/

namespace Simultaneous.Decomposition

open scoped List

structure Group where
  rows : List Nat
  columns : List Nat
deriving Repr, DecidableEq

structure Plan where
  groups : List Group
  checks : List Nat
deriving Repr, DecidableEq

variable (g : Incidence)

def plan (columns settled rows : List Nat) : Plan :=
  if _ : openRows g settled rows = [] then ⟨[], settledRows g settled rows⟩
  else
    let parts := split g columns settled (openRows g settled rows)
    let taken := openUnion g columns settled parts.1
    let later := plan columns (settled ++ taken) parts.2
    ⟨⟨parts.1, taken⟩ :: later.groups, settledRows g settled rows ++ later.checks⟩
termination_by rows.length
decreasing_by
  rename_i nonempty
  have := length_split_snd g columns settled _ nonempty
  have := length_openRows_le g settled rows
  omega

theorem equationsOf_append (rows others : List Nat) :
    equationsOf g (rows ++ others) = equationsOf g rows ++ equationsOf g others :=
  List.filterMap_append

/-- The blocks and checks of a decomposition are those of its plan. -/
theorem reduce_eq_plan (columns settled rows : List Nat) :
    reduce g columns settled rows =
      ⟨(plan g columns settled rows).groups.map fun b => blockOf g b.rows b.columns,
        equationsOf g (plan g columns settled rows).checks⟩ := by
  fun_induction plan g columns settled rows with
  | case1 settled rows done =>
    rw [reduce, dif_pos done]
    rfl
  | case2 settled rows more parts taken later ih =>
    rw [reduce, dif_neg more]
    simp only [List.map_cons, equationsOf_append]
    rw [ih]

theorem mem_openColumns (settled : List Nat) (r c : Nat) :
    c ∈ openColumns g settled r ↔ c ∈ g.row r ∧ c ∉ settled := by
  simp only [openColumns, List.mem_filter, decide_eq_true_eq]

theorem mem_openUnion (columns settled rows : List Nat) (c : Nat) :
    c ∈ openUnion g columns settled rows ↔
      c ∈ columns ∧ c ∉ settled ∧ ∃ r ∈ rows, c ∈ g.row r := by
  simp only [openUnion, List.mem_filter, List.any_eq_true, decide_eq_true_eq, mem_openColumns]
  constructor
  · rintro ⟨laid, r, member, meets, fresh⟩
    exact ⟨laid, fresh, r, member, meets⟩
  · rintro ⟨laid, fresh, r, member, meets⟩
    exact ⟨laid, r, member, meets, fresh⟩

theorem settledRows_append_openRows (settled rows : List Nat) :
    settledRows g settled rows ++ openRows g settled rows ~ rows :=
  List.filter_append_perm _ rows

theorem split_append (columns settled rows : List Nat) :
    (split g columns settled rows).1 ++ (split g columns settled rows).2 ~ rows := by
  unfold split
  split
  next r found =>
    obtain ⟨single, before, after, rfl, none_before⟩ := List.find?_eq_some_iff_append.1 found
    have skip : ∀ x ∈ before, ¬ isSingle g settled x = true := by
      intro x member
      simpa using none_before x member
    rw [List.eraseP_append_right _ skip, List.eraseP_cons_of_pos single]
    exact (List.perm_middle : before ++ r :: after ~ r :: (before ++ after)).symm
  next none_found =>
    rw [List.splitAt_eq, List.take_append_drop]

theorem openUnion_openRows (columns settled rows : List Nat) :
    openUnion g columns settled (openRows g settled rows) = openUnion g columns settled rows := by
  apply List.filter_congr
  intro c _
  rw [Bool.eq_iff_iff]
  simp only [List.any_eq_true, decide_eq_true_eq, openRows, List.mem_filter]
  constructor
  · rintro ⟨r, ⟨member, _⟩, meets⟩
    exact ⟨r, member, meets⟩
  · rintro ⟨r, member, meets⟩
    refine ⟨r, ⟨member, ?_⟩, meets⟩
    simp only [isSettled, Bool.not_eq_true', List.isEmpty_eq_false_iff]
    exact List.ne_nil_of_mem meets

theorem openUnion_split (columns settled rows first others : List Nat)
    (parts : first ++ others ~ rows) :
    openUnion g columns settled first ++
        openUnion g columns (settled ++ openUnion g columns settled first) others ~
      openUnion g columns settled rows := by
  refine List.Perm.trans ?_ (List.filter_append_perm
    (fun c => first.any fun r => c ∈ openColumns g settled r) (openUnion g columns settled rows))
  apply List.Perm.of_eq
  congr 1
  · change List.filter _ columns = List.filter _ (List.filter _ columns)
    rw [List.filter_filter]
    apply List.filter_congr
    intro c _
    rw [Bool.eq_iff_iff]
    simp only [Bool.and_eq_true, List.any_eq_true, decide_eq_true_eq]
    constructor
    · rintro ⟨r, member, meets⟩
      exact ⟨⟨r, member, meets⟩, r, parts.subset (List.mem_append_left _ member), meets⟩
    · exact fun both => both.1
  · change List.filter _ columns = List.filter _ (List.filter _ columns)
    rw [List.filter_filter]
    apply List.filter_congr
    intro c laid
    rw [Bool.eq_iff_iff]
    simp only [Bool.and_eq_true, Bool.not_eq_true', List.any_eq_true, List.any_eq_false,
      decide_eq_true_eq, mem_openColumns, List.mem_append, mem_openUnion]
    constructor
    · rintro ⟨r, member, meets, fresh⟩
      refine ⟨?_, r, parts.subset (List.mem_append_right _ member), meets, fun s => fresh (.inl s)⟩
      rintro s inside ⟨also, open_⟩
      exact fresh (.inr ⟨laid, open_, s, inside, also⟩)
    · rintro ⟨untaken, r, member, meets, open_⟩
      rcases List.mem_append.1 (parts.symm.subset member) with early | late
      · exact absurd ⟨meets, open_⟩ (untaken r early)
      · refine ⟨r, late, meets, ?_⟩
        rintro (s | ⟨_, _, s, inside, also⟩)
        · exact open_ s
        · exact untaken s inside ⟨also, open_⟩

theorem plan_rows_perm (columns settled rows : List Nat) :
    (plan g columns settled rows).groups.flatMap (·.rows) ++ (plan g columns settled rows).checks ~
      rows := by
  fun_induction plan g columns settled rows with
  | case1 settled rows done =>
    have all := settledRows_append_openRows g settled rows
    rw [done, List.append_nil] at all
    exact all
  | case2 settled rows more parts taken later ih =>
    calc
      _ ~ parts.1 ++ (later.groups.flatMap (·.rows) ++ later.checks) ++
          settledRows g settled rows := by
        simp only [List.flatMap_cons, List.append_assoc]
        exact (List.perm_append_comm.append_left _).append_left _
      _ ~ parts.1 ++ parts.2 ++ settledRows g settled rows :=
        (ih.append_left _).append_right _
      _ ~ openRows g settled rows ++ settledRows g settled rows :=
        (split_append g columns settled _).append_right _
      _ ~ rows := List.perm_append_comm.trans (settledRows_append_openRows g settled rows)

theorem plan_columns_perm (columns settled rows : List Nat) :
    (plan g columns settled rows).groups.flatMap (·.columns) ~
      openUnion g columns settled rows := by
  fun_induction plan g columns settled rows with
  | case1 settled rows done =>
    have none_open := openUnion_openRows g columns settled rows
    rw [done] at none_open
    rw [← none_open]
    simp only [openUnion, List.any_nil, List.filter_false, List.flatMap_nil, List.Perm.refl]
  | case2 settled rows more parts taken later ih =>
    rw [List.flatMap_cons, ← openUnion_openRows]
    exact (ih.append_left _).trans
      (openUnion_split g columns settled _ _ _ (split_append g columns settled _))

/-- Each group has those columns of its rows that are settled neither before nor by an earlier
group. -/
def InOrder (columns : List Nat) : (settled : List Nat) → List Group → Prop
  | _, [] => True
  | settled, b :: later =>
    (∀ c, c ∈ b.columns ↔ c ∈ columns ∧ c ∉ settled ∧ ∃ r ∈ b.rows, c ∈ g.row r) ∧
      InOrder columns (settled ++ b.columns) later

theorem plan_inOrder (columns settled rows : List Nat) :
    InOrder g columns settled (plan g columns settled rows).groups := by
  fun_induction plan g columns settled rows with
  | case1 settled rows done => trivial
  | case2 settled rows more parts taken later ih =>
    exact ⟨mem_openUnion g columns settled parts.1, ih⟩

end Simultaneous.Decomposition
