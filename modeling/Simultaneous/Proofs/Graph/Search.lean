import Simultaneous.Graph.Component

/-!
Every node that exists comes into exactly one component. A node is always in one of three places:
not found yet, found and pending, or in a component. What is to be shown is that nothing stays
pending. The nodes on the path divide the pending ones into segments, and the low link of the root
cannot lie below its own number, so that leaving the root empties the last segment.
-/

namespace Simultaneous.Graph

open scoped List

namespace Search

variable {ν : Type}

/-- The frames of a path stand among the pending nodes, and the root is the earliest of these. -/
def Nested : List (Frame ν) → List (ν × Nat) → Prop
  | [], pending => pending = []
  | f :: rest, pending =>
    ∃ later earlier, pending = later ++ (f.node, f.number) :: earlier ∧ Nested rest earlier

/-- Where the nodes are while a search goes on whose root has the number `base`. -/
structure Descent (nodes : List ν) (base : Nat) (s : Search ν) : Prop where
  places : s.fresh ++ (s.pending.map (·.1) ++ s.components.flatten) ~ nodes
  nested : Nested s.path s.pending
  base_le_found : base ≤ s.found
  base_le_number : ∀ entry ∈ s.pending, base ≤ entry.2
  low_between : ∀ f ∈ s.path, base ≤ f.low ∧ f.low ≤ f.number
  root_number : ∀ f, s.path.getLast? = some f → f.number = base

structure Idle (nodes : List ν) (s : Search ν) : Prop where
  places : s.fresh ++ s.components.flatten ~ nodes
  pending : s.pending = []
  path : s.path = []

theorem idle_of_nodes (nodes : List ν) : Idle nodes ⟨nodes, 0, [], [], []⟩ :=
  ⟨by simp, rfl, rfl⟩

theorem Nested.lowered {path : List (Frame ν)} {pending : List (ν × Nat)}
    (nested : Nested path pending) (low : Nat) : Nested (lowered low path) pending := by
  cases path with
  | nil => exact nested
  | cons f rest => exact nested

theorem getLast?_lowered (low : Nat) (path : List (Frame ν)) (f : Frame ν)
    (last : (lowered low path).getLast? = some f) :
    ∃ g, path.getLast? = some g ∧ f.number = g.number := by
  match path with
  | [] => simp [lowered] at last
  | [g] =>
    simp only [lowered, List.getLast?_singleton, Option.some.injEq] at last
    exact ⟨g, rfl, by rw [← last]⟩
  | g :: h :: rest =>
    rw [lowered, List.getLast?_cons_cons] at last
    exact ⟨f, by rw [List.getLast?_cons_cons, last], rfl⟩

namespace Descent

variable {nodes : List ν} {base : Nat} {s : Search ν}

theorem pending_nodup (d : Descent nodes base s) (distinct : nodes.Nodup) :
    (s.pending.map (·.1)).Nodup := by
  have all := d.places.nodup_iff.2 distinct
  exact (List.nodup_append.1 (List.nodup_append.1 all).2.1).1

theorem reframe (d : Descent nodes base s) {f : Frame ν} {rest : List (Frame ν)}
    (path_eq : s.path = f :: rest) (low : Nat) (edges : List ν) (lower : base ≤ low)
    (upper : low ≤ f.number) :
    Descent nodes base { s with path := ⟨f.node, f.number, low, edges⟩ :: rest } where
  places := d.places
  nested := by
    have nested := d.nested
    rw [path_eq] at nested
    exact nested
  base_le_found := d.base_le_found
  base_le_number := d.base_le_number
  low_between := by
    intro g member
    rcases List.mem_cons.1 member with rfl | later
    · exact ⟨lower, upper⟩
    · exact d.low_between g (path_eq ▸ List.mem_cons_of_mem f later)
  root_number := by
    intro g last
    have root := d.root_number
    rw [path_eq] at root
    cases rest with
    | nil =>
      simp only [List.getLast?_singleton, Option.some.injEq] at last
      rw [← last]
      exact root f rfl
    | cons h others =>
      rw [List.getLast?_cons_cons] at last
      exact root g (by rw [List.getLast?_cons_cons, last])

/-- A root can reach nothing that was found before it. -/
theorem root_closed (d : Descent nodes base s) {f : Frame ν} (path_eq : s.path = [f]) :
    f.low = f.number := by
  have between := d.low_between f (by rw [path_eq]; exact List.mem_singleton_self f)
  have root := d.root_number f (by rw [path_eq, List.getLast?_singleton])
  omega

theorem low_between_lowered (d : Descent nodes base s) {f : Frame ν} {rest : List (Frame ν)}
    (path_eq : s.path = f :: rest) :
    ∀ g ∈ lowered f.low rest, base ≤ g.low ∧ g.low ≤ g.number := by
  have between := d.low_between
  rw [path_eq] at between
  intro g member
  cases rest with
  | nil => cases member
  | cons h others =>
    rcases List.mem_cons.1 member with rfl | further
    · have own := between h (by simp)
      have left := between f (by simp)
      exact ⟨Nat.le_min.2 ⟨own.1, left.1⟩, Nat.le_trans (Nat.min_le_left _ _) own.2⟩
    · exact between g (by simp [further])

theorem root_number_lowered (d : Descent nodes base s) {f : Frame ν} {rest : List (Frame ν)}
    (path_eq : s.path = f :: rest) :
    ∀ g, (lowered f.low rest).getLast? = some g → g.number = base := by
  intro g last
  obtain ⟨h, last', same⟩ := getLast?_lowered f.low rest g last
  rw [same]
  apply d.root_number h
  cases rest with
  | nil => cases last'
  | cons k others => rw [path_eq, List.getLast?_cons_cons, last']

end Descent

variable [DecidableEq ν]

theorem since_append (v : ν) (pending : List (ν × Nat)) :
    (since v pending).1 ++ (since v pending).2.map (·.1) = pending.map (·.1) := by
  induction pending with
  | nil => rfl
  | cons entry rest ih =>
    by_cases same : entry.1 = v
    · rw [since, if_pos same, List.map_cons, same, List.singleton_append]
    · rw [since, if_neg same, List.map_cons, List.cons_append, ih]

theorem since_snd (v : ν) (number : Nat) (later earlier : List (ν × Nat))
    (absent : v ∉ later.map (·.1)) :
    (since v (later ++ (v, number) :: earlier)).2 = earlier := by
  induction later with
  | nil => rw [List.nil_append, since, if_pos rfl]
  | cons entry rest ih =>
    rw [List.map_cons, List.mem_cons, not_or] at absent
    rw [List.cons_append, since, if_neg (Ne.symm absent.1)]
    exact ih absent.2

namespace Descent

variable {nodes : List ν} {base : Nat} {s : Search ν} (successors : ν → List ν)

theorem places_enter (s : Search ν) {v : ν} (fresh : v ∈ s.fresh)
    (places : s.fresh ++ (s.pending.map (·.1) ++ s.components.flatten) ~ nodes) :
    (s.enter successors v).fresh ++ ((s.enter successors v).pending.map (·.1) ++
      (s.enter successors v).components.flatten) ~ nodes := by
  refine List.Perm.trans ?_ places
  simp only [enter, List.map_cons, List.cons_append]
  calc
    _ ~ v :: (s.fresh.erase v ++ (s.pending.map (·.1) ++ s.components.flatten)) :=
      List.perm_middle
    _ ~ s.fresh ++ (s.pending.map (·.1) ++ s.components.flatten) :=
      (List.perm_cons_erase fresh).symm.append_right _

theorem enter (d : Descent nodes base s) {v : ν} (fresh : v ∈ s.fresh)
    (started : s.path ≠ []) : Descent nodes base (s.enter successors v) where
  places := places_enter successors s fresh d.places
  nested := ⟨[], s.pending, rfl, d.nested⟩
  base_le_found := Nat.le_succ_of_le d.base_le_found
  base_le_number := by
    intro entry member
    rcases List.mem_cons.1 member with rfl | earlier
    · exact d.base_le_found
    · exact d.base_le_number entry earlier
  low_between := by
    intro f member
    rcases List.mem_cons.1 member with rfl | earlier
    · exact ⟨d.base_le_found, Nat.le_refl _⟩
    · exact d.low_between f earlier
  root_number := by
    intro f last
    apply d.root_number f
    obtain ⟨g, rest, path_eq⟩ := List.exists_cons_of_ne_nil started
    rw [path_eq]
    simpa only [Search.enter, path_eq, List.getLast?_cons_cons] using last

theorem of_idle (idle : Idle nodes s) {root : ν} (fresh : root ∈ s.fresh) :
    Descent nodes s.found (s.enter successors root) where
  places := by
    apply places_enter successors s fresh
    rw [idle.pending, List.map_nil, List.nil_append]
    exact idle.places
  nested := ⟨[], s.pending, rfl, by rw [idle.path]; exact idle.pending⟩
  base_le_found := Nat.le_succ _
  base_le_number := by
    intro entry member
    simp only [Search.enter, idle.pending, List.mem_singleton] at member
    exact Nat.le_of_eq (by rw [member])
  low_between := by
    intro f member
    simp only [Search.enter, idle.path, List.mem_singleton] at member
    rw [member]
    exact ⟨Nat.le_refl _, Nat.le_refl _⟩
  root_number := by
    intro f last
    simp only [Search.enter, idle.path, List.getLast?_singleton, Option.some.injEq] at last
    rw [← last]

theorem follow (d : Descent nodes base s) {f : Frame ν} {w : ν} {rest : List (Frame ν)}
    {edges : List ν} (path_eq : s.path = ⟨f.node, f.number, f.low, w :: edges⟩ :: rest) :
    Descent nodes base (s.follow successors f w edges rest) := by
  have between := d.low_between _ (by rw [path_eq]; exact List.mem_cons_self ..)
  have stay := d.reframe path_eq f.low edges between.1 between.2
  unfold Search.follow
  split
  next fresh => exact stay.enter successors fresh (List.cons_ne_nil _ _)
  next known =>
    split
    next entry number found =>
      -- an edge to a pending node: its number is a bound for the low link
      have member := List.mem_of_find?_eq_some found
      have lower := d.base_le_number _ member
      exact d.reframe path_eq (min f.low number) edges (Nat.le_min.2 ⟨between.1, lower⟩)
        (Nat.le_trans (Nat.min_le_left _ _) between.2)
    next absent => exact stay

theorem leave (d : Descent nodes base s) (distinct : nodes.Nodup) {f : Frame ν}
    {rest : List (Frame ν)} (path_eq : s.path = f :: rest) :
    Descent nodes base (s.leave f rest) := by
  have nested := d.nested
  rw [path_eq] at nested
  obtain ⟨later, earlier, split_eq, inner⟩ := nested
  have low_between := d.low_between_lowered path_eq
  have root_number := d.root_number_lowered path_eq
  unfold Search.leave
  split
  next closed =>
    -- the component is what is pending down to the node, so the cut is made at its own place
    have absent : f.node ∉ later.map (·.1) := by
      have once := d.pending_nodup distinct
      rw [split_eq, List.map_append, List.map_cons] at once
      intro member
      exact (List.nodup_append.1 once).2.2 _ member _ (List.mem_cons_self ..) rfl
    have cut : (since f.node s.pending).2 = earlier := by
      rw [split_eq]
      exact since_snd f.node f.number later earlier absent
    refine ⟨?_, ?_, d.base_le_found, ?_, low_between, root_number⟩
    · refine List.Perm.trans (List.Perm.append_left _ ?_) d.places
      rw [List.flatten_cons, ← since_append f.node s.pending, ← List.append_assoc]
      exact List.perm_append_comm.append_right _
    · rw [cut]
      exact inner.lowered f.low
    · intro entry member
      rw [cut] at member
      apply d.base_le_number entry
      rw [split_eq]
      exact List.mem_append_right _ (List.mem_cons_of_mem _ member)
  next opened =>
    refine ⟨d.places, ?_, d.base_le_found, d.base_le_number, low_between, root_number⟩
    cases rest with
    | nil =>
      -- a root is never left without a component
      exact absurd (d.root_closed path_eq) opened
    | cons h others =>
      obtain ⟨later', earlier', split', inner'⟩ := inner
      refine ⟨later ++ (f.node, f.number) :: later', earlier', ?_, inner'⟩
      rw [split_eq, split']
      simp only [List.append_assoc, List.cons_append]

theorem run (d : Descent nodes base s) (distinct : nodes.Nodup) :
    Idle nodes (s.run successors) := by
  fun_induction Search.run successors s with
  | case1 s path_eq =>
    have nested := d.nested
    rw [path_eq] at nested
    have places := d.places
    rw [show s.pending = [] from nested, List.map_nil, List.nil_append] at places
    exact ⟨places, nested, path_eq⟩
  | case2 s v number low rest path_eq ih => exact ih (d.leave distinct path_eq)
  | case3 s v number low w edges rest path_eq ih =>
    exact ih (d.follow successors (f := ⟨v, number, low, edges⟩) path_eq)

end Descent

variable (successors : ν → List ν)

theorem fresh_follow_sublist (s : Search ν) (f : Frame ν) (w : ν) (edges : List ν)
    (rest : List (Frame ν)) : (s.follow successors f w edges rest).fresh.Sublist s.fresh := by
  unfold follow
  split
  next fresh => exact List.erase_sublist
  next known => split <;> exact List.Sublist.refl _

theorem fresh_run_sublist (s : Search ν) : (s.run successors).fresh.Sublist s.fresh := by
  fun_induction run successors s with
  | case1 s path_eq => exact List.Sublist.refl _
  | case2 s v number low rest path_eq ih =>
    rw [fresh_leave] at ih
    exact ih
  | case3 s v number low w edges rest path_eq ih =>
    exact ih.trans (fresh_follow_sublist successors s _ w edges rest)

theorem fresh_start_sublist (s : Search ν) (root : ν) :
    (s.start successors root).fresh.Sublist s.fresh := by
  unfold start
  split
  next fresh => exact (fresh_run_sublist successors _).trans List.erase_sublist
  next known => exact List.Sublist.refl _

theorem Idle.start {nodes : List ν} {s : Search ν} (idle : Idle nodes s)
    (distinct : nodes.Nodup) (root : ν) : Idle nodes (s.start successors root) := by
  unfold Search.start
  split
  next fresh => exact (Descent.of_idle successors idle fresh).run successors distinct
  next known => exact idle

theorem not_mem_fresh_start {nodes : List ν} {s : Search ν} (idle : Idle nodes s)
    (distinct : nodes.Nodup) (root : ν) : root ∉ (s.start successors root).fresh := by
  unfold start
  split
  next fresh =>
    have once : s.fresh.Nodup := (List.nodup_append.1 (idle.places.nodup_iff.2 distinct)).1
    intro member
    have still : root ∈ s.fresh.erase root := (fresh_run_sublist successors _).subset member
    exact once.not_mem_erase still
  next known => exact known

theorem idle_foldl (nodes roots : List ν) (distinct : nodes.Nodup) (s : Search ν)
    (idle : Idle nodes s) :
    Idle nodes (roots.foldl (start successors) s) ∧
      (roots.foldl (start successors) s).fresh.Sublist s.fresh ∧
      ∀ v ∈ roots, v ∉ (roots.foldl (start successors) s).fresh := by
  induction roots generalizing s with
  | nil => exact ⟨idle, List.Sublist.refl _, by simp⟩
  | cons root rest ih =>
    rw [List.foldl_cons]
    obtain ⟨after, shrunk, found⟩ := ih _ (idle.start successors distinct root)
    refine ⟨after, shrunk.trans (fresh_start_sublist successors s root), ?_⟩
    intro v member
    rcases List.mem_cons.1 member with rfl | later
    · exact fun fresh => not_mem_fresh_start successors idle distinct v (shrunk.subset fresh)
    · exact found v later

end Search

/-- The components of a search from all nodes hold every node exactly once. -/
theorem components_flatten_perm {ν : Type} [DecidableEq ν] (successors : ν → List ν)
    (nodes roots : List ν) (distinct : nodes.Nodup) (all : ∀ v ∈ nodes, v ∈ roots) :
    (components successors nodes roots).flatten ~ nodes := by
  obtain ⟨after, shrunk, found⟩ :=
    Search.idle_foldl successors nodes roots distinct _ (Search.idle_of_nodes nodes)
  have none_fresh : (roots.foldl (Search.start successors) ⟨nodes, 0, [], [], []⟩).fresh = [] := by
    rw [List.eq_nil_iff_forall_not_mem]
    intro v fresh
    exact found v (all v (shrunk.subset fresh)) fresh
  have places := after.places
  rw [none_fresh, List.nil_append] at places
  exact ((List.reverse_perm _).flatten).trans places

end Simultaneous.Graph
