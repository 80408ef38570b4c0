import Mathlib.Data.List.Nodup
import Mathlib.Logic.Relation
import Simultaneous.Proofs.Graph.Search

/-!
Where every edge leads both ways, the components are the classes of nodes that paths join. The edge
back to the node that a node was found from keeps its low link below its own number, so nothing gets
a component before the root is left, and then all that is pending makes one.
-/

namespace Simultaneous.Graph

variable {ν : Type}

def Leads (successors : ν → List ν) : ν → ν → Prop :=
  Relation.ReflTransGen fun v w => w ∈ successors v

def IsClass (successors : ν → List ν) (c : List ν) : Prop :=
  ∃ r, ∀ v, v ∈ c ↔ Leads successors r v

theorem Leads.symm {successors : ν → List ν}
    (both : ∀ v w, w ∈ successors v → v ∈ successors w) {v w : ν} (path : Leads successors v w) :
    Leads successors w v := by
  have edges : Std.Symm fun v w => w ∈ successors v := ⟨both⟩
  exact Relation.ReflTransGen.stdSymm.symm v w path

namespace Search

/-- Along a path, every node still has the edge to the node before it to follow, or its low link
takes account of that node. -/
def Returning : List (Frame ν) → Prop
  | f :: g :: rest =>
    (g.node ∈ f.edges ∨ f.low ≤ g.number) ∧ g.number < f.number ∧ Returning (g :: rest)
  | _ => True

/-- What a search has seen since it started from a root, when there were some components already:
every edge of a pending node leads to a node that was found or is still to be followed. -/
structure Exploration (successors : ν → List ν) (earlier : List (List ν)) (root : ν)
    (s : Search ν) : Prop where
  components_eq : s.components = earlier
  root_pending : root ∈ s.pending.map (·.1)
  reached : ∀ entry ∈ s.pending, Leads successors root entry.1
  seen : ∀ entry ∈ s.pending, ∀ w ∈ successors entry.1,
    w ∉ s.fresh ∨ ∃ f ∈ s.path, f.node = entry.1 ∧ w ∈ f.edges
  edges_subset : ∀ f ∈ s.path, f.edges ⊆ successors f.node
  returning : Returning s.path
  number_lt_found : ∀ entry ∈ s.pending, entry.2 < s.found

theorem Returning.reframe {f : Frame ν} {w : ν} {edges : List ν} {rest : List (Frame ν)} {low : Nat}
    (returning : Returning ({ f with edges := w :: edges } :: rest)) (lower : low ≤ f.low)
    (counted : ∀ g, rest.head? = some g → g.node = w → low ≤ g.number) :
    Returning ({ f with low, edges } :: rest) := by
  cases rest with
  | nil => trivial
  | cons g others =>
    obtain ⟨back, less, inner⟩ := returning
    refine ⟨?_, less, inner⟩
    rcases back with ahead | low_le
    · rcases List.mem_cons.1 ahead with here | later
      · exact .inr (counted g rfl here)
      · exact .inl later
    · exact .inr (Nat.le_trans lower low_le)

theorem Returning.lowered {path : List (Frame ν)} (returning : Returning path) (low : Nat) :
    Returning (lowered low path) := by
  match path with
  | [] => trivial
  | [f] => trivial
  | f :: g :: rest =>
    obtain ⟨back, less, inner⟩ := returning
    exact ⟨back.imp_right fun low_le => Nat.le_trans (Nat.min_le_left _ _) low_le, less, inner⟩

theorem Nested.mem_pending {path : List (Frame ν)} {pending : List (ν × Nat)}
    (nested : Nested path pending) {f : Frame ν} (member : f ∈ path) :
    (f.node, f.number) ∈ pending := by
  induction path generalizing pending with
  | nil => cases member
  | cons g rest ih =>
    obtain ⟨later, before, rfl, inner⟩ := nested
    rcases List.mem_cons.1 member with rfl | further
    · exact List.mem_append_right _ List.mem_cons_self
    · exact List.mem_append_right _ (List.mem_cons_of_mem _ (ih inner further))

theorem exists_mem_lowered {low : Nat} {path : List (Frame ν)} {f : Frame ν} (member : f ∈ path) :
    ∃ g ∈ lowered low path, g.node = f.node ∧ g.edges = f.edges := by
  cases path with
  | nil => cases member
  | cons h rest =>
    rcases List.mem_cons.1 member with rfl | further
    · exact ⟨_, List.mem_cons_self, rfl, rfl⟩
    · exact ⟨f, List.mem_cons_of_mem _ further, rfl, rfl⟩

theorem exists_of_mem_lowered {low : Nat} {path : List (Frame ν)} {g : Frame ν}
    (member : g ∈ lowered low path) : ∃ f ∈ path, f.node = g.node ∧ f.edges = g.edges := by
  cases path with
  | nil => cases member
  | cons h rest =>
    rcases List.mem_cons.1 member with rfl | further
    · exact ⟨h, List.mem_cons_self, rfl, rfl⟩
    · exact ⟨g, List.mem_cons_of_mem _ further, rfl, rfl⟩

namespace Descent

variable {nodes : List ν} {base : Nat} {s : Search ν}

theorem fresh_nodup (d : Descent nodes base s) (distinct : nodes.Nodup) : s.fresh.Nodup :=
  (List.nodup_append.1 (d.places.nodup_iff.2 distinct)).1

theorem not_mem_fresh (d : Descent nodes base s) (distinct : nodes.Nodup) {entry : ν × Nat}
    (member : entry ∈ s.pending) : entry.1 ∉ s.fresh := by
  intro fresh
  have apart := (List.nodup_append.1 (d.places.nodup_iff.2 distinct)).2.2
  exact apart _ fresh _ (List.mem_append_left _ (List.mem_map_of_mem member)) rfl

theorem number_eq (d : Descent nodes base s) (distinct : nodes.Nodup) {v : ν} {m n : Nat}
    (first : (v, m) ∈ s.pending) (second : (v, n) ∈ s.pending) : m = n := by
  have once := d.pending_nodup distinct
  exact congrArg Prod.snd (List.inj_on_of_nodup_map once first second rfl)

end Descent

variable [DecidableEq ν] {successors : ν → List ν}

/-- All that is pending makes the component of a root. -/
theorem Descent.leave_root {nodes : List ν} {base : Nat} {s : Search ν}
    (d : Descent nodes base s) (distinct : nodes.Nodup) {f : Frame ν} (path_eq : s.path = [f]) :
    s.leave f [] =
      { s with
        path := []
        pending := []
        components := s.pending.map (·.1) :: s.components } := by
  have nested := d.nested
  rw [path_eq] at nested
  obtain ⟨later, before, split_eq, none_before⟩ := nested
  obtain rfl : before = [] := none_before
  have absent : f.node ∉ later.map (·.1) := by
    have once := d.pending_nodup distinct
    rw [split_eq, List.map_append, List.map_cons] at once
    intro member
    exact (List.nodup_append.1 once).2.2 _ member _ List.mem_cons_self rfl
  have cut : (since f.node s.pending).2 = [] := by
    rw [split_eq]
    exact since_snd f.node f.number later [] absent
  have all := since_append f.node s.pending
  rw [cut, List.map_nil, List.append_nil] at all
  rw [Search.leave, if_pos (d.root_closed path_eq), cut, all]
  rfl

theorem run_of_path_nil {s : Search ν} (path_eq : s.path = []) : s.run successors = s := by
  unfold run
  split
  next => rfl
  next other => cases path_eq.symm.trans other
  next other => cases path_eq.symm.trans other

namespace Exploration

variable {earlier : List (List ν)} {root : ν} {nodes : List ν} {base : Nat} {s : Search ν}
variable {f : Frame ν} {w : ν} {edges : List ν} {rest : List (Frame ν)}

omit [DecidableEq ν] in
theorem seen_reframe (e : Exploration successors earlier root s)
    (path_eq : s.path = { f with edges := w :: edges } :: rest) (low : Nat) {entry : ν × Nat}
    (member : entry ∈ s.pending) {x : ν} (edge : x ∈ successors entry.1) (other : x ≠ w) :
    x ∉ s.fresh ∨ ∃ g ∈ { f with low, edges } :: rest, g.node = entry.1 ∧ x ∈ g.edges := by
  refine (e.seen entry member x edge).imp_right ?_
  rintro ⟨g, on_path, same, ahead⟩
  rw [path_eq] at on_path
  rcases List.mem_cons.1 on_path with rfl | further
  · exact ⟨_, List.mem_cons_self, same, (List.mem_cons.1 ahead).resolve_left other⟩
  · exact ⟨g, List.mem_cons_of_mem _ further, same, ahead⟩

omit [DecidableEq ν] in
theorem edges_subset_reframe (e : Exploration successors earlier root s)
    (path_eq : s.path = { f with edges := w :: edges } :: rest) (low : Nat) :
    ∀ g ∈ { f with low, edges } :: rest, g.edges ⊆ successors g.node := by
  have subset := e.edges_subset
  rw [path_eq] at subset
  intro g member
  rcases List.mem_cons.1 member with rfl | further
  · exact List.Subset.trans (List.subset_cons_self w edges) (subset _ List.mem_cons_self)
  · exact subset g (List.mem_cons_of_mem _ further)

omit [DecidableEq ν] in
theorem reframe (e : Exploration successors earlier root s)
    (path_eq : s.path = { f with edges := w :: edges } :: rest) (found : w ∉ s.fresh) {low : Nat}
    (lower : low ≤ f.low) (counted : ∀ g, rest.head? = some g → g.node = w → low ≤ g.number) :
    Exploration successors earlier root { s with path := { f with low, edges } :: rest } where
  components_eq := e.components_eq
  root_pending := e.root_pending
  reached := e.reached
  seen := by
    intro entry member x edge
    by_cases same : x = w
    · exact .inl (same ▸ found)
    · exact e.seen_reframe path_eq low member edge same
  edges_subset := e.edges_subset_reframe path_eq low
  returning := (path_eq ▸ e.returning).reframe lower counted
  number_lt_found := e.number_lt_found

theorem enter (both : ∀ v w, w ∈ successors v → v ∈ successors w)
    (e : Exploration successors earlier root s) (d : Descent nodes base s) (distinct : nodes.Nodup)
    (path_eq : s.path = { f with edges := w :: edges } :: rest) (fresh : w ∈ s.fresh) :
    Exploration successors earlier root
      (Search.enter successors { s with path := { f with edges } :: rest } w) := by
  have nested := d.nested
  rw [path_eq] at nested
  have head_pending : (f.node, f.number) ∈ s.pending :=
    nested.mem_pending (f := { f with edges := w :: edges }) List.mem_cons_self
  have edge : w ∈ successors f.node := by
    refine e.edges_subset { f with edges := w :: edges } ?_ List.mem_cons_self
    rw [path_eq]
    exact List.mem_cons_self
  have erased : w ∉ s.fresh.erase w := (d.fresh_nodup distinct).not_mem_erase
  refine ⟨e.components_eq, List.mem_cons_of_mem _ e.root_pending, ?_, ?_, ?_, ?_, ?_⟩
  · intro entry member
    rcases List.mem_cons.1 member with rfl | before
    · exact (e.reached _ head_pending).tail edge
    · exact e.reached entry before
  · intro entry member x next
    rcases List.mem_cons.1 member with rfl | before
    · exact .inr ⟨_, List.mem_cons_self, rfl, next⟩
    · by_cases same : x = w
      · exact .inl (same ▸ erased)
      · rcases e.seen_reframe path_eq f.low before next same with known | ⟨g, on_path, ahead⟩
        · exact .inl fun still => known (List.mem_of_mem_erase still)
        · exact .inr ⟨g, List.mem_cons_of_mem _ on_path, ahead⟩
  · intro g member
    rcases List.mem_cons.1 member with rfl | before
    · exact List.Subset.refl _
    · exact e.edges_subset_reframe path_eq f.low g before
  · -- the edge back to where the node was found from is still to be followed
    refine ⟨.inl (both _ _ edge), e.number_lt_found _ head_pending, ?_⟩
    refine (path_eq ▸ e.returning).reframe (Nat.le_refl _) ?_
    intro g head same
    have before := nested.mem_pending (List.mem_cons_of_mem _ (List.mem_of_head? head))
    exact absurd (same ▸ fresh) (d.not_mem_fresh distinct before)
  · intro entry member
    rcases List.mem_cons.1 member with rfl | before
    · exact Nat.lt_succ_self _
    · exact Nat.lt_succ_of_lt (e.number_lt_found entry before)

theorem follow (both : ∀ v w, w ∈ successors v → v ∈ successors w)
    (e : Exploration successors earlier root s) (d : Descent nodes base s) (distinct : nodes.Nodup)
    (path_eq : s.path = { f with edges := w :: edges } :: rest) :
    Exploration successors earlier root (s.follow successors f w edges rest) := by
  have nested := d.nested
  rw [path_eq] at nested
  have before_pending (g : Frame ν) (head : rest.head? = some g) :
      (g.node, g.number) ∈ s.pending :=
    nested.mem_pending (List.mem_cons_of_mem _ (List.mem_of_head? head))
  unfold Search.follow
  split
  next fresh => exact e.enter both d distinct path_eq fresh
  next known =>
    split
    next entry number found =>
      refine e.reframe path_eq known (Nat.min_le_left _ _) ?_
      intro g head same
      have entry_eq : entry = g.node := by
        rw [same]
        simpa using List.find?_some found
      have number_eq : number = g.number :=
        d.number_eq distinct (List.mem_of_find?_eq_some found) (entry_eq ▸ before_pending g head)
      exact number_eq ▸ Nat.min_le_right _ _
    next absent =>
      refine e.reframe path_eq known (Nat.le_refl _) ?_
      intro g head same
      have none_there := List.find?_eq_none.1 absent _ (before_pending g head)
      simp [same] at none_there

omit [DecidableEq ν] in
/-- A node that is no root reaches the node before it. -/
theorem low_lt_number (e : Exploration successors earlier root s) {g : Frame ν}
    (path_eq : s.path = { f with edges := [] } :: g :: rest) : f.low < f.number := by
  have returning := e.returning
  rw [path_eq] at returning
  obtain ⟨back, less, -⟩ := returning
  have low_le : f.low ≤ g.number := back.resolve_left List.not_mem_nil
  exact Nat.lt_of_le_of_lt low_le less

theorem leave_eq (e : Exploration successors earlier root s) {g : Frame ν}
    (path_eq : s.path = { f with edges := [] } :: g :: rest) :
    s.leave { f with edges := [] } (g :: rest) =
      { s with path := lowered f.low (g :: rest) } := by
  rw [Search.leave, if_neg (Nat.ne_of_lt (e.low_lt_number path_eq))]

theorem leave (e : Exploration successors earlier root s) {g : Frame ν}
    (path_eq : s.path = { f with edges := [] } :: g :: rest) :
    Exploration successors earlier root (s.leave { f with edges := [] } (g :: rest)) := by
  have returning := e.returning
  rw [path_eq] at returning
  rw [e.leave_eq path_eq]
  refine ⟨e.components_eq, e.root_pending, e.reached, ?_, ?_, returning.2.2.lowered f.low,
    e.number_lt_found⟩
  · intro entry member x edge
    refine (e.seen entry member x edge).imp_right ?_
    rintro ⟨h, on_path, same, ahead⟩
    rw [path_eq] at on_path
    rcases List.mem_cons.1 on_path with rfl | further
    · cases ahead
    · obtain ⟨k, still, node_eq, edges_eq⟩ := exists_mem_lowered further
      exact ⟨k, still, node_eq.trans same, edges_eq ▸ ahead⟩
  · intro k member
    have lowered_member : k ∈ Search.lowered f.low (g :: rest) := member
    obtain ⟨h, further, node_eq, edges_eq⟩ := exists_of_mem_lowered lowered_member
    rw [← node_eq, ← edges_eq]
    exact e.edges_subset h (path_eq ▸ List.mem_cons_of_mem _ further)

/-- A search from a root adds one component: the root leads to all its nodes, and all their edges
lead to nodes that were found. -/
theorem run (both : ∀ v w, w ∈ successors v → v ∈ successors w)
    (e : Exploration successors earlier root s) (d : Descent nodes base s) (distinct : nodes.Nodup)
    (started : s.path ≠ []) :
    ∃ c, (s.run successors).components = c :: earlier ∧ root ∈ c ∧
      (∀ v ∈ c, Leads successors root v) ∧
      ∀ v ∈ c, ∀ w ∈ successors v, w ∉ (s.run successors).fresh := by
  fun_induction Search.run successors s with
  | case1 s path_eq => exact absurd path_eq started
  | case2 s v number low rest path_eq ih =>
    cases rest with
    | nil =>
      rw [d.leave_root distinct path_eq, run_of_path_nil rfl, e.components_eq]
      refine ⟨_, rfl, e.root_pending, ?_, ?_⟩
      · intro w member
        obtain ⟨entry, pending, rfl⟩ := List.mem_map.1 member
        exact e.reached entry pending
      · intro w member x edge
        obtain ⟨entry, pending, rfl⟩ := List.mem_map.1 member
        refine (e.seen entry pending x edge).resolve_right ?_
        rintro ⟨g, on_path, -, ahead⟩
        rw [path_eq, List.mem_singleton] at on_path
        subst on_path
        cases ahead
    | cons g others =>
      refine ih (e.leave (f := ⟨v, number, low, []⟩) path_eq) (d.leave distinct path_eq) ?_
      rw [path_leave]
      exact List.cons_ne_nil _ _
  | case3 s v number low w edges rest path_eq ih =>
    refine ih (e.follow (f := ⟨v, number, low, edges⟩) both d distinct path_eq)
      (d.follow successors (f := ⟨v, number, low, edges⟩) path_eq) ?_
    unfold Search.follow
    split
    next => exact List.cons_ne_nil _ _
    next => split <;> exact List.cons_ne_nil _ _

theorem of_idle (idle : Idle nodes s) :
    Exploration successors s.components root (s.enter successors root) := by
  have pending_eq : (s.enter successors root).pending = [(root, s.found)] := by
    rw [Search.enter, idle.pending]
  have path_eq : (s.enter successors root).path = [⟨root, s.found, s.found, successors root⟩] := by
    rw [Search.enter, idle.path]
  refine ⟨rfl, ?_, ?_, ?_, ?_, ?_, ?_⟩
  · rw [pending_eq]
    exact List.mem_cons_self
  · rw [pending_eq]
    intro entry member
    rw [List.mem_singleton.1 member]
    exact .refl
  · rw [pending_eq, path_eq]
    intro entry member w edge
    rw [List.mem_singleton.1 member] at edge ⊢
    exact .inr ⟨_, List.mem_cons_self, rfl, edge⟩
  · rw [path_eq]
    intro f member
    rw [List.mem_singleton.1 member]
    exact List.Subset.refl _
  · rw [path_eq]
    trivial
  · rw [pending_eq]
    intro entry member
    rw [List.mem_singleton.1 member]
    exact Nat.lt_succ_self _

end Exploration

section Start

variable {nodes : List ν} {s : Search ν}

theorem start_classes (both : ∀ v w, w ∈ successors v → v ∈ successors w)
    (closed : ∀ v ∈ nodes, ∀ w ∈ successors v, w ∈ nodes) (distinct : nodes.Nodup)
    (idle : Idle nodes s) (classes : ∀ c ∈ s.components, IsClass successors c) (root : ν) :
    ∀ c ∈ (s.start successors root).components, IsClass successors c := by
  have after := idle.start successors distinct root
  unfold start at after ⊢
  split
  next fresh =>
    rw [if_pos fresh] at after
    obtain ⟨c, components_eq, root_mem, reached, seen⟩ :=
      (Exploration.of_idle idle).run both (Descent.of_idle successors idle fresh)
        distinct (List.cons_ne_nil _ _)
    have places := after.places
    rw [components_eq, List.flatten_cons] at places
    have node (v : ν) (member : v ∈ c) : v ∈ nodes :=
      places.subset (List.mem_append_right _ (List.mem_append_left _ member))
    have apart := (List.nodup_append.1
      (List.nodup_append.1 (places.nodup_iff.2 distinct)).2.1).2.2
    rw [components_eq]
    intro d member
    rcases List.mem_cons.1 member with rfl | earlier
    · refine ⟨root, fun v => ⟨reached v, fun path => ?_⟩⟩
      induction path with
      | refl => exact root_mem
      | @tail v w _ edge v_mem =>
        have w_node := closed v (node v v_mem) w edge
        rcases List.mem_append.1 (places.symm.subset w_node) with still | found
        · exact absurd still (seen v v_mem w edge)
        · rcases List.mem_append.1 found with here | elsewhere
          · exact here
          · -- an earlier class would hold the node that the edge leads from
            obtain ⟨e, e_mem, w_mem⟩ := List.mem_flatten.1 elsewhere
            obtain ⟨r, leads⟩ := classes e e_mem
            have v_mem' := (leads v).2 (((leads w).1 w_mem).tail (both v w edge))
            exact absurd rfl (apart v v_mem v (List.mem_flatten_of_mem e_mem v_mem'))
    · exact classes d earlier
  next known => exact classes

theorem exists_start_components (both : ∀ v w, w ∈ successors v → v ∈ successors w)
    (distinct : nodes.Nodup) (idle : Idle nodes s) {root : ν} (fresh : root ∈ s.fresh) :
    ∃ c, (s.start successors root).components = c :: s.components ∧ root ∈ c := by
  obtain ⟨c, components_eq, root_mem, -⟩ :=
    (Exploration.of_idle idle).run both (Descent.of_idle successors idle fresh)
      distinct (List.cons_ne_nil _ _)
  exact ⟨c, by rw [start, if_pos fresh]; exact components_eq, root_mem⟩

theorem start_components_suffix (both : ∀ v w, w ∈ successors v → v ∈ successors w)
    (distinct : nodes.Nodup) (idle : Idle nodes s) (root : ν) :
    s.components <:+ (s.start successors root).components := by
  by_cases fresh : root ∈ s.fresh
  · obtain ⟨c, components_eq, -⟩ := exists_start_components both distinct idle fresh
    rw [components_eq]
    exact List.suffix_cons c _
  · simp only [start, if_neg fresh]
    exact List.suffix_refl _

theorem foldl_start_classes (both : ∀ v w, w ∈ successors v → v ∈ successors w)
    (closed : ∀ v ∈ nodes, ∀ w ∈ successors v, w ∈ nodes) (distinct : nodes.Nodup)
    (idle : Idle nodes s) (classes : ∀ c ∈ s.components, IsClass successors c) (roots : List ν) :
    (∀ c ∈ (roots.foldl (start successors) s).components, IsClass successors c) ∧
      s.components <:+ (roots.foldl (start successors) s).components := by
  induction roots generalizing s with
  | nil => exact ⟨classes, List.suffix_refl _⟩
  | cons root rest ih =>
    rw [List.foldl_cons]
    obtain ⟨all, kept⟩ := ih (idle.start successors distinct root)
      (start_classes both closed distinct idle classes root)
    exact ⟨all, (start_components_suffix both distinct idle root).trans kept⟩

end Start

end Search

section Components

variable [DecidableEq ν] {successors : ν → List ν} {nodes : List ν}

/-- Where edges lead both ways and not out of the nodes, each component is a class. -/
theorem isClass_of_mem_components (both : ∀ v w, w ∈ successors v → v ∈ successors w)
    (closed : ∀ v ∈ nodes, ∀ w ∈ successors v, w ∈ nodes) (distinct : nodes.Nodup)
    (roots : List ν) {c : List ν} (member : c ∈ components successors nodes roots) :
    IsClass successors c :=
  (Search.foldl_start_classes both closed distinct (Search.idle_of_nodes nodes) (by simp) roots).1 c
    (List.mem_reverse.1 member)

theorem exists_components_head (both : ∀ v w, w ∈ successors v → v ∈ successors w)
    (closed : ∀ v ∈ nodes, ∀ w ∈ successors v, w ∈ nodes) (distinct : nodes.Nodup) {root : ν}
    (node : root ∈ nodes) (roots : List ν) :
    ∃ c, (components successors nodes (root :: roots)).head? = some c ∧ root ∈ c := by
  have idle := Search.idle_of_nodes nodes
  obtain ⟨c, first, root_mem⟩ := Search.exists_start_components both distinct idle node
  have classes := Search.start_classes both closed distinct idle (by simp) root
  have kept := (Search.foldl_start_classes both closed distinct
    (idle.start successors distinct root) classes roots).2
  obtain ⟨later, all⟩ := kept
  refine ⟨c, ?_, root_mem⟩
  rw [components, List.foldl_cons, ← all, first, List.reverse_append]
  rfl

end Components

end Simultaneous.Graph
