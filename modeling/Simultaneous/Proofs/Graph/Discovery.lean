import Simultaneous.Proofs.Graph.Connected

/-!
The order in which nodes are found. Depth-first search is a recursion: from a node that was not
found before, all that its edges lead to is found before the next edge is looked at. A search that
keeps frames on a path is this recursion, and the edges that its frames have still to follow, those
of the last frame first, are what the recursion has still to look at. Where edges lead both ways, the
search from one root makes one component, so components come root by root, each in reverse.
-/

namespace Simultaneous.Graph

variable {ν : Type} [DecidableEq ν]

structure Discovery (fresh : List ν) where
  found : List ν
  left : List ν
  length_left_le : left.length ≤ fresh.length

theorem length_erase_lt {fresh : List ν} {w : ν} (member : w ∈ fresh) :
    (fresh.erase w).length < fresh.length := by
  have shorter := List.length_erase_of_mem member
  have pos := List.length_pos_of_mem member
  omega

/-- The recursive search along some edges, one after the other. An edge to a node found before is
passed. -/
def explore (successors : ν → List ν) : (fresh edges : List ν) → Discovery fresh
  | fresh, [] => ⟨[], fresh, Nat.le_refl _⟩
  | fresh, w :: edges =>
    if member : w ∈ fresh then
      let below := explore successors (fresh.erase w) (successors w)
      let after := explore successors below.left edges
      ⟨w :: (below.found ++ after.found), after.left,
        Nat.le_trans after.length_left_le
          (Nat.le_trans below.length_left_le (Nat.le_of_lt (length_erase_lt member)))⟩
    else explore successors fresh edges
termination_by fresh edges => (fresh.length, edges.length)
decreasing_by
  · exact Prod.Lex.left _ _ (length_erase_lt member)
  · exact Prod.Lex.left _ _ (Nat.lt_of_le_of_lt below.length_left_le (length_erase_lt member))
  · exact Prod.Lex.right _ (Nat.lt_succ_self _)

/-- The recursive searches from some roots in turn, each with its root first. A root that was found
before starts none. -/
def trees (successors : ν → List ν) : (fresh roots : List ν) → List (List ν)
  | _, [] => []
  | fresh, root :: roots =>
    if root ∈ fresh then
      let tree := explore successors (fresh.erase root) (successors root)
      (root :: tree.found) :: trees successors tree.left roots
    else trees successors fresh roots

variable {successors : ν → List ν} {fresh : List ν} {w : ν}

section Explore

theorem explore_nil : explore successors fresh [] = ⟨[], fresh, Nat.le_refl _⟩ := by
  rw [explore]

theorem explore_passed (absent : w ∉ fresh) (edges : List ν) :
    explore successors fresh (w :: edges) = explore successors fresh edges := by
  rw [explore, dif_neg absent]

/-- A node that is found is followed by what its own edges lead to, and then by the others. -/
theorem explore_member (successors : ν → List ν) (member : w ∈ fresh) (edges : List ν) :
    (explore successors fresh (w :: edges)).found =
        w :: ((explore successors (fresh.erase w) (successors w)).found ++
          (explore successors (explore successors (fresh.erase w) (successors w)).left edges).found) ∧
      (explore successors fresh (w :: edges)).left =
        (explore successors (explore successors (fresh.erase w) (successors w)).left edges).left := by
  rw [explore, dif_pos member]
  exact ⟨rfl, rfl⟩

theorem explore_append (successors : ν → List ν) (fresh edges others : List ν) :
    (explore successors fresh (edges ++ others)).found =
        (explore successors fresh edges).found ++
          (explore successors (explore successors fresh edges).left others).found ∧
      (explore successors fresh (edges ++ others)).left =
        (explore successors (explore successors fresh edges).left others).left := by
  induction edges generalizing fresh with
  | nil =>
    rw [explore_nil]
    exact ⟨rfl, rfl⟩
  | cons w edges ih =>
    rw [List.cons_append]
    by_cases member : w ∈ fresh
    · obtain ⟨found, left⟩ := explore_member successors member edges
      obtain ⟨found_all, left_all⟩ := explore_member successors member (edges ++ others)
      obtain ⟨found_rest, left_rest⟩ :=
        ih (explore successors (fresh.erase w) (successors w)).left
      rw [found_all, left_all, found_rest, left_rest, found, left]
      simp only [List.cons_append, List.append_assoc, and_self]
    · rw [explore_passed member, explore_passed member]
      exact ih fresh

/-- The edges of a node that is found go before the ones that are still to be looked at. -/
theorem explore_found (successors : ν → List ν) (member : w ∈ fresh) (edges : List ν) :
    (explore successors fresh (w :: edges)).found =
        w :: (explore successors (fresh.erase w) (successors w ++ edges)).found ∧
      (explore successors fresh (w :: edges)).left =
        (explore successors (fresh.erase w) (successors w ++ edges)).left := by
  obtain ⟨found, left⟩ := explore_append successors (fresh.erase w) (successors w) edges
  rw [found, left]
  exact explore_member successors member edges

end Explore

namespace Search

def ahead (path : List (Frame ν)) : List ν := path.flatMap Frame.edges

omit [DecidableEq ν] in
theorem ahead_lowered (low : Nat) (path : List (Frame ν)) :
    ahead (lowered low path) = ahead path := by
  cases path with
  | nil => rfl
  | cons f rest => rfl

/-- The state of a search still explores to a component and leaves some nodes: what the edges ahead
lead to is found after what is pending. -/
structure ExploresTo (successors : ν → List ν) (s : Search ν) (component left : List ν) : Prop where
  component_eq : (explore successors s.fresh (ahead s.path)).found.reverse ++
    s.pending.map (·.1) = component
  left_eq : (explore successors s.fresh (ahead s.path)).left = left

variable {s : Search ν} {f : Frame ν} {edges component left : List ν} {rest : List (Frame ν)}

theorem ExploresTo.follow (h : ExploresTo successors s component left)
    (path_eq : s.path = { f with edges := w :: edges } :: rest) :
    ExploresTo successors (s.follow successors f w edges rest) component left := by
  obtain ⟨component_eq, left_eq⟩ := h
  rw [path_eq] at component_eq left_eq
  have ahead_eq : ahead ({ f with edges := w :: edges } :: rest) = w :: (edges ++ ahead rest) := rfl
  rw [ahead_eq] at component_eq left_eq
  unfold Search.follow
  split
  next fresh =>
    obtain ⟨found, remaining⟩ := explore_found successors fresh (edges ++ ahead rest)
    constructor
    · rw [← component_eq, found, List.reverse_cons, List.append_assoc]
      rfl
    · rw [← left_eq, remaining]
      rfl
  next known =>
    rw [explore_passed known] at component_eq left_eq
    split
    next entry number pending => exact ⟨component_eq, left_eq⟩
    next absent => exact ⟨component_eq, left_eq⟩

/-- A search with its path makes the component that the recursion from its edges ahead makes. -/
theorem Exploration.run_eq {earlier : List (List ν)} {root : ν} {nodes : List ν} {base : Nat}
    (both : ∀ v w, w ∈ successors v → v ∈ successors w)
    (e : Exploration successors earlier root s) (d : Descent nodes base s) (distinct : nodes.Nodup)
    (started : s.path ≠ []) (h : ExploresTo successors s component left) :
    (s.run successors).components = component :: earlier ∧ (s.run successors).fresh = left := by
  fun_induction Search.run successors s with
  | case1 s path_eq => exact absurd path_eq started
  | case2 s v number low rest path_eq ih =>
    obtain ⟨component_eq, left_eq⟩ := h
    rw [path_eq] at component_eq left_eq
    cases rest with
    | nil =>
      have none_ahead : ahead [⟨v, number, low, []⟩] = [] := rfl
      rw [none_ahead, explore_nil] at component_eq left_eq
      rw [d.leave_root distinct path_eq, run_of_path_nil rfl, ← component_eq, ← left_eq,
        e.components_eq]
      exact ⟨rfl, rfl⟩
    | cons g others =>
      have left_state := e.leave_eq (f := ⟨v, number, low, []⟩) path_eq
      have still : ahead (lowered low (g :: others)) = ahead (⟨v, number, low, []⟩ :: g :: others) :=
        ahead_lowered low (g :: others)
      refine ih (e.leave (f := ⟨v, number, low, []⟩) path_eq) (d.leave distinct path_eq) ?_ ?_
      · rw [path_leave]
        exact List.cons_ne_nil _ _
      · rw [left_state]
        exact ⟨by rw [← component_eq, ← still], by rw [← left_eq, ← still]⟩
  | case3 s v number low w edges rest path_eq ih =>
    refine ih (e.follow (f := ⟨v, number, low, edges⟩) both d distinct path_eq)
      (d.follow successors (f := ⟨v, number, low, edges⟩) path_eq) ?_
      (h.follow (f := ⟨v, number, low, edges⟩) path_eq)
    unfold Search.follow
    split
    next => exact List.cons_ne_nil _ _
    next => split <;> exact List.cons_ne_nil _ _

theorem start_eq {nodes : List ν} (both : ∀ v w, w ∈ successors v → v ∈ successors w)
    (distinct : nodes.Nodup) (idle : Idle nodes s) {root : ν} (fresh : root ∈ s.fresh) :
    let tree := explore successors (s.fresh.erase root) (successors root)
    (s.start successors root).components = (root :: tree.found).reverse :: s.components ∧
      (s.start successors root).fresh = tree.left := by
  intro tree
  have edges_eq : ahead (s.enter successors root).path = successors root := by
    rw [Search.enter, idle.path]
    exact List.append_nil _
  have pending_eq : (s.enter successors root).pending.map (·.1) = [root] := by
    rw [Search.enter, idle.pending]
    rfl
  have explores : ExploresTo successors (s.enter successors root)
      (root :: tree.found).reverse tree.left := by
    constructor
    · rw [edges_eq, pending_eq, List.reverse_cons]
      rfl
    · rw [edges_eq]
      rfl
  rw [start, if_pos fresh]
  exact (Exploration.of_idle idle).run_eq both (Descent.of_idle successors idle fresh) distinct
    (List.cons_ne_nil _ _) explores

theorem foldl_start_eq {nodes : List ν} (both : ∀ v w, w ∈ successors v → v ∈ successors w)
    (distinct : nodes.Nodup) (idle : Idle nodes s) (roots : List ν) :
    (roots.foldl (start successors) s).components =
      ((trees successors s.fresh roots).map List.reverse).reverse ++ s.components := by
  induction roots generalizing s with
  | nil => rfl
  | cons root roots ih =>
    rw [List.foldl_cons, ih (idle.start successors distinct root), trees]
    by_cases fresh : root ∈ s.fresh
    · obtain ⟨components_eq, fresh_eq⟩ := start_eq both distinct idle fresh
      rw [components_eq, fresh_eq, if_pos fresh]
      simp only [List.map_cons, List.reverse_cons, List.append_assoc, List.singleton_append]
    · rw [start, if_neg fresh, if_neg fresh]

end Search

/-- Where edges lead both ways, the components are the trees of the recursive search, each from the
node found last to its root. -/
theorem components_eq_trees {nodes : List ν} (both : ∀ v w, w ∈ successors v → v ∈ successors w)
    (distinct : nodes.Nodup) (roots : List ν) :
    components successors nodes roots = (trees successors nodes roots).map List.reverse := by
  have all := Search.foldl_start_eq both distinct (Search.idle_of_nodes nodes) roots
  rw [components, all, List.append_nil, List.reverse_reverse]

end Simultaneous.Graph
