/-!
Strongly connected components of a directed graph, by one depth-first search with low links. The
nodes on the path of the search keep the edges that are still to be followed; a node whose low link
is its own number is the first one found of its component, and the component is all that was found
since.
-/

namespace Simultaneous.Graph

structure Frame (ν : Type) where
  node : ν
  /-- how many nodes were found before it -/
  number : Nat
  /-- the least number found to be in reach so far, among nodes without a component -/
  low : Nat
  /-- successors still to be looked at -/
  edges : List ν
deriving Repr

structure Search (ν : Type) where
  /-- nodes not found yet -/
  fresh : List ν
  /-- how many nodes were found -/
  found : Nat
  /-- nodes found that have no component yet with their numbers, the last one found first -/
  pending : List (ν × Nat)
  /-- the path to the node where the search is, which stands first -/
  path : List (Frame ν)
  /-- complete components, the last one first -/
  components : List (List ν)
deriving Repr

namespace Search

variable {ν : Type} [DecidableEq ν] (successors : ν → List ν)

def enter (s : Search ν) (v : ν) : Search ν :=
  { s with
    fresh := s.fresh.erase v
    found := s.found + 1
    pending := (v, s.found) :: s.pending
    path := ⟨v, s.found, s.found, successors v⟩ :: s.path }

/-- The nodes found since a node was, that node included, and the ones found before it. -/
def since (v : ν) : List (ν × Nat) → List ν × List (ν × Nat)
  | [] => ([], [])
  | entry :: rest =>
    if entry.1 = v then ([v], rest)
    else (entry.1 :: (since v rest).1, (since v rest).2)

/-- A path whose first node reaches a number besides what it reached before. -/
def lowered (low : Nat) : List (Frame ν) → List (Frame ν)
  | [] => []
  | f :: rest => { f with low := min f.low low } :: rest

/-- Leaves the first node of the path, all of whose edges were followed; what it reaches counts for
the node before it. -/
def leave (s : Search ν) (f : Frame ν) (rest : List (Frame ν)) : Search ν :=
  if f.low = f.number then
    { s with
      path := lowered f.low rest
      pending := (since f.node s.pending).2
      components := (since f.node s.pending).1 :: s.components }
  else { s with path := lowered f.low rest }

def follow (s : Search ν) (f : Frame ν) (w : ν) (edges : List ν) (rest : List (Frame ν)) :
    Search ν :=
  if w ∈ s.fresh then enter successors { s with path := { f with edges } :: rest } w
  else match s.pending.find? (·.1 = w) with
    | some (_, k) => { s with path := { f with low := min f.low k, edges } :: rest }
    | none => { s with path := { f with edges } :: rest }

/-- The edges still to be followed along a path, and one for each node that is still to be left. -/
def work (path : List (Frame ν)) : Nat := path.foldr (fun f n => f.edges.length + 1 + n) 0

omit [DecidableEq ν] in
theorem work_cons (f : Frame ν) (rest : List (Frame ν)) :
    work (f :: rest) = f.edges.length + 1 + work rest := by
  simp [work]

omit [DecidableEq ν] in
theorem work_lowered (low : Nat) (path : List (Frame ν)) : work (lowered low path) = work path := by
  cases path <;> simp [lowered, work]

theorem fresh_leave (s : Search ν) (f : Frame ν) (rest : List (Frame ν)) :
    (s.leave f rest).fresh = s.fresh := by
  unfold leave
  split <;> rfl

theorem path_leave (s : Search ν) (f : Frame ν) (rest : List (Frame ν)) :
    (s.leave f rest).path = lowered f.low rest := by
  unfold leave
  split <;> rfl

theorem follow_decreases (s : Search ν) (f : Frame ν) (w : ν) (edges : List ν)
    (rest : List (Frame ν)) :
    (s.follow successors f w edges rest).fresh.length < s.fresh.length ∨
      (s.follow successors f w edges rest).fresh = s.fresh ∧
        work (s.follow successors f w edges rest).path = edges.length + 1 + work rest := by
  unfold follow
  split
  next fresh =>
    left
    have := List.length_erase_of_mem fresh
    have := List.length_pos_of_mem fresh
    simp only [enter]
    omega
  next =>
    right
    split <;> exact ⟨rfl, work_cons _ _⟩

def run (s : Search ν) : Search ν :=
  match _ : s.path with
  | [] => s
  | ⟨v, number, low, []⟩ :: rest => run (s.leave ⟨v, number, low, []⟩ rest)
  | ⟨v, number, low, w :: edges⟩ :: rest =>
    run (s.follow successors ⟨v, number, low, edges⟩ w edges rest)
termination_by (s.fresh.length, work s.path)
decreasing_by
  · rename_i path_eq
    rw [fresh_leave, path_leave, work_lowered, path_eq, work_cons]
    exact Prod.Lex.right _ (by omega)
  · rename_i path_eq
    rw [path_eq, work_cons, List.length_cons]
    rcases follow_decreases successors s ⟨v, number, low, edges⟩ w edges rest with less | ⟨same, eq⟩
    · exact Prod.Lex.left _ _ less
    · rw [same, eq]
      exact Prod.Lex.right _ (by omega)

def start (s : Search ν) (root : ν) : Search ν :=
  if root ∈ s.fresh then run successors (s.enter successors root) else s

end Search

/-- The strongly connected components in the order in which they are completed, each with the last
node found first. The search starts from the roots in their order. -/
def components {ν : Type} [DecidableEq ν] (successors : ν → List ν) (nodes roots : List ν) :
    List (List ν) :=
  (roots.foldl (Search.start successors) ⟨nodes, 0, [], [], []⟩).components.reverse

end Simultaneous.Graph
