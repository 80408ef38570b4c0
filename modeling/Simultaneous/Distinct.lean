/-!
The distinct members of a list in the order in which they first occur, or last occur, and the place
where one last occurs. Main statements: the members stay the same, none is listed twice, and a list
without repetitions is left alone.
-/

namespace Simultaneous

variable {α : Type} [DecidableEq α]

def firstOccurrences (xs : List α) : List α :=
  xs.foldl (fun seen x => if x ∈ seen then seen else seen ++ [x]) []

theorem mem_foldl_occurrences (xs seen : List α) (x : α) :
    x ∈ xs.foldl (fun seen x => if x ∈ seen then seen else seen ++ [x]) seen ↔
      x ∈ seen ∨ x ∈ xs := by
  induction xs generalizing seen with
  | nil => simp
  | cons y ys ih =>
    rw [List.foldl_cons, ih]
    by_cases h : y ∈ seen
    · rw [if_pos h, List.mem_cons]
      constructor
      · exact fun member => member.elim .inl fun later => .inr (.inr later)
      · rintro (earlier | rfl | later)
        · exact .inl earlier
        · exact .inl h
        · exact .inr later
    · simp [if_neg h, or_assoc]

theorem mem_firstOccurrences (xs : List α) (x : α) : x ∈ firstOccurrences xs ↔ x ∈ xs := by
  simp [firstOccurrences, mem_foldl_occurrences]

theorem nodup_foldl_occurrences (xs seen : List α) (h : seen.Nodup) :
    (xs.foldl (fun seen x => if x ∈ seen then seen else seen ++ [x]) seen).Nodup := by
  induction xs generalizing seen with
  | nil => exact h
  | cons y ys ih =>
    rw [List.foldl_cons]
    apply ih
    by_cases member : y ∈ seen
    · rwa [if_pos member]
    · rw [if_neg member]
      refine List.nodup_append.2 ⟨h, by simp, ?_⟩
      intro a ha b hb same
      rw [List.mem_singleton] at hb
      exact member (hb ▸ same ▸ ha)

theorem nodup_firstOccurrences (xs : List α) : (firstOccurrences xs).Nodup :=
  nodup_foldl_occurrences xs [] List.nodup_nil

theorem foldl_occurrences_eq (xs seen : List α) :
    xs.foldl (fun seen x => if x ∈ seen then seen else seen ++ [x]) seen =
      seen ++ (firstOccurrences xs).filter (· ∉ seen) := by
  induction xs generalizing seen with
  | nil => simp [firstOccurrences]
  | cons y ys ih =>
    have own : firstOccurrences (y :: ys) = y :: (firstOccurrences ys).filter (· ∉ [y]) := ih [y]
    rw [List.foldl_cons, ih, own]
    by_cases member : y ∈ seen
    · have later (x : α) : x ∉ seen ↔ x ∉ seen ∧ x ∉ [y] := by
        refine ⟨fun absent => ⟨absent, ?_⟩, And.left⟩
        rw [List.mem_singleton]
        rintro rfl
        exact absent member
      rw [if_pos member, List.filter_cons_of_neg (by simpa using member), List.filter_filter]
      simp only [← Bool.decide_and, ← later]
    · rw [if_neg member, List.filter_cons_of_pos (by simpa using member), List.filter_filter]
      simp [List.mem_append, Bool.decide_and, not_or]

theorem firstOccurrences_append (xs ys : List α) : firstOccurrences (xs ++ ys) =
    firstOccurrences xs ++ (firstOccurrences ys).filter (· ∉ xs) := by
  rw [firstOccurrences, List.foldl_append, foldl_occurrences_eq]
  simp only [← firstOccurrences.eq_def, mem_firstOccurrences]

def lastOccurrences : List α → List α
  | [] => []
  | x :: xs => if x ∈ xs then lastOccurrences xs else x :: lastOccurrences xs

def lastPosition? (x : α) : List α → Option Nat
  | [] => none
  | y :: ys =>
    match lastPosition? x ys with
    | some i => some (i + 1)
    | none => if y = x then some 0 else none

theorem lastOccurrences_of_nodup (xs : List α) (h : xs.Nodup) : lastOccurrences xs = xs := by
  induction xs with
  | nil => rfl
  | cons y ys ih =>
    rw [List.nodup_cons] at h
    rw [lastOccurrences, if_neg h.1, ih h.2]

theorem lastPosition?_isSome (x : α) (xs : List α) : (lastPosition? x xs).isSome ↔ x ∈ xs := by
  induction xs with
  | nil => simp [lastPosition?]
  | cons y ys ih =>
    unfold lastPosition?
    split
    · rename_i i found
      rw [found] at ih
      simp [ih.1 rfl]
    · rename_i none
      rw [none] at ih
      have absent : x ∉ ys := fun member => by simpa using ih.2 member
      by_cases same : y = x
      · simp [same]
      · rw [if_neg same]
        simp [absent, Ne.symm same]

theorem getElem?_lastPosition (x : α) (xs : List α) (i : Nat) (h : lastPosition? x xs = some i) :
    xs[i]? = some x := by
  induction xs generalizing i with
  | nil => simp [lastPosition?] at h
  | cons y ys ih =>
    unfold lastPosition? at h
    split at h
    · rename_i j found
      rw [Option.some.injEq] at h
      rw [← h, List.getElem?_cons_succ]
      exact ih j found
    · by_cases same : y = x
      · rw [if_pos same, Option.some.injEq] at h
        rw [← h, same, List.getElem?_cons_zero]
      · rw [if_neg same] at h
        exact absurd h (by simp)

end Simultaneous
