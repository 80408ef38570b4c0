/-!
Comments between `/*` and `*/`. Comments do not nest; the two characters of an opener are not part
of a closer. Main statement: what follows a closer is shorter than the text before it was cut.
-/

namespace Simultaneous.Text.Comment

def cutAtCloser? : List Char → Option (List Char × List Char)
  | [] => none
  | [_] => none
  | c :: d :: rest =>
    if c = '*' ∧ d = '/' then some ([], rest)
    else (cutAtCloser? (d :: rest)).map fun (body, after) => (c :: body, after)

theorem length_of_cutAtCloser? {s body after : List Char} (h : cutAtCloser? s = some (body, after)) :
    body.length + after.length + 2 = s.length := by
  fun_induction cutAtCloser? s generalizing body after with
  | case1 => simp at h
  | case2 => simp at h
  | case3 c d rest _ =>
    obtain ⟨rfl, rfl⟩ := by simpa using h
    simp
  | case4 c d rest _ ih =>
    obtain ⟨⟨body', after'⟩, found, same⟩ := Option.map_eq_some_iff.1 h
    obtain ⟨rfl, rfl⟩ := by simpa using same
    have := ih found
    simp only [List.length_cons] at this ⊢
    omega

def feeds (s : List Char) : List Char := s.filter (· = '\n')

/-- Removes all comments but the line feeds in them. The text starts on a given line; the error is
the line of an opener that has no closer. -/
def strip (line : Nat) : List Char → Except Nat (List Char)
  | [] => .ok []
  | [c] => .ok [c]
  | c :: d :: rest =>
    if c = '/' ∧ d = '*' then
      match _ : cutAtCloser? rest with
      | none => .error line
      | some (body, after) =>
        (strip (line + (feeds body).length) after).map (feeds body ++ ·)
    else (strip (if c = '\n' then line + 1 else line) (d :: rest)).map (c :: ·)
termination_by s => s.length
decreasing_by
  · rename_i found
    have := length_of_cutAtCloser? found
    simp only [List.length_cons]
    omega
  · simp

def stripped (text : String) : Except Nat String := (strip 1 text.toList).map String.ofList

end Simultaneous.Text.Comment
