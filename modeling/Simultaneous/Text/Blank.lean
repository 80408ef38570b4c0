/-!
White space in text. A blank is a character with the White_Space property; trimming removes
blanks at both ends, and lines end at line feeds.
-/

namespace Simultaneous.Text

/-- The characters with the White_Space property. -/
def isBlank (c : Char) : Bool :=
  let n := c.toNat
  (9 ≤ n && n ≤ 13) || n == 0x20 || n == 0x85 || n == 0xA0 || n == 0x1680 ||
    (0x2000 ≤ n && n ≤ 0x200A) || n == 0x2028 || n == 0x2029 || n == 0x202F ||
    n == 0x205F || n == 0x3000

def trimStart (s : List Char) : List Char := s.dropWhile isBlank

def trimEnd (s : List Char) : List Char := (s.reverse.dropWhile isBlank).reverse

def trim (s : List Char) : List Char := trimEnd (trimStart s)

def pieces (cut : Char → Bool) : List Char → List (List Char)
  | [] => [[]]
  | c :: rest =>
    if cut c then [] :: pieces cut rest
    else match pieces cut rest with
      | [] => [[c]]
      | first :: others => (c :: first) :: others

theorem pieces_ne_nil (cut : Char → Bool) (s : List Char) : pieces cut s ≠ [] := by
  cases s with
  | nil => simp [pieces]
  | cons c rest =>
    simp only [pieces]
    split
    · simp
    · split <;> simp

section Pieces

variable {cut : Char → Bool} {c : Char} {s : List Char}

theorem exists_first_piece (cut : Char → Bool) (s : List Char) :
    ∃ first others, pieces cut s = first :: others :=
  List.exists_cons_of_ne_nil (pieces_ne_nil cut s)

theorem pieces_cut (cuts : cut c = true) (s : List Char) :
    pieces cut (c :: s) = [] :: pieces cut s := by
  rw [pieces, if_pos cuts]

theorem pieces_keep (keeps : cut c = false) {first : List Char} {others : List (List Char)}
    (parts : pieces cut s = first :: others) : pieces cut (c :: s) = (c :: first) :: others := by
  rw [pieces, if_neg (Bool.eq_false_iff.1 keeps), parts]

theorem pieces_append_of_keep {w : List Char} (keeps : ∀ c ∈ w, cut c = false)
    {first : List Char} {others : List (List Char)} (parts : pieces cut s = first :: others) :
    pieces cut (w ++ s) = (w ++ first) :: others := by
  induction w with
  | nil => exact parts
  | cons c w ih =>
    exact pieces_keep (keeps c List.mem_cons_self)
      (ih fun d member => keeps d (List.mem_cons_of_mem c member))

end Pieces

def dropReturn (s : List Char) : List Char :=
  if s.getLast? = some '\r' then s.dropLast else s

/-- The lines among the pieces between line feeds: a feed takes a carriage return before it
along, and a last piece counts as a line only if it is not empty. -/
def linesOfPieces : List (List Char) → List (List Char)
  | [] => []
  | [last] => if last.isEmpty then [] else [last]
  | piece :: next :: rest => dropReturn piece :: linesOfPieces (next :: rest)

def lines (s : List Char) : List (List Char) :=
  linesOfPieces (pieces (· == '\n') s)

end Simultaneous.Text
