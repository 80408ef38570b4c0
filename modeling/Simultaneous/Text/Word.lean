/-!
Words in text. A word character is an ASCII letter or digit; the run of word characters at the
front or at the end of a text decides what the text starts or ends with.
-/

namespace Simultaneous.Text

def isWordChar (c : Char) : Bool := c.isAlphanum

theorem isWordChar_of_isAlpha {c : Char} (letter : c.isAlpha) : isWordChar c := by
  rw [isWordChar, Char.isAlphanum, letter, Bool.true_or]

theorem isWordChar_of_isLower {c : Char} (letter : c.isLower) : isWordChar c := by
  apply isWordChar_of_isAlpha
  change (c.isUpper || c.isLower) = true
  rw [letter, Bool.or_true]

theorem isWordChar_of_isDigit {c : Char} (digit : c.isDigit) : isWordChar c := by
  rw [isWordChar, Char.isAlphanum, digit, Bool.or_true]

theorem isWordChar_eq_false_iff {c : Char} : isWordChar c = false ↔ ¬c.isDigit ∧ ¬c.isAlpha := by
  rw [isWordChar, Char.isAlphanum, Bool.or_eq_false_iff, and_comm, Bool.eq_false_iff,
    Bool.eq_false_iff]

def takeWord (s : List Char) : List Char × List Char :=
  (s.takeWhile isWordChar, s.dropWhile isWordChar)

def takeDigits (s : List Char) : List Char × List Char :=
  (s.takeWhile Char.isDigit, s.dropWhile Char.isDigit)

theorem takeWord_append (s : List Char) : (takeWord s).1 ++ (takeWord s).2 = s :=
  List.takeWhile_append_dropWhile

theorem takeDigits_append (s : List Char) : (takeDigits s).1 ++ (takeDigits s).2 = s :=
  List.takeWhile_append_dropWhile

theorem length_takeDigits_snd (s : List Char) : (takeDigits s).2.length ≤ s.length :=
  (List.dropWhile_suffix _).length_le

def lower (s : List Char) : List Char := s.map Char.toLower

def lowerName (s : String) : String := String.ofList (lower s.toList)

def dropStart? : (needle : List Char) → List Char → Option (List Char)
  | [], s => some s
  | _ :: _, [] => none
  | n :: ns, c :: cs => if n = c then dropStart? ns cs else none

def dropStartAnyCase? : (needle : List Char) → List Char → Option (List Char)
  | [], s => some s
  | _ :: _, [] => none
  | n :: ns, c :: cs => if n.toLower = c.toLower then dropStartAnyCase? ns cs else none

def cutAtAnyCase? (needle : List Char) : List Char → Option (List Char × List Char)
  | [] => if needle.isEmpty then some ([], []) else none
  | c :: cs =>
    match dropStartAnyCase? needle (c :: cs) with
    | some rest => some ([], rest)
    | none => (cutAtAnyCase? needle cs).map fun (before, after) => (c :: before, after)

def cutWhere? (p : Char → Bool) : List Char → Option (List Char × List Char)
  | [] => none
  | c :: cs =>
    if p c then some ([], cs)
    else (cutWhere? p cs).map fun (before, after) => (c :: before, after)

def cutAt? (mark : Char) : List Char → Option (List Char × List Char) := cutWhere? (· == mark)

def cutAtLast? (mark : Char) : List Char → Option (List Char × List Char)
  | [] => none
  | c :: cs =>
    match cutAtLast? mark cs with
    | some (before, after) => some (c :: before, after)
    | none => if c = mark then some ([], cs) else none

/-- Every occurrence of the two characters `a`, `b` in a row becomes `target`, from the left. -/
def replacePair (a b target : Char) : List Char → List Char
  | x :: y :: rest =>
    if x = a ∧ y = b then target :: replacePair a b target rest
    else x :: replacePair a b target (y :: rest)
  | s => s

end Simultaneous.Text
