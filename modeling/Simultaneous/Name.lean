import Simultaneous.Elementary
import Simultaneous.Text.Blank
import Simultaneous.Text.Word

/-!
Names of unknowns. A name is kept in lower case with every underscore written as `Gg`, so that it
is a plain word of letters and digits; shown to a user, `Gg` becomes an underscore again.
-/

namespace Simultaneous.Name

open Text

def internalChars : List Char → List Char
  | [] => []
  | ['_'] => ['G', 'g']
  | [c] => [c.toLower]
  | c :: d :: rest =>
    if c = '_' then 'G' :: 'g' :: internalChars (d :: rest)
    else if c = 'G' ∧ d = 'g' then 'G' :: 'g' :: internalChars rest
    else c.toLower :: internalChars (d :: rest)

/-- The name under which a spelling is kept: lower case, `_` written as `Gg`. A pair `Gg` that is
there already stays. -/
def internal (spelling : String) : String := String.ofList (internalChars spelling.toList)

def isNameChar (c : Char) : Bool := isWordChar c || c == '_'

def isIdentifierChars (s : List Char) : Bool :=
  s.head?.any Char.isAlpha && s.all isNameChar && (dropStart? ['G', 'g'] s).isNone

def isIdentifier (name : String) : Bool := isIdentifierChars name.toList

def isReserved (word : String) : Bool :=
  let w := lowerName word
  (canonicalFunction? w).isSome || (canonicalConstant? w).isSome

def runs (s : List Char) : List (List Char) := pieces (fun c => !isNameChar c) s

def identifiersIn (text : String) : List String :=
  ((runs text.toList).map String.ofList).filter fun w => isIdentifier w && !isReserved w

def spelled (name : String) : String := String.ofList (replacePair 'G' 'g' '_' name.toList)

end Simultaneous.Name
