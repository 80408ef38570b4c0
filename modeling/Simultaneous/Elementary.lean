/-!
The functions and constants that an equation may name, with their two spellings: the one users
write, in lower case, and the canonical one used in residual text.
-/

namespace Simultaneous

inductive AngleMode where
  | radians
  | degrees
deriving Repr, DecidableEq, Inhabited

/-- Functions of one argument. Angles are in radians. -/
inductive Elementary where
  | sin | cos | tan | exp | ln | sqrt | sinh | cosh | tanh | arcsin | arccos | arctan
deriving Repr, DecidableEq

namespace Elementary

def all : List Elementary :=
  [sin, cos, tan, exp, ln, sqrt, sinh, cosh, tanh, arcsin, arccos, arctan]

def name : Elementary → String
  | sin => "Sin"
  | cos => "Cos"
  | tan => "Tan"
  | exp => "Exp"
  | ln => "Log"
  | sqrt => "Sqrt"
  | sinh => "Sinh"
  | cosh => "Cosh"
  | tanh => "Tanh"
  | arcsin => "ArcSin"
  | arccos => "ArcCos"
  | arctan => "ArcTan"

def ofName? (s : String) : Option Elementary := all.find? (·.name = s)

theorem ofName?_name (f : Elementary) : ofName? f.name = some f := by
  cases f <;> decide

end Elementary

/-- The canonical spelling of the absolute value, which is a node of its own in expressions. -/
def absName : String := "Abs"

def functionNames : List (String × String) :=
  [("sin", "Sin"), ("cos", "Cos"), ("tan", "Tan"), ("exp", "Exp"), ("log", "Log"), ("ln", "Log"),
   ("sqrt", "Sqrt"), ("abs", "Abs"), ("sinh", "Sinh"), ("cosh", "Cosh"), ("tanh", "Tanh"),
   ("arcsin", "ArcSin"), ("arccos", "ArcCos"), ("arctan", "ArcTan")]

def canonicalFunction? (word : String) : Option String :=
  (functionNames.find? (·.1 = word)).map (·.2)

def canonicalConstant? (word : String) : Option String :=
  if word = "pi" then some "Pi" else if word = "e" then some "E" else none

def trigonometric : List String := ["sin", "cos", "tan", "arcsin", "arccos", "arctan"]

theorem known_of_mem_functionNames (entry : String × String) (h : entry ∈ functionNames) :
    (Elementary.ofName? entry.2).isSome ∨ entry.2 = absName := by
  revert entry
  decide

end Simultaneous
