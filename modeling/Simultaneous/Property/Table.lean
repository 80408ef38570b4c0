import Simultaneous.Assoc
import Simultaneous.Json.Reader
import Simultaneous.Text.Word

/-!
Tables of formulas for the properties of substances. Substances and properties are found in any
case.
-/

namespace Simultaneous

open Text

structure PropertyFormula where
  formula : String
  parameters : List String
deriving Repr, DecidableEq

structure PropertyTable where
  substances : Assoc (Assoc PropertyFormula)
deriving Repr

namespace PropertyTable

def empty : PropertyTable := ⟨[]⟩

def insert (t : PropertyTable) (substance property : String) (f : PropertyFormula) :
    PropertyTable :=
  let key := lowerName substance
  let properties := (t.substances.get? key).getD []
  ⟨t.substances.insert key (properties.insert (lowerName property) f)⟩

def hasSubstance (t : PropertyTable) (substance : String) : Bool :=
  t.substances.contains (lowerName substance)

def find? (t : PropertyTable) (substance property : String) : Option PropertyFormula :=
  (t.substances.get? (lowerName substance)).bind fun properties =>
    properties.get? (lowerName property)

def textsOfJson? (j : Json) : Option (List String) :=
  j.items?.bind fun items => items.mapM Json.text?

/-- The value under a key that an object has at most once: the outer result is missing if it has
it more than once. -/
def unique? (members : List (String × Json)) (key : String) : Option (Option Json) :=
  match members.filter (·.1 = key) with
  | [] => some none
  | [(_, value)] => some (some value)
  | _ => none

def formulaOf? (formula : Json) (parameters? : Option Json) : Option PropertyFormula := do
  let formula ← formula.text?
  let parameters ← match parameters? with
    | none => some []
    | some j => textsOfJson? j
  some ⟨formula, parameters⟩

def formulaOfJson? (j : Json) : Option PropertyFormula :=
  match j with
  | .array [formula] => formulaOf? formula none
  | .array [formula, parameters] => formulaOf? formula (some parameters)
  | j => j.members?.bind fun members =>
    match unique? members "formula", unique? members "variables" with
    | some (some formula), some parameters? => formulaOf? formula parameters?
    | _, _ => none

def lastMembers? {β : Type} (read? : Json → Option β) (j : Json) : Option (Assoc β) :=
  j.members?.bind fun members =>
    members.foldlM (fun (t : Assoc β) (key, value) => (read? value).map (t.insert key)) []

def ofJson? (j : Json) : Option PropertyTable :=
  (lastMembers? (lastMembers? formulaOfJson?) j).map fun (substances : Assoc (Assoc _)) =>
    substances.foldl (fun t (substance, properties) =>
      properties.foldl (fun t (property, f) => t.insert substance property f) t) empty

def read? (text : String) : Option PropertyTable := (Json.read? text).bind ofJson?

end PropertyTable

end Simultaneous
