import Simultaneous.Decimal.Exact
import Simultaneous.Json.Reader
import Simultaneous.Scalar.Binary64
import Simultaneous.Settings

/-!
Settings from JSON text. An object gives the settings it changes by name, an array gives the first
ones in their order; all others keep their standard values.
-/

namespace Simultaneous.Settings

open Decimal

/-- A choice by its name: as a string, or as an object with that one key and no value. -/
def choice? (j : Json) : Option String :=
  match j with
  | .string s => s
  | .object [(key?, .null)] => key?
  | _ => none

def method? (j : Json) : Option Method :=
  (choice? j).bind fun name => Method.all.find? (·.name = name)

def angleMode? (j : Json) : Option AngleMode :=
  (choice? j).bind fun name =>
    if name = "Radians" then some .radians else if name = "Degrees" then some .degrees else none

def fields : List (String × (Settings Float → Json → Option (Settings Float))) :=
  [("single_variable_method", fun s j => (method? j).map fun m => { s with singleMethod := m }),
   ("multi_variable_method", fun s j => (method? j).map fun m => { s with multiMethod := m }),
   ("default_initial_value", fun s j => j.real?.map fun x => { s with defaultInitial := x }),
   ("max_iterations", fun s j => j.natural?.map fun n => { s with maxIterations := n }),
   ("trust_region_radius", fun s j => j.real?.map fun x => { s with trustRadius := x }),
   ("gradient_precision", fun s j => j.real?.map fun x => { s with gradientPrecision := x }),
   ("max_jump", fun s j => j.real?.map fun x => { s with maxJump := x }),
   ("precision", fun s j => j.real?.map fun x => { s with precision := x }),
   ("timeout", fun s j => j.real?.map fun x => { s with timeout := x }),
   ("poll_interval_ms", fun s j => j.natural?.map fun n => { s with pollMilliseconds := n }),
   ("angle_mode", fun s j => (angleMode? j).map fun m => { s with angleMode := m }),
   ("max_start_candidates", fun s j => j.natural?.map fun n => { s with startCandidates := n })]

/-- Applies members of an object; a setting may be given once, other names are ignored. -/
def applyMembers (s : Settings Float) (seen : List String) :
    List (String × Json) → Option (Settings Float)
  | [] => some s
  | (key, value) :: rest =>
    match fields.find? (·.1 = key) with
    | none => applyMembers s seen rest
    | some (_, change) =>
      if key ∈ seen then none
      else (change s value).bind fun s => applyMembers s (key :: seen) rest

/-- Applies values to settings in their order; there may be fewer values than settings. -/
def applyItems (s : Settings Float) :
    List (Settings Float → Json → Option (Settings Float)) → List Json → Option (Settings Float)
  | _, [] => some s
  | [], _ :: _ => none
  | change :: changes, value :: rest => (change s value).bind fun s => applyItems s changes rest

def ofJson? (j : Json) : Option (Settings Float) :=
  match j with
  | .array items => applyItems standard (fields.map (·.2)) items
  | j => j.members?.bind (applyMembers standard [])

def read? (text : String) : Option (Settings Float) := (Json.read? text).bind ofJson?

/-- A number of seconds to the nearest nanosecond with ties to even; none if it is no limit, because
it is negative or beyond 64 bits of seconds. -/
def nanoseconds? (seconds : Float) : Option Nat :=
  match Value.ofFloat seconds with
  | .finite b =>
    if b.negative && b.mantissa != 0 then none
    else
      let nanoseconds := b.exact.round 9
      if nanoseconds / Nat.pow 10 9 < Nat.pow 2 64 then some nanoseconds else none
  | _ => none

def timeLimit? (s : Settings Float) : Option (Nat × Nat) :=
  (nanoseconds? s.timeout).map fun n => (n / Nat.pow 10 9, n % Nat.pow 10 9)

end Simultaneous.Settings
