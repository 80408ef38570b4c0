import Simultaneous.Differential
import Simultaneous.Line.Equation

/-!
What a line of a worksheet states.
-/

namespace Simultaneous

inductive Statement where
  | blank
  | differential (d : Differential)
  | equation (e : LineEquation)
deriving Repr, DecidableEq

namespace Statement

def ofLine (mode : AngleMode) (line : String) : Except LineError Statement :=
  match Differential.ofLine? line with
  | some d => .ok (.differential d)
  | none =>
    match LineEquation.ofLine mode line with
    | .error e => .error e
    | .ok none => .ok .blank
    | .ok (some e) => .ok (.equation e)

end Statement

end Simultaneous
