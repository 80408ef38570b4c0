import Simultaneous.Report
import Simultaneous.ValueText

/-!
Reports as text for a terminal.
-/

namespace Simultaneous

inductive Highlight where
  | error
  | warning
  | heading
deriving Repr, DecidableEq

namespace Highlight

def code : Highlight → String
  | error => "1;31"
  | warning => "1;33"
  | heading => "1;36"

def paint (h : Highlight) (color : Bool) (text : String) : String :=
  if color then "\x1b[" ++ h.code ++ "m" ++ text ++ "\x1b[0m" else text

end Highlight

namespace Report

variable (color : Bool)

def errorMark : String := Highlight.error.paint color "error:"

def warningMark : String := Highlight.warning.paint color "warning:"

def commaList (items : List String) : String := ", ".intercalate items

def refusalLine (r : Refusal) : String :=
  errorMark color ++ " Line " ++ Nat.repr r.line ++ ": " ++ r.cause.message

def blockText (w : Worksheet Float) (b : Worksheet.SolvedBlock Float) : String :=
  let lines := (b.equations.filterMap fun id => (w.equations[id]?).map (·.line)).mergeSort
  (if b.equations.length > 1 then "Lines " else "Line ") ++ commaList (lines.map Nat.repr) ++
    ": block [" ++ commaList (b.result.unknowns.map w.unknowns.shown) ++ "]"

def blockLine? (w : Worksheet Float) (b : Worksheet.SolvedBlock Float) : Option String :=
  match b.result.outcome with
  | .converged _ => none
  | .notConverged norm =>
    some (warningMark color ++ " " ++ blockText w b ++ " did not converge (residual norm " ++
      valueText norm ++ ")")
  | .timedOut => some (errorMark color ++ " " ++ blockText w b ++ " timed out")
  | .failed e => some (errorMark color ++ " " ++ blockText w b ++ " failed: " ++ e.message)

def headed (heading : String) (lines : List String) : List String :=
  if lines.isEmpty then []
  else Highlight.heading.paint color heading :: lines.map ("    " ++ ·)

def padded (width : Nat) (text : String) : String :=
  text ++ String.ofList (List.replicate (width - text.length) ' ')

def resultLines (results : List (String × Float)) : List String :=
  let width := (results.map (·.1.utf8ByteSize)).foldl max 0
  results.map fun (name, x) => padded width name ++ " = " ++ valueText x

def findingLine? (e : EquationEntry) : Finding Float → Option String
  | .high x =>
    some (warningMark color ++ " line " ++ Nat.repr e.line ++ ": high residual " ++ valueText x)
  | .nonFinite x =>
    some (errorMark color ++ " line " ++ Nat.repr e.line ++ ": non-finite residual " ++ valueText x)
  | .fine _ | .unevaluated => none

def unsolvedLines (names : List String) : List String :=
  if names.isEmpty then []
  else [Highlight.warning.paint color "Unsolved:" ++ " " ++ commaList names]

def textLines (r : Report Float) : List String :=
  r.refusals.map (refusalLine color) ++
    r.tried.filterMap (blockLine? color r.worksheet) ++
    headed color "Results" (resultLines r.results) ++
    headed color "ODE problems" r.differentials ++
    headed color "Residuals"
      ((r.worksheet.equations.zip r.findings).filterMap fun (e, f) => findingLine? color e f) ++
    unsolvedLines color r.unsolved

def text (r : Report Float) : String := String.join ((r.textLines color).map (· ++ "\n"))

end Report

end Simultaneous
