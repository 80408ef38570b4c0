/-!
What can be wrong with residual text as a row of operators and operands.
-/

namespace Simultaneous

inductive FormulaError where
  | appendedToLeaf
  | precedenceViolation
  | unmatchedOpener
  | unmatchedCloser
  | unmatchedQuote
  | missingOperator
  /-- a character that only means something together with the next piece of text -/
  | unmatchedPiece (first : String) (second : Option String)
  | illegalEscape (text : String)
  | unmatchedComment
deriving Repr, DecidableEq

namespace FormulaError

def message : FormulaError → String
  | appendedToLeaf => "Tried to append a node to a leaf node."
  | precedenceViolation => "Tried to append a node to another node with higher precedence."
  | unmatchedOpener => "Found an unmatched opening parenthesis '('."
  | unmatchedCloser => "Found an unmatched closing parenthesis ')'."
  | unmatchedQuote => "Found an unmatched double quote '\"'"
  | missingOperator =>
    "Found an opening parenthesis that is preceded by something that does not take any " ++
    "arguments on the right, or found a closing parenthesis that is succeeded by something " ++
    "that does not take any arguments on the left."
  | unmatchedPiece first (some second) =>
    "Found a partial token '" ++ first ++ "' that should not be followed by '" ++ second ++ "'."
  | unmatchedPiece first none =>
    "Found a partial token '" ++ first ++ "' that should be followed by another partial token."
  | illegalEscape text => "Illegal escape sequence: " ++ text
  | unmatchedComment => "Error: unmatched inline comment"

end FormulaError

end Simultaneous
