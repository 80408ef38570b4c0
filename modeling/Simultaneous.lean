import Simultaneous.Assoc
import Simultaneous.Block
import Simultaneous.CommandLine
import Simultaneous.Coupled
import Simultaneous.Decimal.Digits
import Simultaneous.Decimal.Exact
import Simultaneous.Decimal.Layout
import Simultaneous.Decimal.Numeral
import Simultaneous.Decimal.Shortest
import Simultaneous.Differential
import Simultaneous.Distinct
import Simultaneous.Elementary
import Simultaneous.Equation
import Simultaneous.Expr.Basic
import Simultaneous.Expr.Code
import Simultaneous.Expr.Derivative
import Simultaneous.Expr.OfFormula
import Simultaneous.Expr.Printer
import Simultaneous.Expr.Simplify
import Simultaneous.Formula.Error
import Simultaneous.Formula.Token
import Simultaneous.Formula.Tree
import Simultaneous.Graph.Component
import Simultaneous.Incidence.Basic
import Simultaneous.Incidence.Decomposition
import Simultaneous.Incidence.Layout
import Simultaneous.Json.Number
import Simultaneous.Json.Reader
import Simultaneous.Json.Value
import Simultaneous.Kernel.Basic
import Simultaneous.Kernel.Dogleg
import Simultaneous.Kernel.LevenbergMarquardt
import Simultaneous.Kernel.Newton
import Simultaneous.Line.Bracket
import Simultaneous.Line.Equation
import Simultaneous.Line.Error
import Simultaneous.Line.Normal
import Simultaneous.Line.Token
import Simultaneous.Linear.Cholesky
import Simultaneous.Linear.Elimination
import Simultaneous.Linear.Grid
import Simultaneous.Linear.PseudoInverse
import Simultaneous.Linear.Solver
import Simultaneous.Main
import Simultaneous.Name
import Simultaneous.Problem
import Simultaneous.Proofs.BentPath
import Simultaneous.Proofs.Block
import Simultaneous.Proofs.Build
import Simultaneous.Proofs.Coupled
import Simultaneous.Proofs.Decimal.Reading
import Simultaneous.Proofs.Decimal.Rounding
import Simultaneous.Proofs.Decrease
import Simultaneous.Proofs.Descent
import Simultaneous.Proofs.Differential
import Simultaneous.Proofs.Direct
import Simultaneous.Proofs.Expr.Affine
import Simultaneous.Proofs.Expr.Bound
import Simultaneous.Proofs.Expr.Code
import Simultaneous.Proofs.Expr.Conversion
import Simultaneous.Proofs.Expr.Depth
import Simultaneous.Proofs.Expr.Derivative
import Simultaneous.Proofs.Expr.Fault
import Simultaneous.Proofs.Expr.Machine
import Simultaneous.Proofs.Expr.Makes
import Simultaneous.Proofs.Expr.Names
import Simultaneous.Proofs.Expr.Occurrences
import Simultaneous.Proofs.Expr.Partial
import Simultaneous.Proofs.Expr.Places
import Simultaneous.Proofs.Expr.Printed
import Simultaneous.Proofs.Expr.Quotient
import Simultaneous.Proofs.Expr.Rational
import Simultaneous.Proofs.Expr.Reach
import Simultaneous.Proofs.Expr.Reading
import Simultaneous.Proofs.Expr.Reread
import Simultaneous.Proofs.Expr.Rewrites
import Simultaneous.Proofs.Expr.Rules
import Simultaneous.Proofs.Expr.Simplify
import Simultaneous.Proofs.Expr.Surface
import Simultaneous.Proofs.Expr.Tree
import Simultaneous.Proofs.Expr.Value
import Simultaneous.Proofs.Expr.Written
import Simultaneous.Proofs.Failure
import Simultaneous.Proofs.Formula.Brackets
import Simultaneous.Proofs.Formula.Cut
import Simultaneous.Proofs.Formula.Flat
import Simultaneous.Proofs.Formula.Grammar
import Simultaneous.Proofs.Formula.Operands
import Simultaneous.Proofs.Formula.Spelled
import Simultaneous.Proofs.Formula.Variables
import Simultaneous.Proofs.Graph.Connected
import Simultaneous.Proofs.Graph.Discovery
import Simultaneous.Proofs.Graph.Search
import Simultaneous.Proofs.Incidence.Choice
import Simultaneous.Proofs.Incidence.Components
import Simultaneous.Proofs.Incidence.Decomposition
import Simultaneous.Proofs.Incidence.Discovery
import Simultaneous.Proofs.Incidence.Layout
import Simultaneous.Proofs.Incidence.Minimal
import Simultaneous.Proofs.Incidence.Noted
import Simultaneous.Proofs.Incidence.Plan
import Simultaneous.Proofs.Incidence.Remaining
import Simultaneous.Proofs.Incidence.Sides
import Simultaneous.Proofs.Incidence.Table
import Simultaneous.Proofs.Kernel
import Simultaneous.Proofs.Line.Accepted
import Simultaneous.Proofs.Line.Adjoined
import Simultaneous.Proofs.Line.Alike
import Simultaneous.Proofs.Line.Contribution
import Simultaneous.Proofs.Line.Degrees
import Simultaneous.Proofs.Line.Joined
import Simultaneous.Proofs.Line.Modes
import Simultaneous.Proofs.Line.Names
import Simultaneous.Proofs.Line.Naming
import Simultaneous.Proofs.Line.Nested
import Simultaneous.Proofs.Line.Pass
import Simultaneous.Proofs.Line.Runs
import Simultaneous.Proofs.Line.Sides
import Simultaneous.Proofs.Line.Spots
import Simultaneous.Proofs.Line.Tokens
import Simultaneous.Proofs.Line.Typed
import Simultaneous.Proofs.Line.Unknowns
import Simultaneous.Proofs.Line.Value
import Simultaneous.Proofs.Line.Words
import Simultaneous.Proofs.Line.Wrapped
import Simultaneous.Proofs.Linear.Answers
import Simultaneous.Proofs.Linear.Magnitude
import Simultaneous.Proofs.Linear.Real
import Simultaneous.Proofs.Name
import Simultaneous.Proofs.Positional
import Simultaneous.Proofs.Prepare
import Simultaneous.Proofs.Property.Substitution
import Simultaneous.Proofs.Report
import Simultaneous.Proofs.Results
import Simultaneous.Proofs.Retry
import Simultaneous.Proofs.Root
import Simultaneous.Proofs.Round
import Simultaneous.Proofs.Scalar.Dual
import Simultaneous.Proofs.Scalar.Exact
import Simultaneous.Proofs.Scalar.Interpretation
import Simultaneous.Proofs.Scalar.Order
import Simultaneous.Proofs.Scalar.Rational
import Simultaneous.Proofs.Scalar.Real
import Simultaneous.Proofs.Script
import Simultaneous.Proofs.Script.Lines
import Simultaneous.Proofs.StepLength
import Simultaneous.Proofs.Termination
import Simultaneous.Proofs.Text.Comment
import Simultaneous.Proofs.Text.Cut
import Simultaneous.Proofs.Trail
import Simultaneous.Proofs.Unknowns
import Simultaneous.Proofs.Unknowns.Ledger
import Simultaneous.Proofs.Unknowns.Registry
import Simultaneous.Proofs.Unknowns.Shown
import Simultaneous.Proofs.ValueText
import Simultaneous.Proofs.Worksheet.Account
import Simultaneous.Proofs.Worksheet.Blocks
import Simultaneous.Proofs.Worksheet.Entry
import Simultaneous.Proofs.Worksheet.Identifiers
import Simultaneous.Proofs.Worksheet.Later
import Simultaneous.Proofs.Worksheet.Nested
import Simultaneous.Proofs.Worksheet.NonFinite
import Simultaneous.Proofs.Worksheet.Reachable
import Simultaneous.Proofs.Worksheet.Residuals
import Simultaneous.Proofs.Worksheet.Singles
import Simultaneous.Proofs.Worksheet.Solve
import Simultaneous.Proofs.Worksheet.Sound
import Simultaneous.Proofs.Worksheet.Spelling
import Simultaneous.Proofs.Worksheet.Spread
import Simultaneous.Proofs.Worksheet.Square
import Simultaneous.Proofs.Worksheet.Stores
import Simultaneous.Proofs.Worksheet.Trace
import Simultaneous.Proofs.Worksheet.Tried
import Simultaneous.Proofs.Worksheet.Uses
import Simultaneous.Property.Call
import Simultaneous.Property.Table
import Simultaneous.Registry
import Simultaneous.Report
import Simultaneous.Report.Text
import Simultaneous.Residual
import Simultaneous.Review
import Simultaneous.Scalar.Basic
import Simultaneous.Scalar.Binary64
import Simultaneous.Script
import Simultaneous.Settings
import Simultaneous.Settings.Json
import Simultaneous.Statement
import Simultaneous.Text.Blank
import Simultaneous.Text.Comment
import Simultaneous.Text.Extending
import Simultaneous.Text.Hidden
import Simultaneous.Text.Quoted
import Simultaneous.Text.Range
import Simultaneous.Text.Unassigned
import Simultaneous.Text.Word
import Simultaneous.Unknowns
import Simultaneous.ValueText
import Simultaneous.Worksheet
