import Simultaneous.Assoc
import Simultaneous.Distinct
import Simultaneous.Expr.Simplify
import Simultaneous.Formula.Tree
import Simultaneous.Text.Quoted

/-!
Expressions from operator trees. A name is a constant, an unknown of the block at hand, or a value
found before, in this order of precedence; an exponent without unknowns becomes a number.
-/

namespace Simultaneous

open Formula

inductive ConversionError where
  /-- an exponent whose value is no number -/
  | exponent (value : Special)
  | unsupported (op : Operator)
  | operandCount (op : Operator) (got : Nat)
  | emptyNegation
  | noOperands
  | unsupportedFunction (name : String)
  | rootOperands (got : Nat)
  | notNumeric (c : Constant)
  | unknownVariable (name : String)
  | arity (name : String) (got : Nat)
deriving Repr, DecidableEq

namespace ConversionError

def specialText : Special → String
  | .undefined => "NaN"
  | .infinite => "inf"
  | .negativeInfinite => "-inf"

def constantText : Constant → String
  | .number _ => "Number"
  | .text s => "String(" ++ Text.quoted s ++ ")"
  | .truth true => "Boolean(true)"
  | .truth false => "Boolean(false)"

def count (n : Nat) : String := String.ofList (Decimal.toDigits n)

def message : ConversionError → String
  | exponent value => "Could not convert exponent in Exp operator: " ++ specialText value
  | unsupported op => "Unsupported operator: " ++ op.name
  | operandCount op got =>
    "Unsupported operator: " ++ op.name ++ " with " ++ count got ++ " operands"
  | emptyNegation => "Unsupported operator: empty negation"
  | noOperands => "Unsupported operator: operator without operands"
  | unsupportedFunction name => "Unsupported function: " ++ name
  | rootOperands got => "Expected single child for root node: " ++ count got ++ " children"
  | notNumeric c => "Expected numeric constant: " ++ constantText c
  | unknownVariable name => "Variable not found: " ++ name
  | arity name got => "Function " ++ name ++ " expects one argument, got " ++ count got

end ConversionError

/-- What names in a text may stand for besides the canonical constants. -/
structure Names (α : Type) where
  /-- the unknowns; their positions in a point are their positions here, the last one for a name
  that is listed again -/
  unknowns : List String
  /-- values found before -/
  bindings : Assoc α

namespace Expr

variable {α : Type} [Scalar α]

def ofName (names : Names α) (name : String) : Except ConversionError (Expr α) :=
  match Scalar.constant? name with
  | some c => .ok (const c)
  | none =>
    match lastPosition? name names.unknowns with
    | some i => .ok (var name i)
    | none =>
      match names.bindings.get? name with
      | some c => .ok (const c)
      | none => .error (.unknownVariable name)

def ofCall (name : String) (argument : Expr α) : Except ConversionError (Expr α) :=
  if name = absName then .ok (abs argument)
  else match Elementary.ofName? name with
    | some f => .ok (call f argument)
    | none => .error (.unsupportedFunction name)

def ofPower (base exponent : Expr α) : Except ConversionError (Expr α) :=
  let exponent := exponent.simplify
  match exponent.constant? with
  | none => .ok (powExpr base exponent)
  | some p =>
    match Scalar.special? p with
    | some value => .error (.exponent value)
    | none =>
      match Scalar.integral? p with
      | some n =>
        if n.natAbs ≤ Nat.pow 2 31 - 1 then .ok (pow base (Int64.ofInt n)) else .ok (powConst base p)
      | none => .ok (powConst base p)

def ofConstant : Constant → Except ConversionError (Expr α)
  | .number n => .ok (const (Scalar.ofNumeral n))
  | c => .error (.notNumeric c)

def argumentCount : List Node → Nat
  | [] => 0
  | operands =>
    match operands.getLast? with
    | some (.mk .tuple items) => items.length
    | _ => operands.length

def joinLeft (join : Expr α → Expr α → Expr α) : List (Expr α) → Except ConversionError (Expr α)
  | [] => .error .noOperands
  | first :: rest => .ok (rest.foldl join first)

def joinTwo (op : Operator) (join : Expr α → Expr α → Except ConversionError (Expr α)) :
    List (Expr α) → Except ConversionError (Expr α)
  | [l, r] => join l r
  | operands => .error (.operandCount op operands.length)

def ofOperator (op : Operator) (operands : List (Expr α)) : Except ConversionError (Expr α) :=
  match op with
  | .add => joinLeft add operands
  | .mul => joinLeft mul operands
  | .div => joinTwo op (fun l r => .ok (div l r)) operands
  | .sub => joinTwo op (fun l r => .ok (sub l r)) operands
  | .exp => joinTwo op ofPower operands
  | .neg =>
    match operands with
    | [] => .error .emptyNegation
    | e :: _ => .ok (neg e)
  | .call name =>
    match operands with
    | [] => .error (.arity name 0)
    | e :: _ => ofCall name e
  | .root =>
    match operands with
    | [e] => .ok e
    | es => .error (.rootOperands es.length)
  | op => .error (.unsupported op)

def shapeFault? (op : Operator) (operands : List Node) : Option ConversionError :=
  match op with
  | .add | .mul => if operands.isEmpty then some .noOperands else none
  | .div | .sub | .exp =>
    if operands.length = 2 then none else some (.operandCount op operands.length)
  | .neg => if operands.isEmpty then some .emptyNegation else none
  | .call name =>
    if argumentCount operands = 1 then none else some (.arity name (argumentCount operands))
  | .root => if operands.length = 1 then none else some (.rootOperands operands.length)
  | op => some (.unsupported op)

mutual

def ofNode (names : Names α) : Node → Except ConversionError (Expr α)
  | .mk (.constant c) _ => ofConstant c
  | .mk (.read name) _ => ofName names name
  | .mk op operands =>
    match shapeFault? op operands with
    | some e => .error e
    | none =>
      match ofNodes names operands with
      | .error e => .error e
      | .ok es => ofOperator op es

/-- The expressions of operands that are listed from the last to the first, in their order. -/
def ofNodes (names : Names α) : List Node → Except ConversionError (List (Expr α))
  | [] => .ok []
  | last :: others =>
    match ofNodes names others with
    | .error e => .error e
    | .ok es =>
      match ofNode names last with
      | .error e => .error e
      | .ok e => .ok (es ++ [e])

end

end Expr

end Simultaneous
