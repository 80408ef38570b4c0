import Simultaneous.Formula.Token

/-!
Operator trees of residual text. Tokens are taken from the left, and each new node is put as deep
along the last operands as its precedence allows; an operator that lacks an operand stays as it is.
Operators of equal precedence group to the left, plain assignments and calls to the right.
-/

namespace Simultaneous.Formula

open Decimal

inductive Constant where
  | number (n : Numeral)
  | text (s : String)
  | truth (b : Bool)
deriving Repr, DecidableEq

inductive Operator where
  /-- the whole text, or what stands in a pair of brackets -/
  | root
  | add | sub | neg | mul | div | mod | exp
  | eq | neq | gt | lt | geq | leq | and | or | not
  | assign | addAssign | subAssign | mulAssign | divAssign | modAssign | expAssign
  | andAssign | orAssign
  | tuple
  | chain
  | constant (c : Constant)
  | read (name : String)
  | write (name : String)
  | call (name : String)
deriving Repr, DecidableEq

namespace Operator

def precedence : Operator → Nat
  | root | constant _ | read _ | write _ => 200
  | call _ => 190
  | exp => 120
  | neg | not => 110
  | mul | div | mod => 100
  | add | sub => 95
  | eq | neq | gt | lt | geq | leq => 80
  | and => 75
  | or => 70
  | assign | addAssign | subAssign | mulAssign | divAssign | modAssign | expAssign
  | andAssign | orAssign => 50
  | tuple => 40
  | chain => 0

def arity? : Operator → Option Nat
  | tuple | chain => none
  | constant _ | read _ | write _ => some 0
  | root | neg | not | call _ => some 1
  | _ => some 2

def isLeaf (o : Operator) : Bool := o.arity? == some 0

def isUnary (o : Operator) : Bool := o.arity? == some 1 && o != root

def isSequence (o : Operator) : Bool := o.arity? == none

def groupsRight : Operator → Bool
  | assign | call _ => true
  | _ => false

def name : Operator → String
  | root => "RootNode"
  | add => "Add"
  | sub => "Sub"
  | neg => "Neg"
  | mul => "Mul"
  | div => "Div"
  | mod => "Mod"
  | exp => "Exp"
  | eq => "Eq"
  | neq => "Neq"
  | gt => "Gt"
  | lt => "Lt"
  | geq => "Geq"
  | leq => "Leq"
  | and => "And"
  | or => "Or"
  | not => "Not"
  | assign => "Assign"
  | addAssign => "AddAssign"
  | subAssign => "SubAssign"
  | mulAssign => "MulAssign"
  | divAssign => "DivAssign"
  | modAssign => "ModAssign"
  | expAssign => "ExpAssign"
  | andAssign => "AndAssign"
  | orAssign => "OrAssign"
  | tuple => "Tuple"
  | chain => "Chain"
  | constant _ => "Const"
  | read _ => "VariableIdentifierRead"
  | write _ => "VariableIdentifierWrite"
  | call _ => "FunctionIdentifier"

end Operator

/-- An operator with its operands, the last operand first. -/
inductive Node where
  | mk (op : Operator) (operands : List Node)
deriving Repr

namespace Node

def op : Node → Operator
  | mk op _ => op

def operands : Node → List Node
  | mk _ operands => operands

def leaf (op : Operator) : Node := mk op []

def snoc (n last : Node) : Node := mk n.op (last :: n.operands)

def precedence (n : Node) : Nat := n.op.precedence

def isRoot (n : Node) : Bool := n.op == .root

def hasTooMany (n : Node) : Bool := n.op.arity?.any (· < n.operands.length)

def groupRight (a b : Operator) : Bool :=
  a.precedence == b.precedence && a.groupsRight && b.groupsRight

/-- Puts a new node above the last operand of a node that has all its operands. -/
def displace (op : Operator) (last : Node) (others : List Node) (node : Node) :
    Except FormulaError Node :=
  if node.op.isLeaf then .error .appendedToLeaf
  else if op == .root && !others.isEmpty then .error .missingOperator
  else if op == .root && node.isRoot then .error .missingOperator
  else if node.isRoot && !node.operands.isEmpty then .error .missingOperator
  else if node.isRoot && last.isRoot then .error .missingOperator
  else .ok (mk op (node.snoc last :: others))

def insert (self node : Node) (atTop : Bool) : Except FormulaError Node :=
  match self with
  | mk op operands =>
    if !(op.precedence < node.precedence || node.op.isUnary || atTop || groupRight op node.op) then
      .error .precedenceViolation
    else if op.isLeaf then .error .appendedToLeaf
    else match operands with
      | [] => .ok (mk op [node])
      | last :: others =>
        if op.arity? = some (others.length + 1) then
          if last.precedence < node.precedence || node.op.isUnary || groupRight last.op node.op then
            (insert last node false).map fun l => mk op (l :: others)
          else displace op last others node
        else .ok (mk op (node :: last :: others))
termination_by sizeOf self

end Node

/-- The nodes that are not finished, the innermost first. -/
abbrev Stack := List Node

/-- Folds unfinished rows of operands into what they stand in, up to the innermost bracket. -/
def collapse (root : Node) : Stack → Except FormulaError Stack
  | [] =>
    if root.isRoot then
      if root.hasTooMany then .error .missingOperator else .ok [root]
    else .error .unmatchedCloser
  | higher :: rest =>
    if root.isRoot then
      if root.hasTooMany then .error .missingOperator else .ok (root :: higher :: rest)
    else if root.op.isSequence then collapse (higher.snoc root) rest
    else if root.hasTooMany then .error .missingOperator
    else .ok (root :: higher :: rest)

def collapseTop : Stack → Except FormulaError Stack
  | [] => .error .unmatchedCloser
  | root :: rest => collapse root rest

def foldRow (node root : Node) : Stack → Except FormulaError Stack
  | [] => .error .unmatchedCloser
  | higher :: rest =>
    if node.precedence < higher.precedence then foldRow node (higher.snoc root) rest
    else .ok (node.snoc root :: higher :: rest)

def insertRow (node root : Node) (rest : Stack) : Except FormulaError Stack :=
  if root.op == node.op then .ok (root.snoc (.leaf .root) :: rest)
  else if root.isRoot then .ok ((node.snoc root).snoc (.leaf .root) :: .leaf .root :: rest)
  else if root.precedence < node.precedence then
    match root with
    | .mk op (last :: others) =>
      .ok ((node.snoc last).snoc (.leaf .root) :: .mk op others :: rest)
    | .mk _ [] => .error .unmatchedCloser
  else foldRow node root rest

def insertNode (node : Node) : Stack → Except FormulaError Stack
  | [] => .error .unmatchedCloser
  | root :: rest =>
    if node.op.isSequence then insertRow node root rest
    else if root.op.isSequence then
      match root with
      | .mk op (last :: others) => (last.insert node true).map fun l => .mk op (l :: others) :: rest
      | .mk _ [] => .error .unmatchedCloser
    else (root.insert node true).map (· :: rest)

def Token.isAssignment : Token → Bool
  | .assign | .plusAssign | .minusAssign | .starAssign | .slashAssign | .percentAssign
  | .hatAssign | .andAssign | .orAssign => true
  | _ => false

def Token.isLiteral : Token → Bool
  | .number _ | .text _ | .truth _ => true
  | _ => false

def Token.isIdentifier : Token → Bool
  | .identifier _ => true
  | _ => false

/-- A token that ends an operand, so that a minus after it subtracts. -/
def Token.endsOperand (t : Token) : Bool := t == .closer || t.isIdentifier || t.isLiteral

def identifierOperator (name : String) (next : Option Token) : Operator :=
  if next.any Token.isAssignment then .write name
  else if next.any fun t => t == .opener || t.isIdentifier || t.isLiteral then .call name
  else .read name

def Token.operator (t : Token) (afterOperand : Bool) (next : Option Token) : Operator :=
  match t with
  | .plus => .add
  | .minus => if afterOperand then .sub else .neg
  | .star => .mul
  | .slash => .div
  | .percent => .mod
  | .hat => .exp
  | .eq => .eq
  | .neq => .neq
  | .gt => .gt
  | .lt => .lt
  | .geq => .geq
  | .leq => .leq
  | .and => .and
  | .or => .or
  | .not => .not
  | .assign => .assign
  | .plusAssign => .addAssign
  | .minusAssign => .subAssign
  | .starAssign => .mulAssign
  | .slashAssign => .divAssign
  | .percentAssign => .modAssign
  | .hatAssign => .expAssign
  | .andAssign => .andAssign
  | .orAssign => .orAssign
  | .comma => .tuple
  | .semicolon => .chain
  | .number n => .constant (.number n)
  | .text s => .constant (.text s)
  | .truth b => .constant (.truth b)
  | .identifier name => identifierOperator name next
  | .opener | .closer => .root

def take (stack : Stack) (afterOperand : Bool) (t : Token) (next : Option Token) :
    Except FormulaError Stack :=
  match t with
  | .opener => .ok (.leaf .root :: stack)
  | .closer =>
    if stack.length ≤ 1 then .error .unmatchedCloser
    else match collapseTop stack with
      | .error e => .error e
      | .ok [] => .error .unmatchedCloser
      | .ok (node :: rest) => insertNode node rest
  | t => insertNode (.leaf (t.operator afterOperand next)) stack

def takeAll (stack : Stack) (afterOperand : Bool) : List Token → Except FormulaError Stack
  | [] => .ok stack
  | t :: rest =>
    match take stack afterOperand t rest.head? with
    | .error e => .error e
    | .ok stack => takeAll stack t.endsOperand rest

def ofTokens (ts : List Token) : Except FormulaError Node :=
  match takeAll [.leaf .root] false ts with
  | .error e => .error e
  | .ok stack =>
    match collapseTop stack with
    | .error e => .error e
    | .ok [node] => .ok node
    | .ok (_ :: _ :: _) => .error .unmatchedOpener
    | .ok [] => .error .unmatchedCloser

def read (text : String) : Except FormulaError Node :=
  match tokenize text with
  | .error e => .error e
  | .ok ts => ofTokens ts

end Simultaneous.Formula
