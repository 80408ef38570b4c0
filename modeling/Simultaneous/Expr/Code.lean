import Simultaneous.Decimal.Digits
import Simultaneous.Expr.Basic

/-!
Code of expressions for a machine with a stack of numbers. Integer powers are spelled out as
products, and what the machine has no instruction for is called by its symbol. Code for several
expressions fills a buffer. The places of numbers in memory are told by distances of 32 bits: a
distance to be written to that is longer is refused, one to be read from is cut.
-/

namespace Simultaneous

inductive Routine (α : Type) where
  | unary (f : α → α)
  | binary (f : α → α → α)

namespace Routine

variable {α : Type}

def run (r : Routine α) (stack : List α) : List α :=
  match r, stack with
  | unary f, x :: s => f x :: s
  | binary f, y :: x :: s => f x y :: s
  | _, s => s

end Routine

def Elementary.symbol : Elementary → String
  | sin => "sin"
  | cos => "cos"
  | tan => "tan"
  | exp => "exp"
  | ln => "ln"
  | sqrt => "sqrt"
  | sinh => "sinh"
  | cosh => "cosh"
  | tanh => "tanh"
  | arcsin => "asin"
  | arccos => "acos"
  | arctan => "atan"

def powerSymbol : String := "pow"

def routines (α : Type) [Scalar α] : List (String × Routine α) :=
  Elementary.all.map (fun f => (f.symbol, .unary (Scalar.apply f))) ++
    [(powerSymbol, .binary Scalar.power)]

/-- Numbers in memory, counted from the first one of a point. -/
abbrev Memory (α : Type) := Int → α

def memoryOf {α : Type} [Scalar α] (point : Array α) : Memory α
  | .ofNat i => pointOf point i
  | .negSucc _ => Scalar.undefined

/-- How many numbers lie at distances of 32 bits from the first one. -/
def slotLimit : Nat := 268435456

/-- The distance of a number from the first one in bytes, cut to 32 bits. -/
def loadOffset (index : Nat) : Int32 := Int32.ofNat (8 * index)

def Memory.read {α : Type} (memory : Memory α) (offset : Int32) : α := memory (offset.toInt / 8)

/-- An instruction; the top of the stack is the right operand. -/
inductive Instruction (α : Type) where
  | push (c : α)
  | load (offset : Int32)
  | add | sub | mul | div | neg | abs | sqrt
  | call (symbol : String)
  /-- doubles the top -/
  | copy
  /-- multiplies the number below the top by the top and keeps the top -/
  | mulBelow

abbrev Code (α : Type) := List (Instruction α)

namespace Instruction

variable {α : Type} [Scalar α]

/-- Executes an instruction; one that lacks operands, or calls a symbol without a routine, leaves
the stack alone. -/
def execute (memory : Memory α) (i : Instruction α) (stack : List α) : List α :=
  match i, stack with
  | push c, s => c :: s
  | load offset, s => memory.read offset :: s
  | add, y :: x :: s => (x + y) :: s
  | sub, y :: x :: s => (x - y) :: s
  | mul, y :: x :: s => (x * y) :: s
  | div, y :: x :: s => (x / y) :: s
  | mulBelow, y :: x :: s => y :: (x * y) :: s
  | neg, x :: s => (-x) :: s
  | abs, x :: s => Scalar.abs x :: s
  | sqrt, x :: s => Scalar.sqrt x :: s
  | call symbol, s => ((routines α).lookup symbol).elim s (·.run s)
  | copy, x :: s => x :: x :: s
  | _, s => s

/-- The instruction for a function of one operand. The machine takes square roots by itself. -/
def ofFunction : Elementary → Instruction α
  | .sqrt => sqrt
  | f => call f.symbol

end Instruction

namespace Code

variable {α : Type} [Scalar α]

def execute (memory : Memory α) (code : Code α) (stack : List α) : List α :=
  code.foldl (fun s i => i.execute memory s) stack

def value (code : Code α) (memory : Memory α) : α :=
  (code.execute memory []).head?.getD Scalar.undefined

/-- With a product below a base on the stack, multiplies the product by `base ^ n` and drops the
base, for positive `n`. -/
def multiplyPower (n : Nat) : Code α :=
  if _ : n / 2 = 0 then [.mul]
  else
    (if n % 2 = 1 then [.mulBelow] else []) ++ [.copy, .mul] ++ multiplyPower (n / 2)
termination_by n
decreasing_by omega

/-- Replaces a base on the top by its power, for positive `n`; the first factor of the product is
the base at the lowest binary digit that is set. -/
def positivePower (n : Nat) : Code α :=
  if _ : n ≤ 1 then []
  else if n % 2 = 1 then [.copy, .copy, .mul] ++ multiplyPower (n / 2)
  else [.copy, .mul] ++ positivePower (n / 2)
termination_by n
decreasing_by omega

def intPower (base : Code α) (n : Int64) : Code α :=
  if n = 0 then [.push Scalar.one]
  else if n.toInt < 0 then
    [.push Scalar.one] ++ base ++ positivePower n.toInt.natAbs ++ [.div]
  else base ++ positivePower n.toInt.natAbs

def ofExpr : Expr α → Code α
  | .const c => [.push c]
  | .var _ i => [.load (loadOffset i)]
  | .add l r => ofExpr l ++ ofExpr r ++ [.add]
  | .sub l r => ofExpr l ++ ofExpr r ++ [.sub]
  | .mul l r => ofExpr l ++ ofExpr r ++ [.mul]
  | .div l r => ofExpr l ++ ofExpr r ++ [.div]
  | .abs e => ofExpr e ++ [.abs]
  | .neg e => ofExpr e ++ [.neg]
  | .pow b n => intPower (ofExpr b) n
  | .powConst b p => ofExpr b ++ [.push p, .call powerSymbol]
  | .powExpr b e => ofExpr b ++ ofExpr e ++ [.call powerSymbol]
  | .call f e => ofExpr e ++ [.ofFunction f]

end Code

structure Compiled (α : Type) where
  inputs : Nat
  code : Code α

structure CompiledList (α : Type) where
  inputs : Nat
  codes : List (Code α)

variable {α : Type} [Scalar α]

def Compiled.ofExpr (inputs : Nat) (e : Expr α) : Compiled α := ⟨inputs, Code.ofExpr e⟩

def Compiled.value (f : Compiled α) (point : Array α) : α :=
  if point.size < f.inputs then Scalar.undefined else f.code.value (memoryOf point)

inductive BuildError where
  | tooManyOutputs (count : Nat)
deriving Repr, DecidableEq

def BuildError.message : BuildError → String
  | tooManyOutputs count =>
    "function error: too many outputs: " ++ String.ofList (Decimal.toDigits count)

/-- Compiles several expressions, if there is a distance for each. -/
def CompiledList.ofExprs (inputs : Nat) (es : List (Expr α)) :
    Except BuildError (CompiledList α) :=
  if es.length ≤ slotLimit then .ok ⟨inputs, es.map Code.ofExpr⟩
  else .error (.tooManyOutputs es.length)

def CompiledList.ofRows (inputs : Nat) (rows : List (List (Expr α))) :
    Except BuildError (CompiledList α) :=
  ofExprs inputs rows.flatten

def CompiledList.outputs (f : CompiledList α) : Nat := f.codes.length

/-- Fills a buffer with the values at a point. Slots beyond the outputs stay as they are; if the
point or the buffer is too short, every slot loses its value. -/
def CompiledList.fill (f : CompiledList α) (point buffer : Array α) : Array α :=
  if point.size < f.inputs || buffer.size < f.outputs then
    buffer.map fun _ => Scalar.undefined
  else
    (f.codes.map fun code => code.value (memoryOf point)).toArray ++
      buffer.extract f.outputs buffer.size

def CompiledList.values (f : CompiledList α) (point : Array α) : Array α :=
  f.fill point (Array.replicate f.outputs Scalar.zero)

end Simultaneous
