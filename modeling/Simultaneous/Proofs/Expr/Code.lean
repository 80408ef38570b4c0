import Simultaneous.Expr.Code

/-!
Compiled code computes what it was compiled from, in every arithmetic in which one times a number
is the number. No other law is used, so that the statements hold of floating-point numbers as of
exact ones: code and expression do the same operations on the same operands. Code looks only at the
positions of a point that its expression names, as long as their distances have 32 bits.
-/

namespace Simultaneous

variable {α : Type}

def Expr.All (named : String → Nat → Prop) (exponent : Int64 → Prop) : Expr α → Prop
  | const _ => True
  | var name i => named name i
  | add l r | mul l r | sub l r | div l r | powExpr l r =>
    l.All named exponent ∧ r.All named exponent
  | pow e n => exponent n ∧ e.All named exponent
  | abs e | powConst e _ | call _ e | neg e => e.All named exponent

theorem Expr.all_of_forall {named : String → Nat → Prop} {exponent : Int64 → Prop}
    (names : ∀ s i, named s i) (exponents : ∀ n, exponent n) (e : Expr α) :
    e.All named exponent := by
  induction e with
  | const c => trivial
  | var name i => exact names name i
  | add l r left right | sub l r left right | mul l r left right | div l r left right
  | powExpr l r left right => exact ⟨left, right⟩
  | pow e n inner => exact ⟨exponents n, inner⟩
  | abs e inner | neg e inner | call f e inner | powConst e p inner => exact inner

theorem Expr.All.imp {p q : String → Nat → Prop} {exponent exponent' : Int64 → Prop}
    (names : ∀ s i, p s i → q s i) (exponents : ∀ n, exponent n → exponent' n) {e : Expr α}
    (all : e.All p exponent) : e.All q exponent' := by
  induction e with
  | const c => trivial
  | var name i => exact names name i all
  | add l r left right | sub l r left right | mul l r left right | div l r left right
  | powExpr l r left right => exact ⟨left all.1, right all.2⟩
  | pow e n inner => exact ⟨exponents n all.1, inner all.2⟩
  | abs e inner | neg e inner | call f e inner | powConst e p inner => exact inner all

/-! ### Places in memory -/

theorem loadOffset_of_lt {i : Nat} (near : i < slotLimit) : (loadOffset i).toInt / 8 = i := by
  unfold slotLimit at near
  have whole : (loadOffset i).toInt = (8 * i : Nat) := Int32.toInt_ofNat_of_lt (by omega)
  rw [whole]
  omega

theorem read_loadOffset_of_lt (memory : Memory α) {i : Nat} (near : i < slotLimit) :
    memory.read (loadOffset i) = memory i := by
  rw [Memory.read, loadOffset_of_lt near]

namespace Code

variable [Scalar α]

theorem execute_append (memory : Memory α) (first second : Code α) (stack : List α) :
    (first ++ second).execute memory stack = second.execute memory (first.execute memory stack) :=
  List.foldl_append

/-! ### Calls -/

theorem execute_ofFunction (f : Elementary) (memory : Memory α) (x : α) (stack : List α) :
    (Instruction.ofFunction f).execute memory (x :: stack) = Scalar.apply f x :: stack := by
  cases f <;> rfl

/-! ### Integer powers -/

variable {memory : Memory α}

/-- The loop that multiplies a product on goes through the same products in code and without. -/
theorem execute_multiplyPower {n : Nat} (positive : 0 < n) (x y : α) (stack : List α) :
    (multiplyPower n).execute memory (y :: x :: stack) = Scalar.multiplyPower x y n :: stack := by
  induction n using Nat.strongRecOn generalizing x y with
  | ind n ih =>
    rw [multiplyPower, Scalar.multiplyPower]
    split
    next last =>
      have odd : n % 2 = 1 := by omega
      rw [if_pos odd]
      rfl
    next more =>
      have half (z : α) : (multiplyPower (n / 2)).execute memory ((y * y) :: z :: stack) =
          Scalar.multiplyPower z (y * y) (n / 2) :: stack := ih _ (by omega) (by omega) z (y * y)
      split
      next odd =>
        rw [execute_append]
        exact half (x * y)
      next even =>
        rw [execute_append]
        exact half x

theorem execute_positivePower (one_mul : ∀ a : α, Scalar.one * a = a) {n : Nat} (positive : 0 < n)
    (x : α) (stack : List α) :
    (positivePower n).execute memory (x :: stack) = Scalar.multiplyPower Scalar.one x n :: stack := by
  induction n using Nat.strongRecOn generalizing x with
  | ind n ih =>
    rw [positivePower, Scalar.multiplyPower]
    split
    next last =>
      obtain rfl : n = 1 := by omega
      simp only [Nat.reduceMod, Nat.reduceDiv, if_true, dite_true, one_mul]
      rfl
    next more =>
      rw [dif_neg (by omega)]
      split
      next odd =>
        rw [one_mul, execute_append]
        exact execute_multiplyPower (by omega) x (x * x) stack
      next even =>
        rw [execute_append]
        exact ih (n / 2) (by omega) (by omega) (x * x)

/-- The code of an integer power computes the product of equal factors, or one divided by it. -/
theorem execute_intPower (one_mul : ∀ a : α, Scalar.one * a = a) {base : Code α} {x : α}
    (computes : ∀ stack, base.execute memory stack = x :: stack) (n : Int64) (stack : List α) :
    (intPower base n).execute memory stack =
      (if n.toInt < 0 then Scalar.one / Scalar.multiplyPower Scalar.one x n.toInt.natAbs
        else Scalar.multiplyPower Scalar.one x n.toInt.natAbs) :: stack := by
  unfold intPower
  split
  next zero =>
    have magnitude : n.toInt = 0 := by rw [zero, Int64.toInt_zero]
    rw [magnitude, if_neg (Int.lt_irrefl 0), Int.natAbs_zero, Scalar.multiplyPower]
    rfl
  next nonzero =>
    have factors : 0 < n.toInt.natAbs := by
      rw [Int.natAbs_pos, ← Int64.toInt_zero]
      exact fun same => nonzero (Int64.toInt_inj.1 same)
    split
    next negative =>
      rw [execute_append, execute_append, execute_append, computes,
        execute_positivePower one_mul factors]
      rfl
    next => rw [execute_append, computes, execute_positivePower one_mul factors]

theorem execute_shortPower (one_mul : ∀ a : α, Scalar.one * a = a) {base : Code α} {x : α}
    (computes : ∀ stack, base.execute memory stack = x :: stack) {n : Int64}
    (short : Scalar.isShortExponent n.toInt) (stack : List α) :
    (intPower base n).execute memory stack = Scalar.intPower x n :: stack := by
  rw [execute_intPower one_mul computes]
  unfold Scalar.intPower
  simp only [short, if_true]

/-! ### Expressions -/

theorem execute_ofExpr_of_powers {exponent : Int64 → Prop}
    (powers : ∀ (n : Int64) (base : Code α) (x : α), exponent n →
      (∀ stack, base.execute memory stack = x :: stack) →
      ∀ stack, (intPower base n).execute memory stack = Scalar.intPower x n :: stack)
    {e : Expr α} (all : e.All (fun _ _ => True) exponent) (stack : List α) :
    (ofExpr e).execute memory stack =
      e.evaluate (fun i => memory.read (loadOffset i)) :: stack := by
  induction e generalizing stack with
  | const c | var name i => rfl
  | add l r left right | sub l r left right | mul l r left right | div l r left right
  | powExpr l r left right =>
    rw [ofExpr, execute_append, execute_append, left all.1, right all.2]
    rfl
  | abs e inner | neg e inner =>
    rw [ofExpr, execute_append, inner all]
    rfl
  | call f e inner =>
    rw [ofExpr, execute_append, inner all]
    exact execute_ofFunction f memory _ stack
  | pow b n base => exact powers n (ofExpr b) _ all.1 (base all.2) stack
  | powConst b p base =>
    rw [ofExpr, execute_append, base all]
    rfl

theorem value_ofExpr_of_short (one_mul : ∀ a : α, Scalar.one * a = a) (memory : Memory α)
    {e : Expr α} (short : e.All (fun _ _ => True) fun n => Scalar.isShortExponent n.toInt) :
    (ofExpr e).value memory = e.evaluate fun i => memory.read (loadOffset i) := by
  have runs : (ofExpr e).execute memory [] = _ := execute_ofExpr_of_powers
    (fun n base x short computes => execute_shortPower one_mul computes short) short []
  rw [value, runs]
  rfl

end Code

section Values

variable [Scalar α]

theorem Expr.All.evaluate_eq {p q : Nat → α} {exponent : Int64 → Prop} {e : Expr α}
    (all : e.All (fun _ i => p i = q i) exponent) : e.evaluate p = e.evaluate q := by
  induction e with
  | const c => rfl
  | var name i => exact all
  | add l r left right | sub l r left right | mul l r left right | div l r left right
  | powExpr l r left right => simp only [evaluate, left all.1, right all.2]
  | pow e n inner => simp only [evaluate, inner all.2]
  | abs e inner | neg e inner | call f e inner | powConst e p inner => simp only [evaluate, inner all]

/-- Where distances have 32 bits, what is loaded for a variable is its number. -/
theorem Expr.All.evaluate_loaded {named : String → Nat → Prop} {exponent : Int64 → Prop}
    {e : Expr α} (all : e.All named exponent) {memory : Memory α} {point : Nat → α}
    (agrees : ∀ s i, named s i → i < slotLimit ∧ memory i = point i) :
    (e.evaluate fun i => memory.read (loadOffset i)) = e.evaluate point := by
  refine (all.imp (fun s i kind => ?_) fun _ kept => kept).evaluate_eq
  obtain ⟨near, same⟩ := agrees s i kind
  rw [read_loadOffset_of_lt memory near, same]

/-! ### Buffers -/

theorem CompiledList.ofExprs_eq_ok {inputs : Nat} {es : List (Expr α)} {f : CompiledList α} :
    ofExprs inputs es = .ok f ↔ es.length ≤ slotLimit ∧ f = ⟨inputs, es.map Code.ofExpr⟩ := by
  unfold ofExprs
  split
  next fits => simp [fits, eq_comm]
  next long => simp [long]

theorem CompiledList.getElem?_fill {f : CompiledList α} {point buffer : Array α}
    (enough : f.inputs ≤ point.size) (room : f.outputs ≤ buffer.size) (k : Nat) :
    (f.fill point buffer)[k]? =
      (f.codes[k]?.map fun code => code.value (memoryOf point)).or buffer[k]? := by
  have fits : ¬(point.size < f.inputs || buffer.size < f.outputs) = true := by
    rw [Bool.or_eq_true, decide_eq_true_eq, decide_eq_true_eq]
    omega
  have outputs :
      (f.codes.map fun code => code.value (memoryOf point)).toArray.size = f.outputs := by
    rw [List.size_toArray, List.length_map, CompiledList.outputs]
  rw [fill, if_neg fits, Array.getElem?_append, outputs, CompiledList.outputs]
  split
  next inside =>
    rw [List.getElem?_toArray, List.getElem?_map, List.getElem?_eq_getElem inside]
    rfl
  next outside =>
    have position : f.codes.length + (k - f.codes.length) = k := by omega
    rw [List.getElem?_eq_none (by omega), Option.map_none, Option.none_or, Array.getElem?_extract,
      position]
    split
    next => rfl
    next beyond => rw [Array.getElem?_eq_none (by omega)]

end Values

/-! ### The main statement -/

def Expr.IsCompilable (inputs : Nat) (e : Expr α) : Prop :=
  e.All (fun _ i => i < inputs ∧ i < slotLimit) fun n => Scalar.isShortExponent n.toInt

section Main

variable [Scalar α] {point : Array α} {inputs : Nat}

theorem Expr.IsCompilable.value_eq (one_mul : ∀ a : α, Scalar.one * a = a) {e : Expr α}
    (compilable : e.IsCompilable inputs) {memory : Memory α}
    (agrees : ∀ i < inputs, memory i = pointOf point i) :
    (Code.ofExpr e).value memory = e.evaluate (pointOf point) := by
  have short := compilable.imp (fun _ _ _ => trivial) fun _ kept => kept
  rw [Code.value_ofExpr_of_short one_mul memory short]
  exact compilable.evaluate_loaded fun _ i holds => ⟨holds.2, agrees i holds.1⟩

/-- Compiled expressions compute the values of the expressions, whatever the operations and
functions are, as long as one times a number is the number: a single one at a point, also where the
memory around the point holds anything; each of several in its slot of a buffer, with the slots
behind them as before; and each entry of a matrix behind the rows above it and the entries to its
left. The code of an integer power multiplies as the power of an expression does, for every exponent
of 32 bits. Wherever the variables are, the value is that of the expression at the numbers that are
loaded for them. -/
theorem compiled_value (one_mul : ∀ a : α, Scalar.one * a = a) (enough : inputs ≤ point.size) :
    (∀ e : Expr α, e.IsCompilable inputs →
      (Compiled.ofExpr inputs e).value point = e.evaluate (pointOf point) ∧
      ∀ memory : Memory α, (∀ i, (inside : i < point.size) → memory i = point[i]) →
        (Code.ofExpr e).value memory = e.evaluate (pointOf point)) ∧
    (∀ (es : List (Expr α)) (f : CompiledList α) (buffer : Array α),
      CompiledList.ofExprs inputs es = .ok f → (∀ e ∈ es, e.IsCompilable inputs) →
      es.length ≤ buffer.size → ∀ k : Nat,
        (f.fill point buffer)[k]? =
          (es[k]?.map fun e => e.evaluate (pointOf point)).or buffer[k]?) ∧
    (∀ (above below : List (List (Expr α))) (row : List (Expr α)) (f : CompiledList α)
      (buffer : Array α), CompiledList.ofRows inputs (above ++ row :: below) = .ok f →
      (∀ r ∈ above ++ row :: below, ∀ e ∈ r, e.IsCompilable inputs) →
      (above ++ row :: below).flatten.length ≤ buffer.size → ∀ (j : Nat) (e : Expr α),
        row[j]? = some e →
        (f.fill point buffer)[above.flatten.length + j]? = some (e.evaluate (pointOf point))) ∧
    (∀ es : List (Expr α), es.length ≤ slotLimit →
      ∃ f, CompiledList.ofExprs inputs es = .ok f ∧ f.outputs = es.length) ∧
    (∀ (memory : Memory α) (base : Code α) (x : α) (n : Int64),
      (∀ stack, base.execute memory stack = x :: stack) → Scalar.isShortExponent n.toInt →
      ∀ stack, (Code.intPower base n).execute memory stack = Scalar.intPower x n :: stack) ∧
    ∀ (memory : Memory α) (e : Expr α),
      e.All (fun _ _ => True) (fun n => Scalar.isShortExponent n.toInt) →
        (Code.ofExpr e).value memory = e.evaluate fun i => memory.read (loadOffset i) := by
  have each (es : List (Expr α)) (f : CompiledList α) (buffer : Array α)
      (built : CompiledList.ofExprs inputs es = .ok f) (all : ∀ e ∈ es, e.IsCompilable inputs)
      (room : es.length ≤ buffer.size) (k : Nat) :
      (f.fill point buffer)[k]? =
        (es[k]?.map fun e => e.evaluate (pointOf point)).or buffer[k]? := by
    obtain ⟨-, rfl⟩ := CompiledList.ofExprs_eq_ok.1 built
    rw [CompiledList.getElem?_fill enough (by rwa [CompiledList.outputs, List.length_map]),
      List.getElem?_map]
    cases entry : es[k]? with
    | none => rfl
    | some e =>
      have value : (Code.ofExpr e).value (memoryOf point) = e.evaluate (pointOf point) :=
        (all e (List.mem_of_getElem? entry)).value_eq one_mul fun i _ => rfl
      rw [Option.map_some, Option.map_some, Option.map_some, value]
  refine ⟨?_, each, ?_, ?_, ?_, fun memory e => Code.value_ofExpr_of_short one_mul memory⟩
  · intro e compilable
    constructor
    · have long : ¬point.size < (Compiled.ofExpr inputs e).inputs := Nat.not_lt.2 enough
      rw [Compiled.value, if_neg long]
      exact compilable.value_eq one_mul fun i _ => rfl
    · intro memory agrees
      refine compilable.value_eq one_mul fun i below => ?_
      have inside : i < point.size := Nat.lt_of_lt_of_le below enough
      rw [agrees i inside, pointOf, Array.getElem?_eq_getElem inside, Option.getD_some]
  · intro above below row f buffer built all room j e entry
    have inside : j < row.length := (List.getElem?_eq_some_iff.1 entry).1
    have place : (above ++ row :: below).flatten[above.flatten.length + j]? = some e := by
      rw [List.flatten_append, List.flatten_cons, List.getElem?_append_right (by omega),
        Nat.add_sub_cancel_left, List.getElem?_append_left inside, entry]
    have flat : ∀ e ∈ (above ++ row :: below).flatten, e.IsCompilable inputs := by
      intro e member
      obtain ⟨r, listed, within⟩ := List.mem_flatten.1 member
      exact all r listed e within
    rw [each _ f buffer built flat room, place]
    rfl
  · intro es fits
    exact ⟨_, CompiledList.ofExprs_eq_ok.2 ⟨fits, rfl⟩, List.length_map _⟩
  · intro memory base x n computes short stack
    exact Code.execute_shortPower one_mul computes short stack

end Main

section Example

/-- What was computed, written out: an arithmetic without any law but that one times a number is the
number. -/
inductive Computation where
  | number (n : Int)
  | numeral (n : Decimal.Numeral)
  | constant (name : String)
  | unary (name : String) (x : Computation)
  | binary (name : String) (x y : Computation)
deriving DecidableEq

instance : Scalar Computation where
  add := .binary "+"
  sub := .binary "-"
  mul x y := if x = .number 1 then y else .binary "*" x y
  div := .binary "/"
  neg := .unary "-"
  beq x y := x = y
  ofInt := .number
  ofNumeral := .numeral
  pi := .constant "pi"
  e := .constant "e"
  undefined := .constant "undefined"
  lt _ _ := false
  le _ _ := false
  abs := .unary "abs"
  power := .binary "power"
  apply f := .unary f.name
  integral? _ := none
  special? _ := none

theorem Computation.one_mul (x : Computation) : Scalar.one * x = x := if_pos rfl

def damping : Expr Computation :=
  .mul (.call .sqrt (.var "x" 0)) (.pow (.call .sin (.var "y" 1)) (-6))

/-- The sixth power is the square times the square of the square, in this order. -/
theorem compiled_damping :
    damping.IsCompilable 2 ∧
      (Compiled.ofExpr 2 damping).value #[.constant "a", .constant "b"] =
        damping.evaluate (pointOf #[.constant "a", .constant "b"]) ∧
      damping.evaluate (pointOf #[.constant "a", .constant "b"]) =
        let sine : Computation := .unary "Sin" (.constant "b")
        let square : Computation := .binary "*" sine sine
        .binary "*" (.unary "Sqrt" (.constant "a"))
          (.binary "/" (.number 1) (.binary "*" square (.binary "*" square square))) := by
  have short : Scalar.isShortExponent (-6 : Int64).toInt = true := by decide
  have compilable : damping.IsCompilable 2 :=
    ⟨⟨by decide, by decide⟩, short, by decide, by decide⟩
  refine ⟨compilable, ?_, by decide +kernel⟩
  exact ((compiled_value Computation.one_mul (by decide)).1 damping compilable).1

def fiveFirst (zeros : Nat) : Array Computation := #[.number 5] ++ Array.replicate zeros (.number 0)

theorem size_fiveFirst (zeros : Nat) : (fiveFirst zeros).size = zeros + 1 := by
  rw [fiveFirst, Array.size_append, Array.size_replicate, Nat.add_comm]
  rfl

theorem pointOf_fiveFirst_zero (zeros : Nat) : pointOf (fiveFirst zeros) 0 = .number 5 := by
  rw [pointOf, fiveFirst, Array.getElem?_append_left (by decide)]
  rfl

theorem pointOf_fiveFirst_last {zeros : Nat} (positive : 0 < zeros) :
    pointOf (fiveFirst zeros) zeros = .number 0 := by
  have inside : zeros - #[Computation.number 5].size < zeros := Nat.sub_lt positive Nat.one_pos
  rw [pointOf, fiveFirst, Array.getElem?_append_right positive, Array.getElem?_replicate,
    if_pos inside, Option.getD_some]

/-- The distance of the last of 2 ^ 29 + 1 numbers is cut to zero, and the first one is loaded. -/
theorem far_variable_is_misread :
    ¬∀ (inputs : Nat) (e : Expr Computation) (point : Array Computation),
      e.All (fun _ i => i < inputs) (fun n => Scalar.isShortExponent n.toInt) →
      inputs ≤ point.size → (Compiled.ofExpr inputs e).value point = e.evaluate (pointOf point) := by
  intro same
  let far : Expr Computation := .var "x" 536870912
  have size := size_fiveFirst 536870912
  have value := same 536870913 far (fiveFirst 536870912) (Nat.lt_succ_self 536870912)
    (Nat.le_of_eq size.symm)
  have evaluated : far.evaluate (pointOf (fiveFirst 536870912)) = .number 0 :=
    pointOf_fiveFirst_last (by decide)
  have cut : (loadOffset 536870912).toInt / 8 = 0 := by decide
  have loaded (memory : Memory Computation) : (Code.ofExpr far).value memory = memory 0 :=
    congrArg memory cut
  have first : memoryOf (fiveFirst 536870912) 0 = .number 5 := pointOf_fiveFirst_zero _
  have enough : ¬(fiveFirst 536870912).size < 536870913 := Nat.not_lt.2 (Nat.le_of_eq size.symm)
  rw [Compiled.value, Compiled.ofExpr, if_neg enough, loaded, first, evaluated] at value
  cases value

end Example

end Simultaneous
