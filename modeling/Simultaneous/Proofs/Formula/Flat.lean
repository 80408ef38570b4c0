import Simultaneous.Elementary
import Simultaneous.Proofs.Formula.Grammar

/-!
Rows told token by token. Where each token of a row stands in its place beside the one before it
and every bracket is closed, the grammar reads the row: there is a reading for every way to put
operands, signs, operators and brackets next to each other.
-/

namespace Simultaneous.Formula

/-! ### Readings with known names -/

def constantNames : List String := ["Pi", "E", "Degree"]

def IsCallable (f : String) : Prop := (Elementary.ofName? f).isSome ∨ f = absName

def Reading.Known (unknowns : List String) : Reading → Prop
  | number _ => True
  | name s => s ∈ constantNames ∨ s ∈ unknowns
  | call f r => IsCallable f ∧ r.Known unknowns
  | bracket r | neg r => r.Known unknowns
  | binary _ l r => l.Known unknowns ∧ r.Known unknowns

def IsReadable (unknowns : List String) (l : Level) (ts : List Token) : Prop :=
  ∃ r, Reads l ts r ∧ r.Known unknowns

namespace IsReadable

variable {unknowns : List String} {ts us : List Token}

theorem lift {tight loose : Level} (below : Level.Below tight loose)
    (row : IsReadable unknowns tight ts) : IsReadable unknowns loose ts := by
  obtain ⟨r, reads, known⟩ := row
  exact ⟨r, .lift below reads, known⟩

theorem number (n : Decimal.Numeral) : IsReadable unknowns .operand [.number n] :=
  ⟨_, .number n, trivial⟩

theorem name {s : String} (known : s ∈ constantNames ∨ s ∈ unknowns) :
    IsReadable unknowns .operand [.identifier s] :=
  ⟨_, .name s, known⟩

theorem bracket (inside : IsReadable unknowns .sum ts) :
    IsReadable unknowns .operand (.opener :: (ts ++ [.closer])) := by
  obtain ⟨r, reads, known⟩ := inside
  exact ⟨_, .bracket reads, known⟩

theorem call {f : String} (callable : IsCallable f) (inside : IsReadable unknowns .sum ts) :
    IsReadable unknowns .operand (.identifier f :: .opener :: (ts ++ [.closer])) := by
  obtain ⟨r, reads, known⟩ := inside
  exact ⟨_, .call f reads, callable, known⟩

theorem sign {l : Level} (signs : l = .signed ∨ l = .exponent) (row : IsReadable unknowns l ts) :
    IsReadable unknowns l (.minus :: ts) := by
  obtain ⟨r, reads, known⟩ := row
  exact ⟨_, .sign signs reads, known⟩

theorem binary (op : Binary) (left : IsReadable unknowns op.left ts)
    (right : IsReadable unknowns op.right us) :
    IsReadable unknowns op.left (ts ++ op.token :: us) := by
  obtain ⟨l, reads_left, known_left⟩ := left
  obtain ⟨r, reads_right, known_right⟩ := right
  exact ⟨_, .binary op reads_left reads_right, known_left, known_right⟩

end IsReadable

/-! ### The begin of a row -/

/-- With anything of the inner level after it, a row is of the outer level. -/
def Frames (unknowns : List String) (inner outer : Level) (ts : List Token) : Prop :=
  ∀ us, IsReadable unknowns inner us → IsReadable unknowns outer (ts ++ us)

/-- The begin of a row up to a complete operand: terms, then the factors and signs of the last term,
then its last power. -/
inductive Complete (unknowns : List String) : List Token → Prop
  | mk {s p w : List Token} : Frames unknowns .product .sum s → Frames unknowns .signed .product p →
      IsReadable unknowns .power w → Complete unknowns (s ++ (p ++ w))

/-- The begin of a row up to where an operand is awaited, as a factor or in an exponent. -/
inductive Awaits (unknowns : List String) : List Token → Prop
  | factor {s p : List Token} : Frames unknowns .product .sum s →
      Frames unknowns .signed .product p → Awaits unknowns (s ++ p)
  | exponent {s p w : List Token} : Frames unknowns .product .sum s →
      Frames unknowns .signed .product p → Frames unknowns .exponent .power w →
      Awaits unknowns (s ++ (p ++ w))

section Begin

variable {unknowns : List String} {begun ts : List Token}

theorem Frames.sign {l outer : Level} (signs : l = .signed ∨ l = .exponent)
    (frames : Frames unknowns l outer ts) : Frames unknowns l outer (ts ++ [.minus]) := by
  intro us row
  rw [List.append_assoc]
  exact frames _ (row.sign signs)

/-- An operator after its left operand frames the right one. -/
theorem IsReadable.frames (op : Binary) (left : IsReadable unknowns op.left ts) :
    Frames unknowns op.right op.left (ts ++ [op.token]) := by
  intro us right
  rw [List.append_assoc]
  exact left.binary op right

theorem frames_nil {inner outer : Level} (below : Level.Below inner outer) :
    Frames unknowns inner outer [] :=
  fun _ row => row.lift below

theorem awaits_nil : Awaits unknowns [] := .factor (frames_nil .product) (frames_nil .signed)

namespace Complete

theorem isReadable (complete : Complete unknowns begun) : IsReadable unknowns .sum begun := by
  obtain ⟨terms, factors, power⟩ := complete
  exact terms _ (factors _ (power.lift .power))

theorem operator (op : Binary) (complete : Complete unknowns begun) :
    Awaits unknowns (begun ++ [op.token]) := by
  obtain @⟨s, p, w, terms, factors, power⟩ := complete
  have product : IsReadable unknowns .product (p ++ w) := factors _ (power.lift .power)
  have sum : IsReadable unknowns .sum (s ++ (p ++ w)) := terms _ product
  cases op with
  | add =>
    have next := Awaits.factor (sum.frames .add) (frames_nil .signed)
    rwa [List.append_nil] at next
  | sub =>
    have next := Awaits.factor (sum.frames .sub) (frames_nil .signed)
    rwa [List.append_nil] at next
  | mul =>
    rw [List.append_assoc]
    exact .factor terms (product.frames .mul)
  | div =>
    rw [List.append_assoc]
    exact .factor terms (product.frames .div)
  | exp =>
    rw [List.append_assoc, List.append_assoc]
    exact .exponent terms factors (power.frames .exp)

end Complete

namespace Awaits

theorem sign (awaits : Awaits unknowns begun) : Awaits unknowns (begun ++ [.minus]) := by
  cases awaits with
  | factor terms factors =>
    rw [List.append_assoc]
    exact .factor terms (factors.sign (.inl rfl))
  | exponent terms factors exponent =>
    rw [List.append_assoc, List.append_assoc]
    exact .exponent terms factors (exponent.sign (.inr rfl))

theorem operand (awaits : Awaits unknowns begun) (row : IsReadable unknowns .operand ts) :
    Complete unknowns (begun ++ ts) := by
  cases awaits with
  | factor terms factors =>
    rw [List.append_assoc]
    exact .mk terms factors (row.lift .operand)
  | exponent terms factors exponent =>
    rw [List.append_assoc, List.append_assoc]
    exact .mk terms factors (exponent _ (row.lift .exponent))

end Awaits

end Begin

/-! ### Rows of tokens in their places -/

inductive Stage where
  | operand | argument | follower
deriving DecidableEq

/-- Each token of the rest of a row stands in its place, with a number of brackets open. -/
inductive InPlace (unknowns : List String) : Nat → Stage → List Token → Prop
  | done : InPlace unknowns 0 .follower []
  | number {d : Nat} {ts : List Token} (n : Decimal.Numeral) :
      InPlace unknowns d .follower ts → InPlace unknowns d .operand (.number n :: ts)
  | name {d : Nat} {s : String} {ts : List Token} :
      s ∈ constantNames ∨ s ∈ unknowns → InPlace unknowns d .follower ts →
      InPlace unknowns d .operand (.identifier s :: ts)
  | call {d : Nat} {f : String} {ts : List Token} :
      IsCallable f → InPlace unknowns d .argument ts →
      InPlace unknowns d .operand (.identifier f :: ts)
  | argument {d : Nat} {ts : List Token} :
      InPlace unknowns (d + 1) .operand ts → InPlace unknowns d .argument (.opener :: ts)
  | bracket {d : Nat} {ts : List Token} :
      InPlace unknowns (d + 1) .operand ts → InPlace unknowns d .operand (.opener :: ts)
  | sign {d : Nat} {ts : List Token} :
      InPlace unknowns d .operand ts → InPlace unknowns d .operand (.minus :: ts)
  | operator {d : Nat} {ts : List Token} (op : Binary) :
      InPlace unknowns d .operand ts → InPlace unknowns d .follower (op.token :: ts)
  | closer {d : Nat} {ts : List Token} :
      InPlace unknowns d .follower ts → InPlace unknowns (d + 1) .follower (.closer :: ts)

def Completes (unknowns : List String) : Stage → List Token → Prop
  | .operand, ts => ∀ begun, Awaits unknowns begun → IsReadable unknowns .sum (begun ++ ts)
  | .argument, ts => ∀ begun f, IsCallable f → Awaits unknowns begun →
      IsReadable unknowns .sum (begun ++ .identifier f :: ts)
  | .follower, ts => ∀ begun, Complete unknowns begun → IsReadable unknowns .sum (begun ++ ts)

/-- A rest completes the row in the innermost bracket up to the closer, and after each closer the
row around it. -/
def CompletesAll (unknowns : List String) : Nat → Stage → List Token → Prop
  | 0, stage, ts => Completes unknowns stage ts
  | d + 1, stage, ts => ∃ us rest, ts = us ++ .closer :: rest ∧ Completes unknowns stage us ∧
      CompletesAll unknowns d .follower rest

section InPlace

variable {unknowns : List String} {stage next : Stage} {d : Nat} {ts front : List Token}

theorem CompletesAll.append (front : List Token) (rest : CompletesAll unknowns d next ts)
    (longer : ∀ us, Completes unknowns next us → Completes unknowns stage (front ++ us)) :
    CompletesAll unknowns d stage (front ++ ts) := by
  cases d with
  | zero => exact longer ts rest
  | succ d =>
    obtain ⟨us, after, rfl, inside, outside⟩ := rest
    exact ⟨front ++ us, after, (List.append_assoc ..).symm, longer us inside, outside⟩

theorem Completes.operand (row : IsReadable unknowns .operand front)
    (completes : Completes unknowns .follower ts) : Completes unknowns .operand (front ++ ts) := by
  intro begun awaits
  rw [← List.append_assoc]
  exact completes _ (awaits.operand row)

theorem InPlace.completesAll (in_place : InPlace unknowns d stage ts) :
    CompletesAll unknowns d stage ts := by
  induction in_place with
  | done =>
    intro begun complete
    rw [List.append_nil]
    exact complete.isReadable
  | number n _ ih => exact ih.append [_] fun us => .operand (.number n)
  | name known _ ih => exact ih.append [_] fun us => .operand (.name known)
  | @call d f ts callable _ ih =>
    refine ih.append [.identifier f] fun us completes begun awaits => ?_
    exact completes begun f callable awaits
  | argument _ ih =>
    obtain ⟨us, after, rfl, inside, outside⟩ := ih
    have row : IsReadable unknowns .sum us := inside [] awaits_nil
    rw [List.append_cons, ← List.cons_append]
    refine outside.append _ fun later completes begun f callable awaits => ?_
    exact Completes.operand (row.call callable) completes begun awaits
  | bracket _ ih =>
    obtain ⟨us, after, rfl, inside, outside⟩ := ih
    have row : IsReadable unknowns .sum us := inside [] awaits_nil
    rw [List.append_cons, ← List.cons_append]
    exact outside.append _ fun later => .operand row.bracket
  | sign _ ih =>
    refine ih.append [.minus] fun us completes begun awaits => ?_
    rw [← List.append_assoc]
    exact completes _ awaits.sign
  | operator op _ ih =>
    refine ih.append [op.token] fun us completes begun complete => ?_
    rw [← List.append_assoc]
    exact completes _ (complete.operator op)
  | @closer d ts _ ih =>
    refine ⟨[], ts, rfl, fun begun complete => ?_, ih⟩
    rw [List.append_nil]
    exact complete.isReadable

/-- A row whose tokens stand in their places has a reading. -/
theorem InPlace.isReadable (in_place : InPlace unknowns 0 .operand ts) :
    IsReadable unknowns .sum ts :=
  in_place.completesAll [] awaits_nil

end InPlace

end Simultaneous.Formula
