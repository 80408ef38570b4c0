import Simultaneous.Proofs.Worksheet.Entry
import Simultaneous.Proofs.Worksheet.Stores

/-!
How often an unknown is used. Lines count the unknowns that they name, but equations only those
without values; solving closes what it gives a value. As no unknown loses its value before the next
clearing, the count of an unknown without a value is right at all times: it is the number of
equations and differential problems that name it.
-/

namespace Simultaneous

namespace Unknowns

variable {α : Type} (u : Unknowns α)

theorem find?_congr {spelling other : String} (same : Name.internal spelling = Name.internal other) :
    u.find? spelling = u.find? other := by
  rw [find?, find?, same]

theorem name_of_find? {v : String} {e : Unknown} (found : u.find? v = some e) :
    e.name = Name.internal v := by
  have named := List.find?_some found
  rwa [decide_eq_true_eq] at named

theorem use_of_some {spelling : String} {e : Unknown} (found : u.find? spelling = some e) (n : Nat) :
    u.use spelling n =
      ({ u with pending := changeUses u.pending (Name.internal spelling) (· + n) }, e.handle) := by
  rw [use, found]

theorem use_of_none {spelling : String} (absent : u.find? spelling = none) (n : Nat) :
    u.use spelling n =
      ({ u with
          pending := u.pending ++ [⟨u.next, Name.internal spelling, n⟩]
          next := u.next + 1 }, u.next) := by
  rw [use, absent]

theorem find?_changeUses (entries : List Unknown) (name other : String) (change : Nat → Nat) :
    (changeUses entries name change).find? (·.name = other) =
      (entries.find? (·.name = other)).map fun e =>
        if e.name = name then { e with uses := change e.uses } else e := by
  have names : ((fun e : Unknown => decide (e.name = other)) ∘ fun e : Unknown =>
      if e.name = name then { e with uses := change e.uses } else e) =
        fun e => decide (e.name = other) := by
    funext e
    rw [Function.comp_apply]
    split <;> rfl
  rw [changeUses, List.find?_map, names]

theorem uses_use (spelling : String) (n : Nat) (v : String) :
    (u.use spelling n).1.uses v =
      u.uses v + if Name.internal spelling = Name.internal v then n else 0 := by
  cases found : u.find? spelling with
  | some e =>
    have changed : (u.use spelling n).1.find? v = (u.find? v).map fun e =>
        if e.name = Name.internal spelling then { e with uses := e.uses + n } else e := by
      rw [u.use_of_some found]
      exact find?_changeUses u.pending (Name.internal spelling) (Name.internal v) (· + n)
    rw [uses, uses, changed]
    split
    next same =>
      rw [← u.find?_congr same, found, Option.map_some, if_pos (u.name_of_find? found)]
      rfl
    next other =>
      cases kept : u.find? v with
      | none => rfl
      | some f =>
        have apart : f.name ≠ Name.internal spelling :=
          fun same => other (same.symm.trans (u.name_of_find? kept))
        rw [Option.map_some, if_neg apart]
        rfl
  | none =>
    have opened : (u.use spelling n).1.find? v =
        (u.find? v).or ([⟨u.next, Name.internal spelling, n⟩].find? (·.name = Name.internal v)) := by
      rw [u.use_of_none found]
      exact List.find?_append
    rw [uses, uses, opened]
    split
    next same =>
      rw [← u.find?_congr same, found, Option.none_or, List.find?_cons_of_pos (by simpa using same)]
      exact (Nat.zero_add n).symm
    next other =>
      rw [List.find?_cons_of_neg (by simpa using other), List.find?_nil, Option.or_none]
      rfl

theorem find?_solve {spelling v : String} (other : Name.internal spelling ≠ Name.internal v)
    (value : α) : (u.solve spelling value).find? v = u.find? v := by
  have kept : ∀ e : Unknown, e.name = Name.internal v → e.name ≠ Name.internal spelling :=
    fun e named same => other (same.symm.trans named)
  change (u.pending.filter (·.name ≠ Name.internal spelling)).find? (·.name = Name.internal v) =
    u.pending.find? (·.name = Name.internal v)
  rw [List.find?_filter]
  congr 1
  funext e
  simp only [decide_eq_true_eq]
  exact decide_eq_decide.2 ⟨And.right, fun named => ⟨kept e named, named⟩⟩

def AllUsed : Prop := ∀ e ∈ u.pending, 0 < e.uses

variable {u}

theorem AllUsed.use (all : u.AllUsed) (spelling : String) {n : Nat} (positive : 0 < n) :
    (u.use spelling n).1.AllUsed := by
  intro f member
  cases found : u.find? spelling with
  | some e =>
    rw [u.use_of_some found] at member
    obtain ⟨g, before, rfl⟩ := List.mem_map.1 member
    have used := all g before
    split
    next => exact Nat.add_pos_left used n
    next => exact used
  | none =>
    rw [u.use_of_none found] at member
    rcases List.mem_append.1 member with before | new
    · exact all f before
    · rw [List.mem_singleton.1 new]
      exact positive

theorem AllUsed.isPending_iff (all : u.AllUsed) (v : String) :
    u.isPending v ↔ 0 < u.uses v := by
  rw [isPending, uses]
  cases found : u.find? v with
  | none => simp
  | some e => simpa using all e (List.mem_of_find?_eq_some found)

/-- Using some names, each once, counts for every unknown the names that are its own. -/
theorem uses_foldl_use (names : List String) (u : Unknowns α) (v : String) :
    (names.foldl (fun u name => (u.use name 1).1.spell name) u).uses v =
      u.uses v + names.countP (Name.internal · = Name.internal v) := by
  induction names generalizing u with
  | nil => rfl
  | cons name rest ih =>
    have first : ((u.use name 1).1.spell name).uses v =
        u.uses v + if Name.internal name = Name.internal v then 1 else 0 := u.uses_use name 1 v
    rw [List.foldl_cons, ih, first, List.countP_cons, Nat.add_assoc, Nat.add_comm (ite _ _ _)]
    simp only [decide_eq_true_eq]

theorem AllUsed.foldl_use (all : u.AllUsed) (names : List String) :
    (names.foldl (fun u name => (u.use name 1).1.spell name) u).AllUsed := by
  induction names generalizing u with
  | nil => exact all
  | cons name rest ih => exact ih (u := (u.use name 1).1.spell name) (all.use name Nat.one_pos)

structure Closes (u u' : Unknowns α) : Prop where
  pending : u'.pending ⊆ u.pending
  fresh : ∀ v, u'.isSolved v = false → u.isSolved v = false ∧ u'.find? v = u.find? v

theorem Closes.refl (u : Unknowns α) : u.Closes u := ⟨List.Subset.refl _, fun _ open_ => ⟨open_, rfl⟩⟩

theorem Closes.trans {u during u' : Unknowns α} (first : u.Closes during)
    (second : during.Closes u') : u.Closes u' where
  pending := fun _ member => first.pending (second.pending member)
  fresh := by
    intro v open_
    obtain ⟨open_during, same⟩ := second.fresh v open_
    obtain ⟨open_before, kept⟩ := first.fresh v open_during
    exact ⟨open_before, same.trans kept⟩

theorem closes_foldl {β : Type} (f : Unknowns α → β → Unknowns α)
    (step : ∀ (u : Unknowns α) (x : β), u.Closes (f u x)) (u : Unknowns α) (xs : List β) :
    u.Closes (xs.foldl f u) := by
  induction xs generalizing u with
  | nil => exact .refl u
  | cons x rest ih => exact (step u x).trans (ih (f u x))

theorem closes_solve (u : Unknowns α) (spelling : String) (value : α) :
    u.Closes (u.solve spelling value) where
  pending := List.filter_subset_self _
  fresh := by
    intro v open_
    rw [← Bool.not_eq_true, u.isSolved_solve, not_or, Bool.not_eq_true] at open_
    exact ⟨open_.1, u.find?_solve open_.2 value⟩

theorem closes_spell (u : Unknowns α) (spelling : String) : u.Closes (u.spell spelling) :=
  ⟨List.Subset.refl _, fun _ open_ => ⟨open_, rfl⟩⟩

end Unknowns

namespace Worksheet

open Unknowns

variable {α : Type}

theorem uses_useAll (u : Unknowns α) (names : List String) {v : String}
    (fresh : u.isSolved v = false) :
    (useAll u names).uses v = u.uses v + names.countP (Name.internal · = Name.internal v) := by
  induction names generalizing u with
  | nil => rfl
  | cons name rest ih =>
    rw [useAll, List.foldl_cons, ← useAll, List.countP_cons]
    simp only [decide_eq_true_eq]
    split
    next solved =>
      have other : Name.internal name ≠ Name.internal v := by
        intro same
        rw [isSolved_eq, same, ← isSolved_eq, fresh] at solved
        cases solved
      rw [ih u fresh, if_neg other, Nat.add_zero]
    next =>
      have still : (u.use name 1).1.isSolved v = false := by
        rw [isSolved_eq, solved_use, ← isSolved_eq, fresh]
      rw [ih _ still, u.uses_use, Nat.add_assoc, Nat.add_comm (ite _ _ _)]

theorem allUsed_useAll {u : Unknowns α} (all : u.AllUsed) (names : List String) :
    (useAll u names).AllUsed := by
  induction names generalizing u with
  | nil => exact all
  | cons name rest ih =>
    rw [useAll, List.foldl_cons, ← useAll]
    split
    next => exact ih all
    next => exact ih (all.use name Nat.one_pos)

theorem closes_record (u : Unknowns α) (names : List String) (values : List α) :
    u.Closes (record u names values) :=
  closes_foldl (fun u (entry : String × α) => u.solve entry.1 entry.2)
    (fun u entry => u.closes_solve entry.1 entry.2) u (names.zip values)

/-- How many equations and identifiers of differential problems have a name. -/
def places (w : Worksheet α) (name : String) : Nat :=
  w.equations.countP (name ∈ ·.unknowns) +
    (w.differentials.flatMap (·.identifiers)).countP (Name.internal · = name)

theorem places_addDifferential (w : Worksheet α) (d : Differential) (name : String) :
    (w.addDifferential d).places name =
      w.places name + d.identifiers.countP (Name.internal · = name) := by
  change w.equations.countP _ + ((w.differentials ++ [d]).flatMap _).countP _ = _
  rw [List.flatMap_append, List.flatMap_singleton, List.countP_append, ← Nat.add_assoc]
  rfl

theorem places_addEquation (w : Worksheet α) (e : LineEquation) (line : String) (number : Nat)
    (name : String) :
    (w.addEquation e line number).places name =
      w.places name + if name ∈ e.unknowns then 1 else 0 := by
  change (w.equations ++ [_]).countP _ + _ = _
  rw [List.countP_append, List.countP_singleton, Nat.add_right_comm]
  simp only [decide_eq_true_eq]
  rfl

structure Counted (w : Worksheet α) : Prop where
  allUsed : w.unknowns.AllUsed
  uses_eq : ∀ v, w.unknowns.isSolved v = false → w.unknowns.uses v = w.places (Name.internal v)

theorem counted_empty : (empty : Worksheet α).Counted where
  allUsed := fun _ member => by cases member
  uses_eq := fun _ _ => rfl

/-- The second worksheet has the equations and differential problems of the first one, and its
unknowns came of those of the first one by giving values. -/
structure Settles (w w' : Worksheet α) : Prop where
  equations : w'.equations = w.equations
  differentials : w'.differentials = w.differentials
  unknowns : w.unknowns.Closes w'.unknowns

theorem Settles.refl (w : Worksheet α) : w.Settles w := ⟨rfl, rfl, .refl _⟩

theorem Settles.trans {w during w' : Worksheet α} (first : w.Settles during)
    (second : during.Settles w') : w.Settles w' where
  equations := second.equations.trans first.equations
  differentials := second.differentials.trans first.differentials
  unknowns := first.unknowns.trans second.unknowns

theorem Counted.settles {w w' : Worksheet α} (counted : w.Counted) (settles : w.Settles w') :
    w'.Counted where
  allUsed := fun e member => counted.allUsed e (settles.unknowns.pending member)
  uses_eq := by
    intro v fresh
    obtain ⟨fresh_before, same⟩ := settles.unknowns.fresh v fresh
    rw [uses, same, places, settles.equations, settles.differentials]
    exact counted.uses_eq v fresh_before

theorem Counted.addDifferential {w : Worksheet α} (counted : w.Counted) (d : Differential) :
    (w.addDifferential d).Counted where
  allUsed := AllUsed.foldl_use (u := (w.unknowns.spell d.target).spell d.independent)
    counted.allUsed d.identifiers
  uses_eq := by
    intro v fresh
    rw [isSolved_eq, solved_addDifferential, ← isSolved_eq] at fresh
    rw [places_addDifferential, ← counted.uses_eq v fresh]
    exact uses_foldl_use d.identifiers ((w.unknowns.spell d.target).spell d.independent) v

/-- Distinct names that are kept under themselves count for an unknown once if they name it. -/
theorem countP_internal {names : List String} (distinct : names.Nodup)
    (internal : ∀ v ∈ names, Name.internal v = v) (name : String) :
    names.countP (Name.internal · = name) = if name ∈ names then 1 else 0 := by
  have same : names.countP (Name.internal · = name) = names.count name := by
    rw [List.count_eq_countP]
    apply List.countP_congr
    intro v member
    rw [internal v member, decide_eq_true_eq, beq_iff_eq]
  rw [same, distinct.count]

theorem Counted.addEquation {w : Worksheet α} (counted : w.Counted) {e : LineEquation}
    (distinct : e.unknowns.Nodup) (internal : ∀ v ∈ e.unknowns, Name.internal v = v)
    (line : String) (number : Nat) : (w.addEquation e line number).Counted := by
  have spelled : (useAll w.unknowns e.unknowns).Closes (w.addEquation e line number).unknowns :=
    closes_foldl spell closes_spell _ _
  refine ⟨fun f member => allUsed_useAll counted.allUsed e.unknowns f (spelled.pending member), ?_⟩
  intro v fresh
  obtain ⟨-, same⟩ := spelled.fresh v fresh
  rw [isSolved_eq, solved_addEquation, ← isSolved_eq] at fresh
  rw [uses, same, ← uses, uses_useAll _ _ fresh, countP_internal distinct internal,
    places_addEquation, counted.uses_eq v fresh]

theorem Counted.enterAt {w : Worksheet α} (counted : w.Counted) (mode : AngleMode) (line : String)
    (number : Nat) : (w.enterAt mode line number).1.Counted := by
  have read : { w with lastLine := max w.lastLine number }.Counted :=
    counted.settles ⟨rfl, rfl, .refl _⟩
  cases stated : Statement.ofLine mode line with
  | error e =>
    rw [w.enterAt_of_error stated]
    exact read
  | ok statement =>
    rw [w.enterAt_of_ok stated]
    cases statement with
    | blank => exact read
    | differential d => exact read.addDifferential d
    | equation e =>
      obtain ⟨distinct, internal⟩ :=
        Line.unknowns_of_line (Statement.ofLine_eq_equation_iff.1 stated).2
      exact read.addEquation distinct internal line number

/-! ### Solving -/

theorem settles_apply (w : Worksheet α) (b : SolvedBlock α) : w.Settles (w.apply b) := by
  unfold apply
  split
  next => exact ⟨rfl, rfl, closes_record _ _ _⟩
  next => exact ⟨rfl, rfl, .refl _⟩

variable [Scalar α] (solver : BlockSolver α)

/-- What holds between a worksheet and itself, and of steps in a row, holds of solving if it holds
of taking over one block. -/
theorem rel_solve {R : Worksheet α → Worksheet α → Prop} (refl : ∀ w, R w w)
    (trans : ∀ {w during w'}, R w during → R during w' → R w w')
    (apply : ∀ w b, R w (w.apply b)) (w : Worksheet α) : R w (w.solve solver).worksheet := by
  have singles (r : Run α) (waiting : List Nat) :
      R r.worksheet (solveSingles solver r waiting).1.worksheet := by
    fun_induction solveSingles solver r waiting with
    | case1 r waiting none => exact refl _
    | case2 r waiting id found block ih => exact trans (apply _ _) ih
  have next (r : Run α) (b : EquationBlock) : R r.worksheet (solveNext solver r b).worksheet := by
    unfold solveNext
    split
    next => exact refl _
    next => exact apply _ _
  have blocks (r : Run α) (planned : List EquationBlock) :
      R r.worksheet (planned.foldl (solveNext solver) r).worksheet := by
    induction planned generalizing r with
    | nil => exact refl _
    | cons b later ih => exact trans (next r b) (ih _)
  exact trans (singles ⟨w, []⟩ w.unsolved) (blocks _ _)

theorem settles_solve (w : Worksheet α) : w.Settles (w.solve solver).worksheet :=
  rel_solve solver Settles.refl Settles.trans settles_apply w

/-! ### Any order of operations -/

inductive Operation (α : Type) where
  /-- enters the next line -/
  | enter (mode : AngleMode) (line : String)
  | enterAt (mode : AngleMode) (line : String) (number : Nat)
  /-- adds a differential problem if the line states one -/
  | extract (line : String)
  | spellAll (text : String)
  | setInitial (spelling : String) (value : α)
  /-- solves with any iteration -/
  | solve (solver : BlockSolver α)
  | review (precision : α)
  | fail
  | clear

def operate (w : Worksheet α) : Operation α → Worksheet α
  | .enter mode line => (w.enter mode line).1
  | .enterAt mode line number => (w.enterAt mode line number).1
  | .extract line =>
    match Differential.ofLine? line with
    | some d => w.addDifferential d
    | none => w
  | .spellAll text => w.spellAll text
  | .setInitial spelling value => w.setInitial spelling value
  | .solve solver => (w.solve solver).worksheet
  | .review precision => (w.review precision).1
  | .fail => { w with failed := true }
  | .clear => empty

def operated (operations : List (Operation α)) : Worksheet α := operations.foldl operate empty

/-- No operation leaves a count wrong. -/
theorem Counted.operate {w : Worksheet α} (counted : w.Counted) (operation : Operation α) :
    (w.operate operation).Counted := by
  cases operation with
  | enter mode line => exact counted.enterAt mode line _
  | enterAt mode line number => exact counted.enterAt mode line number
  | extract line =>
    rw [Worksheet.operate]
    split
    next d _ => exact counted.addDifferential d
    next => exact counted
  | spellAll text => exact counted.settles ⟨rfl, rfl, closes_foldl spell closes_spell _ _⟩
  | setInitial spelling value => exact counted.settles ⟨rfl, rfl, .refl _⟩
  | solve solver => exact counted.settles (w.settles_solve solver)
  | review precision =>
    obtain ⟨high, failed, same⟩ := w.review_eq precision
    rw [Worksheet.operate, same]
    exact counted.settles ⟨rfl, rfl, .refl _⟩
  | fail => exact counted.settles ⟨rfl, rfl, .refl _⟩
  | clear => exact counted_empty

theorem counted_operated (operations : List (Operation α)) : (operated operations).Counted :=
  List.foldlRecOn operations operate counted_empty fun _ counted operation _ =>
    counted.operate operation

section Example

def named : List (Operation Rational) :=
  [.enter .radians "k = 2", .solve twos, .enter .radians "y + k = x",
    .enter .radians "Y * k = 3", .extract "y = SolveODE(-k * y, t, 0, 10, y0)",
    .enter .radians "y = (1"]

end Example

/-- At any time, in whatever order lines, solves and all other operations came, an unknown without a
value is used as often as there are equations that list it and identifiers of differential problems
that are kept under it; and it is open just if there are any. -/
theorem uses_eq_places (operations : List (Operation α)) {v : String}
    (internal : Name.internal v = v)
    (unsolved : (operated operations).unknowns.isSolved v = false) :
    let w := operated operations
    let places := (w.equations.filter (v ∈ ·.unknowns)).length +
      ((w.differentials.flatMap (·.identifiers)).filter (Name.internal · = v)).length
    w.unknowns.uses v = places ∧ (w.unknowns.isPending v ↔ 0 < places) := by
  intro w places
  have counted : w.Counted := counted_operated operations
  have uses : w.unknowns.uses v = places := by
    rw [counted.uses_eq v unsolved, internal, Worksheet.places, List.countP_eq_length_filter,
      List.countP_eq_length_filter]
  exact ⟨uses, uses ▸ counted.allUsed.isPending_iff v⟩

theorem named_uses :
    Name.internal "y" = "y" ∧ (operated named).unknowns.isSolved "y" = false ∧
      (operated named).unknowns.uses "y" = 3 := by
  have internal : Name.internal "y" = "y" := by decide
  have unsolved : (operated named).unknowns.isSolved "y" = false := by decide +kernel
  refine ⟨internal, unsolved, (uses_eq_places named internal unsolved).1.trans ?_⟩
  decide +kernel

end Worksheet

end Simultaneous
