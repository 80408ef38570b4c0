import Mathlib
import Simultaneous.Property.Call
import Simultaneous.Proofs.Text.Cut

/-!
Arguments in the places of parameters. A formula is cut into words, each as long as it can be, and
other characters; every text is cut in one way. All words that name a parameter are replaced at once,
and what is put in their places is never looked at again. Main statement: the equation that a call
states is its first argument, an equality sign, and the formula with the other arguments in the
places of its parameters, of which there are as many.
-/

namespace Simultaneous

open Text Name

/-! ### Words of a formula -/

inductive FormulaPart where
  /-- a run of letters, digits and underscores -/
  | word (w : List Char)
  | other (c : Char)

/-- How a text is cut: a word ends where no letter, digit or underscore follows. -/
inductive CutsInto : List Char → List FormulaPart → Prop where
  | nil : CutsInto [] []
  | other {c : Char} {s : List Char} {parts : List FormulaPart} : isNameChar c = false →
      CutsInto s parts → CutsInto (c :: s) (.other c :: parts)
  | word {w s : List Char} {parts : List FormulaPart} : w ≠ [] → (∀ c ∈ w, isNameChar c) →
      (∀ c, s.head? = some c → isNameChar c = false) → CutsInto s parts →
      CutsInto (w ++ s) (.word w :: parts)

theorem exists_cutsInto (s : List Char) : ∃ parts, CutsInto s parts := by
  induction length : s.length using Nat.strong_induction_on generalizing s with
  | _ n ih =>
    subst length
    cases s with
    | nil => exact ⟨[], .nil⟩
    | cons c rest =>
      cases name : isNameChar c with
      | false =>
        obtain ⟨parts, cut⟩ := ih rest.length (Nat.lt_succ_self _) rest rfl
        exact ⟨.other c :: parts, .other name cut⟩
      | true =>
        set w := (c :: rest).takeWhile isNameChar with w_eq
        set later := (c :: rest).dropWhile isNameChar with later_eq
        have together : w ++ later = c :: rest := List.takeWhile_append_dropWhile
        have nonempty : w ≠ [] := by
          rw [w_eq, List.takeWhile_cons_of_pos name]
          exact List.cons_ne_nil _ _
        have shorter : later.length < (c :: rest).length := by
          have total := congrArg List.length together
          have pos := List.length_pos_of_ne_nil nonempty
          rw [List.length_append] at total
          omega
        obtain ⟨parts, cut⟩ := ih later.length shorter later rfl
        refine ⟨.word w :: parts, ?_⟩
        rw [← together]
        refine .word nonempty (fun d member => List.mem_takeWhile_imp member) ?_ cut
        intro d first
        rw [later_eq] at first
        simpa [first] using List.head?_dropWhile_not isNameChar (c :: rest)

namespace PropertyFormula

variable {change : List Char → List Char}

theorem mapRuns_run {run : List Char} (name : ∀ c ∈ run, isNameChar c) (word s : List Char) :
    mapRuns change word (run ++ s) = mapRuns change (run.reverse ++ word) s := by
  induction run generalizing word with
  | nil => rfl
  | cons c run ih =>
    obtain ⟨first, others⟩ := List.forall_mem_cons.1 name
    rw [List.cons_append, mapRuns, if_pos first, ih others, List.reverse_cons, List.append_assoc]
    rfl

theorem mapRuns_end (empty : change [] = []) (word : List Char) {s : List Char}
    (ends : ∀ c, s.head? = some c → isNameChar c = false) :
    mapRuns change word s = change word.reverse ++ mapRuns change [] s := by
  cases s with
  | nil =>
    rw [mapRuns, mapRuns, List.reverse_nil, empty, List.append_nil]
  | cons c s =>
    have other : ¬isNameChar c = true := Bool.eq_false_iff.1 (ends c rfl)
    rw [mapRuns, mapRuns, if_neg other, if_neg other, List.reverse_nil, empty, List.nil_append]

def changed (change : List Char → List Char) : FormulaPart → List Char
  | .word w => change w
  | .other c => [c]

/-- However a text is cut, its words are changed and all else is kept. -/
theorem mapRuns_of_cutsInto (empty : change [] = []) {s : List Char} {parts : List FormulaPart}
    (cut : CutsInto s parts) : mapRuns change [] s = parts.flatMap (changed change) := by
  induction cut with
  | nil =>
    rw [mapRuns]
    exact empty
  | @other c s parts other cut ih =>
    rw [mapRuns, if_neg (Bool.eq_false_iff.1 other), List.reverse_nil, empty, ih]
    rfl
  | @word w s parts nonempty name ends cut ih =>
    calc
      mapRuns change [] (w ++ s) = mapRuns change (w.reverse ++ []) s := mapRuns_run name [] s
      _ = change w ++ mapRuns change [] s := by
        rw [List.append_nil, mapRuns_end empty _ ends, List.reverse_reverse]
      _ = (FormulaPart.word w :: parts).flatMap (changed change) := by rw [ih]; rfl

/-! ### Arguments for words -/

def StartsWithLetter (w : List Char) : Prop := ∃ c, w.head? = some c ∧ c.isAlpha

def SameInAnyCase (name : String) (w : List Char) : Prop := lower name.toList = lower w

structure IsNamedFirst (parameters : List String) (w : List Char) (i : Nat) : Prop where
  letter : StartsWithLetter w
  same : ∃ name, parameters[i]? = some name ∧ SameInAnyCase name w
  first : ∀ j < i, ∀ name, parameters[j]? = some name → ¬SameInAnyCase name w

inductive Replaces (parameters : List String) (inputs : List (List Char)) :
    FormulaPart → List Char → Prop where
  | argument {w : List Char} {i : Nat} {input : List Char} : IsNamedFirst parameters w i →
      inputs[i]? = some input → Replaces parameters inputs (.word w) ('(' :: input ++ [')'])
  | kept {w : List Char} : (∀ i, ¬IsNamedFirst parameters w i) →
      Replaces parameters inputs (.word w) w
  | other {c : Char} : Replaces parameters inputs (.other c) [c]

def Substitutes (f : PropertyFormula) (inputs : List (List Char)) (body : List Char) : Prop :=
  ∃ parts texts, CutsInto f.formula.toList parts ∧
    List.Forall₂ (Replaces f.parameters inputs) parts texts ∧ body = texts.flatten

section Arguments

variable {parameters : List String} {inputs : List (List Char)} {w input : List Char}

theorem head?_any_iff : w.head?.any Char.isAlpha = true ↔ StartsWithLetter w := by
  rw [Option.any_eq_true]
  exact Iff.rfl

theorem IsNamedFirst.unique {i j : Nat} (one : IsNamedFirst parameters w i)
    (other : IsNamedFirst parameters w j) : i = j := by
  obtain ⟨name, at_i, same⟩ := one.same
  obtain ⟨name', at_j, same'⟩ := other.same
  rcases Nat.lt_trichotomy i j with less | rfl | greater
  · exact absurd same (other.first i less name at_i)
  · rfl
  · exact absurd same' (one.first j greater name' at_j)

theorem argumentFor?_eq_some_iff (as_many : inputs.length = parameters.length) :
    argumentFor? (parameters.zip inputs) w = some input ↔
      ∃ i, IsNamedFirst parameters w i ∧ inputs[i]? = some input := by
  rw [argumentFor?]
  split
  next letter =>
    rw [head?_any_iff] at letter
    rw [Option.map_eq_some_iff]
    constructor
    · rintro ⟨⟨name, found⟩, search, rfl⟩
      obtain ⟨same, i, inside, at_i, first⟩ := List.find?_eq_some_iff_getElem.1 search
      obtain ⟨name_eq, input_eq⟩ := Prod.mk.inj ((List.getElem_zip).symm.trans at_i)
      rw [List.length_zip] at inside
      have same : lower name.toList = lower w := of_decide_eq_true same
      refine ⟨i, ⟨letter, ⟨name, ?_, same⟩, ?_⟩, ?_⟩
      · rw [← name_eq]
        exact List.getElem?_eq_getElem _
      · intro j less other at_j same_j
        have none := first j less
        obtain ⟨within, other_eq⟩ := List.getElem?_eq_some_iff.1 at_j
        simp only [List.getElem_zip, other_eq, Bool.not_eq_true', decide_eq_false_iff_not] at none
        exact none same_j
      · rw [← input_eq]
        exact List.getElem?_eq_getElem _
    · rintro ⟨i, ⟨-, ⟨name, at_i, same⟩, first⟩, input_eq⟩
      refine ⟨(name, input), ?_, rfl⟩
      have pair : (parameters.zip inputs)[i]? = some (name, input) :=
        List.getElem?_zip_eq_some.2 ⟨at_i, input_eq⟩
      obtain ⟨inside, entry⟩ := List.getElem?_eq_some_iff.1 pair
      refine List.find?_eq_some_iff_getElem.2 ⟨decide_eq_true same, i, inside, entry, ?_⟩
      intro j less
      rw [List.length_zip] at inside
      have within : j < parameters.length := by omega
      have other : ¬lower parameters[j].toList = lower w :=
        first j less parameters[j] (List.getElem?_eq_getElem within)
      simpa only [List.getElem_zip, Bool.not_eq_true', decide_eq_false_iff_not] using other
  next digit =>
    refine iff_of_false nofun ?_
    rintro ⟨i, named, -⟩
    exact digit (head?_any_iff.2 named.letter)

theorem replaces_word_iff (as_many : inputs.length = parameters.length) (text : List Char) :
    Replaces parameters inputs (.word w) text ↔
      text = match argumentFor? (parameters.zip inputs) w with
        | some argument => '(' :: argument ++ [')']
        | none => w := by
  cases found : argumentFor? (parameters.zip inputs) w with
  | some argument =>
    obtain ⟨i, named, at_i⟩ := (argumentFor?_eq_some_iff as_many).1 found
    constructor
    · rintro (⟨named', at_j⟩ | unnamed)
      · cases named.unique named'
        cases at_i.symm.trans at_j
        rfl
      · exact absurd named (unnamed i)
    · rintro rfl
      exact .argument named at_i
  | none =>
    have unnamed (i : Nat) : ¬IsNamedFirst parameters w i := by
      intro named
      obtain ⟨name, at_i, -⟩ := named.same
      obtain ⟨inside, -⟩ := List.getElem?_eq_some_iff.1 at_i
      have given : inputs[i]? = some inputs[i] := List.getElem?_eq_getElem _
      have other := (argumentFor?_eq_some_iff as_many).2 ⟨i, named, given⟩
      cases found.symm.trans other
    constructor
    · rintro (⟨named, -⟩ | -)
      · exact absurd named (unnamed _)
      · rfl
    · rintro rfl
      exact .kept unnamed

/-- With as many arguments as parameters, a formula takes them in one way. -/
theorem substitutes_iff (f : PropertyFormula) (as_many : inputs.length = f.parameters.length)
    (body : List Char) : f.Substitutes inputs body ↔ body = f.apply inputs := by
  set change : List Char → List Char := fun word =>
    match argumentFor? (f.parameters.zip inputs) word with
    | some argument => '(' :: argument ++ [')']
    | none => word
  have applied {parts : List FormulaPart} (cut : CutsInto f.formula.toList parts) :
      f.apply inputs = parts.flatMap (changed change) := mapRuns_of_cutsInto rfl cut
  have replaces (part : FormulaPart) (text : List Char) :
      Replaces f.parameters inputs part text ↔ text = changed change part := by
    cases part with
    | word w => exact replaces_word_iff as_many text
    | other c =>
      constructor
      · rintro ⟨⟩
        rfl
      · rintro rfl
        exact .other
  have all (parts : List FormulaPart) (texts : List (List Char)) :
      List.Forall₂ (Replaces f.parameters inputs) parts texts ↔
        texts = parts.map (changed change) := by
    have matched : Replaces f.parameters inputs = fun part text => changed change part = text := by
      funext part text
      exact propext ((replaces part text).trans eq_comm)
    rw [matched, ← List.forall₂_map_left_iff, List.forall₂_eq_eq_eq, eq_comm]
  constructor
  · rintro ⟨parts, texts, cut, matched, rfl⟩
    rw [(all parts texts).1 matched, applied cut, List.flatMap_def]
  · rintro rfl
    obtain ⟨parts, cut⟩ := exists_cutsInto f.formula.toList
    refine ⟨parts, parts.map (changed change), cut, (all _ _).2 rfl, ?_⟩
    rw [applied cut, List.flatMap_def]

end Arguments

end PropertyFormula

/-! ### Lines that call a property -/

structure WrittenCall where
  substance : List Char
  property : List Char
  /-- the output and the inputs -/
  arguments : List (List Char)

namespace WrittenCall

def text (c : WrittenCall) : List Char :=
  c.substance ++ '.' :: (c.property ++ '(' :: ([','].intercalate c.arguments ++ [')']))

/-- No part holds the mark that ends it, and none is blank. -/
structure IsProper (c : WrittenCall) : Prop where
  substance_ends : '.' ∉ c.substance
  property_ends : '(' ∉ c.property
  argument_ends : ∀ a ∈ c.arguments, ',' ∉ a
  substance_shows : trim c.substance ≠ []
  property_shows : trim c.property ≠ []
  argument_shows : ∀ a ∈ c.arguments, trim a ≠ []

end WrittenCall

namespace PropertyCall

theorem cutArguments?_eq_some_iff {s property arguments : List Char} :
    cutArguments? s = some (property, arguments) ↔
      '(' ∉ property ∧ s = property ++ '(' :: (arguments ++ [')']) := by
  rw [cutArguments?, Option.bind_eq_some_iff]
  constructor
  · rintro ⟨⟨before, rest⟩, cut, closed⟩
    simp only at closed
    split at closed
    next last =>
      cases closed
      obtain ⟨front, rfl⟩ := List.getLast?_eq_some_iff.1 last
      rw [List.dropLast_concat]
      exact cutAt?_eq_some_iff.1 cut
    next => cases closed
  · rintro ⟨absent, rfl⟩
    refine ⟨_, cutAt?_eq_some_iff.2 ⟨absent, rfl⟩, ?_⟩
    simp only [List.getLast?_concat, if_true, List.dropLast_concat]

theorem exists_of_read {line rest : List Char} {substance : String} {call : PropertyCall}
    (accepted : read line substance rest = .ok call) :
    ∃ property arguments, ('(' ∉ property ∧ ∀ a ∈ arguments, ',' ∉ a) ∧
      rest = property ++ '(' :: ([','].intercalate arguments ++ [')']) ∧
      (trim property ≠ [] ∧ ∀ a ∈ arguments, trim a ≠ []) ∧
      arguments.map trim = call.output :: call.inputs ∧
      call.substance = substance ∧ call.property = String.ofList (trim property) := by
  unfold read at accepted
  split at accepted
  next => cases accepted
  next property inside cut =>
    obtain ⟨ends, rfl⟩ := cutArguments?_eq_some_iff.1 cut
    obtain ⟨-, apart, together⟩ := pieces_eq_iff.1 (rfl : pieces (· == ',') inside = _)
    refine ⟨property, pieces (· == ',') inside, ⟨ends, apart⟩, by rw [together], ?_⟩
    simp only at accepted
    split at accepted
    next => cases accepted
    next shows =>
      split at accepted
      next => cases accepted
      next =>
        split at accepted
        next => cases accepted
        next all_show =>
          split at accepted
          next => cases accepted
          next output inputs parts =>
            cases accepted
            refine ⟨⟨fun none => shows (List.isEmpty_iff.2 none), fun a member none => ?_⟩, parts,
              rfl, rfl⟩
            exact all_show (List.any_eq_true.2
              ⟨trim a, List.mem_map_of_mem member, List.isEmpty_iff.2 none⟩)

theorem read_of_parts (line : List Char) (substance : String) {property output : List Char}
    {arguments inputs : List (List Char)} (ends : '(' ∉ property) (apart : ∀ a ∈ arguments, ',' ∉ a)
    (shows : trim property ≠ []) (all_show : ∀ a ∈ arguments, trim a ≠ [])
    (parts : arguments.map trim = output :: inputs) :
    read line substance (property ++ '(' :: ([','].intercalate arguments ++ [')'])) =
      .ok ⟨substance, String.ofList (trim property), output, inputs⟩ := by
  have some_argument : arguments ≠ [] := by
    rintro rfl
    cases parts
  have cut : cutArguments? (property ++ '(' :: ([','].intercalate arguments ++ [')'])) =
      some (property, [','].intercalate arguments) := cutArguments?_eq_some_iff.2 ⟨ends, rfl⟩
  have split : pieces (· == ',') ([','].intercalate arguments) = arguments :=
    pieces_eq_iff.2 ⟨some_argument, apart, rfl⟩
  have named : (trim property).isEmpty = false := by
    rw [Bool.eq_false_iff]
    exact fun none => shows (List.isEmpty_iff.1 none)
  have none_empty : (arguments.map trim).any List.isEmpty = false := by
    rw [List.any_eq_false]
    intro a member none
    obtain ⟨b, own, rfl⟩ := List.mem_map.1 member
    exact all_show b own (List.isEmpty_iff.1 none)
  have not_all_empty : (arguments.map trim).all List.isEmpty = false := by
    obtain ⟨a, member⟩ := List.exists_mem_of_ne_nil _ some_argument
    refine List.all_eq_false.2 ⟨trim a, List.mem_map_of_mem member, fun none => ?_⟩
    exact all_show a member (List.isEmpty_iff.1 none)
  unfold read
  rw [cut]
  simp only [split, none_empty, not_all_empty, named, Bool.false_eq_true, if_false]
  rw [parts]

theorem equation_eq_ok_iff {call : PropertyCall} {t : PropertyTable} {text : List Char} :
    call.equation t = .ok text ↔
      ∃ f, t.find? call.substance call.property = some f ∧
        call.inputs.length = f.parameters.length ∧
        text = call.output ++ '=' :: f.apply call.inputs := by
  unfold equation
  cases found : t.find? call.substance call.property with
  | none => simp
  | some f =>
    simp only [Option.some.injEq, exists_eq_left']
    split
    next as_many =>
      rw [Except.ok.injEq, eq_comm]
      exact (and_iff_right as_many).symm
    next other => exact iff_of_false nofun fun both => other both.1

end PropertyCall

namespace PropertyTable

variable {t : PropertyTable}

theorem hasSubstance_of_find? {substance property : String} {f : PropertyFormula}
    (found : t.find? substance property = some f) : t.hasSubstance substance = true := by
  obtain ⟨properties, listed, -⟩ := Option.bind_eq_some_iff.1 found
  rw [hasSubstance, Assoc.contains, listed]
  rfl

theorem isEmpty_ofList (s : List Char) : (String.ofList s).isEmpty = s.isEmpty := by
  rw [Bool.eq_iff_iff, String.isEmpty_iff, List.isEmpty_iff, ← String.toList_inj,
    String.toList_ofList]
  rfl

theorem substitute_eq_ok_iff_stated {line text : String} :
    t.substitute line = .ok (some text) ↔
      ∃ substance rest call, cutAt? '.' (trim line.toList) = some (substance, rest) ∧
        trim substance ≠ [] ∧ t.hasSubstance (String.ofList (trim substance)) = true ∧
        PropertyCall.read (trim line.toList) (String.ofList (trim substance)) rest = .ok call ∧
        call.equation t = .ok text.toList := by
  unfold substitute
  simp only
  constructor
  · intro accepted
    split at accepted
    next => cases accepted
    next substance rest cut =>
      split at accepted
      next => cases accepted
      next known =>
        rw [Bool.or_eq_true, not_or, isEmpty_ofList, List.isEmpty_iff, Bool.not_eq_true',
          Bool.not_eq_false] at known
        split at accepted
        next => cases accepted
        next call read =>
          cases stated : call.equation t with
          | error e =>
            rw [stated] at accepted
            cases accepted
          | ok equation =>
            rw [stated] at accepted
            cases accepted
            refine ⟨substance, rest, call, cut, known.1, known.2, read, ?_⟩
            rw [stated, String.toList_ofList]
  · rintro ⟨substance, rest, call, cut, shows, known, read, stated⟩
    have passes : ((String.ofList (trim substance)).isEmpty ||
        !t.hasSubstance (String.ofList (trim substance))) = false := by
      rw [isEmpty_ofList, known, Bool.or_eq_false_iff, Bool.eq_false_iff]
      exact ⟨mt List.isEmpty_iff.1 shows, rfl⟩
    rw [cut]
    simp only [passes, Bool.false_eq_true, if_false]
    rw [read]
    simp only [stated, Except.map, String.ofList_toList]

/-- A line comes to an equation just if it calls a property that the table has, with one argument
more than the formula of the property has parameters. The equation is the first argument, an equality
sign, and the formula in which, all at once, every word that starts with a letter and is in any case
the name of a parameter stands replaced by the argument at the place of the first such parameter, in
brackets. -/
theorem substitute_eq_ok_some_iff (t : PropertyTable) (line text : String) :
    t.substitute line = .ok (some text) ↔
      ∃ c : WrittenCall, trim line.toList = c.text ∧ c.IsProper ∧
        ∃ f, t.find? (String.ofList (trim c.substance)) (String.ofList (trim c.property)) = some f ∧
          c.arguments.length = f.parameters.length + 1 ∧
          ∃ output inputs body, c.arguments.map trim = output :: inputs ∧
            f.Substitutes inputs body ∧ text.toList = output ++ '=' :: body := by
  rw [substitute_eq_ok_iff_stated]
  constructor
  · rintro ⟨substance, rest, call, cut, shows, -, read, equation⟩
    obtain ⟨ends, line_eq⟩ := cutAt?_eq_some_iff.1 cut
    obtain ⟨property, arguments, ⟨property_ends, apart⟩, rfl, ⟨property_shows, all_show⟩, split, own,
      named⟩ := PropertyCall.exists_of_read read
    obtain ⟨f, found, as_many, same⟩ := PropertyCall.equation_eq_ok_iff.1 equation
    rw [own, named] at found
    refine ⟨⟨substance, property, arguments⟩, line_eq,
      ⟨ends, property_ends, apart, shows, property_shows, all_show⟩, f, found, ?_, call.output,
      call.inputs, f.apply call.inputs, split, (f.substitutes_iff as_many _).2 rfl, same⟩
    rw [← as_many, ← List.length_map, split, List.length_cons]
  · rintro ⟨c, line_eq, proper, f, found, as_many, output, inputs, body, split, substitutes, same⟩
    have inputs_length : inputs.length = f.parameters.length := by
      have total := congrArg List.length split
      rw [List.length_map, List.length_cons] at total
      omega
    refine ⟨c.substance, _, _, cutAt?_eq_some_iff.2 ⟨proper.substance_ends, line_eq⟩,
      proper.substance_shows, hasSubstance_of_find? found,
      PropertyCall.read_of_parts _ _ proper.property_ends proper.argument_ends
        proper.property_shows proper.argument_shows split,
      PropertyCall.equation_eq_ok_iff.2 ⟨f, found, inputs_length, ?_⟩⟩
    rw [same, (f.substitutes_iff inputs_length body).1 substitutes]

/-- An input may name another parameter, and a parameter may begin another word. -/
example : (empty.insert "Water" "Density" ⟨"1000-0.2*T+p_ref*T2", ["T", "P_Ref"]⟩).substitute
    " water.density(rho, p_ref+1, t)" = .ok (some "rho=1000-0.2*(p_ref+1)+(t)*T2") := by
  decide +kernel

end PropertyTable

end Simultaneous
