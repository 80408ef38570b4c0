import Simultaneous.Proofs.Formula.Cut
import Simultaneous.Proofs.Formula.Grammar

/-!
Rows of tokens as text. Where the tokens of a row may stand next to each other by the grammar, its
text is cut into just these tokens.
-/

namespace Simultaneous.Formula

open Decimal Text

inductive Spelling : Token → List Char → Prop
  | number {s : List Char} {n : Numeral} :
      s ≠ [] → (∀ c ∈ s, c.isDigit ∨ c = '.') → Numeral.read? s = some n → Spelling (.number n) s
  | name {c : Char} {s : List Char} :
      c.isAlpha → (∀ d ∈ c :: s, isWordChar d) → literalToken? (c :: s) = none →
      Spelling (.identifier (String.ofList (c :: s))) (c :: s)
  | mark {c : Char} {t : Token} :
      single? c = some t → t ∈ [.plus, .minus, .star, .slash, .hat, .opener, .closer] →
      Spelling t [c]

inductive Spelled : List Char → List Token → Prop
  | nil : Spelled [] []
  | cons {t : Token} {w s : List Char} {ts : List Token} :
      Spelling t w → Spelled s ts → Spelled (w ++ s) (t :: ts)

theorem Spelled.append {s r : List Char} {ts us : List Token} (front : Spelled s ts)
    (back : Spelled r us) : Spelled (s ++ r) (ts ++ us) := by
  induction front with
  | nil => exact back
  | cons spelling _ ih =>
    rw [List.append_assoc]
    exact .cons spelling ih

theorem Spelled.single {t : Token} {w : List Char} (spelling : Spelling t w) : Spelled w [t] := by
  rw [← List.append_nil w]
  exact .cons spelling .nil

/-! ### Neighbours -/

def Token.startsOperand : Token → Bool
  | .number _ | .identifier _ | .opener | .minus | .plus => true
  | _ => false

def Meets (t u : Token) : Prop :=
  if t.endsOperand then stops (some u) ∨ (t.isIdentifier ∧ u = .opener) else u.startsOperand

instance : DecidableRel Meets := fun t _ =>
  inferInstanceAs (Decidable (if t.endsOperand then _ else _))

structure IsRow (ts : List Token) : Prop where
  chain : ts.IsChain Meets
  first : ∃ t, ts.head? = some t ∧ t.startsOperand
  last : ∃ t, ts.getLast? = some t ∧ t.endsOperand

namespace IsRow

variable {ts us : List Token}

theorem ne_nil (row : IsRow ts) : ts ≠ [] := by
  rintro rfl
  obtain ⟨t, none, -⟩ := row.first
  cases none

theorem meets_first {t : Token} (row : IsRow ts) (before : t.endsOperand = false) :
    ∀ u ∈ ts.head?, Meets t u := by
  intro u first
  obtain ⟨v, same, starts⟩ := row.first
  rw [same] at first
  cases first
  simpa [Meets, before] using starts

theorem last_meets {u : Token} (row : IsRow ts) (stop : stops (some u)) :
    ∀ t ∈ ts.getLast?, Meets t u := by
  intro t last
  obtain ⟨v, same, ends⟩ := row.last
  rw [same] at last
  cases last
  simp [Meets, ends, stop]

theorem cons {t : Token} (row : IsRow ts) (before : t.endsOperand = false) (starts : t.startsOperand) :
    IsRow (t :: ts) := by
  refine ⟨List.isChain_cons.2 ⟨row.meets_first before, row.chain⟩, ⟨t, rfl, starts⟩, ?_⟩
  rw [List.getLast?_cons_of_ne_nil row.ne_nil]
  exact row.last

theorem binary (op : Binary) (left : IsRow ts) (right : IsRow us) : IsRow (ts ++ op.token :: us) := by
  have back : (op.token :: us).IsChain Meets :=
    List.isChain_cons.2 ⟨right.meets_first op.endsOperand_token, right.chain⟩
  refine ⟨List.isChain_append.2 ⟨left.chain, back, ?_⟩, ?_, ?_⟩
  · intro t last u first
    cases first
    exact left.last_meets (stops_token op) t last
  · obtain ⟨t, first, starts⟩ := left.first
    exact ⟨t, by rw [List.head?_append, first]; rfl, starts⟩
  · obtain ⟨t, last, ends⟩ := right.last
    exact ⟨t, by simp [List.getLast?_append, List.getLast?_cons, last], ends⟩

theorem bracket (row : IsRow ts) : IsRow (.opener :: (ts ++ [.closer])) := by
  have closed : (ts ++ [Token.closer]).IsChain Meets := by
    refine List.isChain_append.2 ⟨row.chain, .singleton _, ?_⟩
    intro t last u first
    cases first
    exact row.last_meets rfl t last
  have last : (Token.opener :: (ts ++ [.closer])).getLast? = some .closer := by
    rw [← List.cons_append, List.getLast?_append]
    rfl
  refine ⟨List.isChain_cons.2 ⟨?_, closed⟩, ⟨_, rfl, rfl⟩, ⟨_, last, rfl⟩⟩
  intro u first
  rw [List.head?_append_of_ne_nil _ row.ne_nil] at first
  exact row.meets_first rfl u first

theorem call (f : String) (row : IsRow ts) :
    IsRow (.identifier f :: .opener :: (ts ++ [.closer])) := by
  have brackets := row.bracket
  refine ⟨List.isChain_cons.2 ⟨?_, brackets.chain⟩, ⟨_, rfl, rfl⟩, ?_⟩
  · intro u first
    cases first
    exact .inr ⟨rfl, rfl⟩
  · rw [List.getLast?_cons_of_ne_nil brackets.ne_nil]
    exact brackets.last

end IsRow

theorem isRow_of_reads {l : Level} {ts : List Token} {r : Reading} (reads : Reads l ts r) :
    IsRow ts := by
  induction reads with
  | number n => exact ⟨.singleton _, ⟨_, rfl, rfl⟩, ⟨_, rfl, rfl⟩⟩
  | name s => exact ⟨.singleton _, ⟨_, rfl, rfl⟩, ⟨_, rfl, rfl⟩⟩
  | bracket _ ih => exact ih.bracket
  | call f _ ih => exact ih.call f
  | sign _ _ ih => exact ih.cons rfl rfl
  | binary op _ _ left right => exact left.binary op right
  | lift _ _ ih => exact ih

/-! ### Rows -/

theorem IsLeafText.of_spelling {t : Token} {w : List Char} (spelling : Spelling t w)
    (leaf : t.isLeaf) : IsLeafText t w := by
  cases spelling with
  | @number w n some_chars digits numeral =>
    refine isLeafText_literal some_chars (fun c member => ?_) (literalToken?_of_number digits numeral)
    exact (digits c member).imp_left isWordChar_of_isDigit
  | name letter word no_token => exact isLeafText_name letter word no_token
  | mark _ member =>
    simp only [List.mem_cons, List.not_mem_nil, or_false] at member
    rcases member with rfl | rfl | rfl | rfl | rfl | rfl | rfl <;> cases leaf

theorem Spelled.written {s : List Char} {ts : List Token} (spelled : Spelled s ts) :
    Written s ts := by
  induction spelled with
  | nil => exact .nil
  | @cons t w s ts spelling _ ih =>
    cases spelling with
    | number some_chars digits numeral =>
      exact .leaf (.of_spelling (.number some_chars digits numeral) rfl) ih
    | name letter word no_token => exact .leaf (.of_spelling (.name letter word no_token) rfl) ih
    | mark single member =>
      refine .mark single ?_ ih
      simp only [List.mem_cons, List.not_mem_nil, or_false] at member
      rcases member with rfl | rfl | rfl | rfl | rfl | rfl | rfl <;> trivial

theorem Meets.touches {t u : Token} (meets : Meets t u) : t.Touches u := by
  unfold Meets at meets
  split at meets
  next ends =>
    refine ⟨fun _ => ?_, ?_⟩
    · rcases meets with stop | ⟨-, rfl⟩
      · cases u <;> first | rfl | cases stop
      · rfl
    · rintro rfl
      cases ends
  next begins =>
    refine ⟨fun leaf => ?_, fun _ => ?_⟩
    · cases t <;> first | exact absurd rfl begins | cases leaf
    · constructor <;> rintro rfl <;> cases meets

theorem exists_pieces {s : List Char} {ts : List Token} (spelled : Spelled s ts)
    (chain : ts.IsChain Meets) :
    ∃ ps, pieces s = .ok ps ∧ tokens ps = .ok ts ∧ Heads ps ts :=
  exists_pieces_of_written spelled.written (chain.imp fun _ _ => Meets.touches)

theorem tokenize_of_spelled {s : List Char} {ts : List Token} (spelled : Spelled s ts)
    (chain : ts.IsChain Meets) : tokenize (String.ofList s) = .ok ts :=
  tokenize_of_written spelled.written (chain.imp fun _ _ => Meets.touches)

theorem read_of_written {s : List Char} {ts : List Token} {r : Reading} (written : Written s ts)
    (reads : Reads .sum ts r) : read (String.ofList s) = .ok (.mk .root [r.node]) := by
  have chain := (isRow_of_reads reads).chain
  rw [read, tokenize_of_written written (chain.imp fun _ _ => Meets.touches)]
  exact ofTokens_of_reads reads

/-- The text of a row that the grammar reads is read as the tree of the reading. -/
theorem read_of_reads {s : List Char} {ts : List Token} {r : Reading} (spelled : Spelled s ts)
    (reads : Reads .sum ts r) : read (String.ofList s) = .ok (.mk .root [r.node]) :=
  read_of_written spelled.written reads

end Simultaneous.Formula
