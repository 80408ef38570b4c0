import Mathlib
import Simultaneous.Decimal.Layout

/-!
Rounding of exact decimals. The digits of a number are cut in natural numbers, by quotient and
remainder; what they come to is stated here for rational numbers: the nearest multiple of a power of
ten, and halfway between two of them the even one. The exponent of the leading digit is the integer
logarithm.
-/

namespace Simultaneous.Decimal

/-! ### Nearest integers -/

/-- The nearest integer; halfway between two of them, the even one. -/
def nearest (q : ℚ) : ℤ :=
  if Int.fract q < 1 / 2 then ⌊q⌋
  else if 1 / 2 < Int.fract q then ⌊q⌋ + 1
  else if Even ⌊q⌋ then ⌊q⌋
  else ⌊q⌋ + 1

/-- No integer is nearer, and one that is as near is odd. -/
def IsNearest (q : ℚ) (k : ℤ) : Prop := |q - k| < 1 / 2 ∨ |q - k| = 1 / 2 ∧ Even k

theorem isNearest_nearest (q : ℚ) : IsNearest q (nearest q) := by
  have whole : q - ⌊q⌋ = Int.fract q := Int.self_sub_floor q
  have below : |q - ⌊q⌋| = Int.fract q := by
    rw [whole]
    exact abs_of_nonneg (Int.fract_nonneg q)
  have above : |q - (⌊q⌋ + 1 : ℤ)| = 1 - Int.fract q := by
    have next : q - (⌊q⌋ + 1 : ℤ) = -(1 - Int.fract q) := by
      push_cast
      linarith
    rw [next, abs_neg]
    exact abs_of_pos (sub_pos.2 (Int.fract_lt_one q))
  unfold nearest
  split
  next near =>
    left
    rwa [below]
  next not_near =>
    split
    next far =>
      left
      rw [above]
      linarith
    next not_far =>
      have half : Int.fract q = 1 / 2 := le_antisymm (not_lt.1 not_far) (not_lt.1 not_near)
      split
      next even => exact .inr ⟨below.trans half, even⟩
      next odd =>
        refine .inr ⟨?_, Int.even_add_one.2 odd⟩
        rw [above, half]
        norm_num

theorem IsNearest.le_half {q : ℚ} {k : ℤ} (near : IsNearest q k) : |q - k| ≤ 1 / 2 :=
  near.elim le_of_lt fun tie => tie.1.le

theorem IsNearest.unique {q : ℚ} {k l : ℤ} (first : IsNearest q k) (second : IsNearest q l) :
    k = l := by
  by_contra differ
  have apart : (1 : ℚ) ≤ |(k : ℚ) - l| := by
    have integers : 1 ≤ |k - l| := Int.one_le_abs (sub_ne_zero.2 differ)
    exact_mod_cast integers
  have between : |(k : ℚ) - l| ≤ |q - k| + |q - l| := by
    rw [abs_sub_comm q k]
    exact abs_sub_le (k : ℚ) q l
  rcases first with near | ⟨half, even⟩
  · linarith [second.le_half]
  · rcases second with near | ⟨other_half, other_even⟩
    · linarith
    · have close : |k - l| ≤ 1 := by
        have rational : |(k : ℚ) - l| ≤ 1 := by linarith
        exact_mod_cast rational
      obtain ⟨j, twice⟩ := even.sub other_even
      rw [twice] at close
      have bounds := abs_le.1 close
      omega

theorem nearest_eq_of_isNearest {q : ℚ} {k : ℤ} (near : IsNearest q k) : nearest q = k :=
  (isNearest_nearest q).unique near

theorem nearest_intCast (k : ℤ) : nearest k = k := by
  apply nearest_eq_of_isNearest
  left
  norm_num

theorem nearest_neg (q : ℚ) : nearest (-q) = -nearest q := by
  apply nearest_eq_of_isNearest
  have mirrored : |-q - (-nearest q : ℤ)| = |q - nearest q| := by
    push_cast
    rw [← abs_neg]
    ring_nf
  rw [IsNearest, mirrored, even_neg]
  exact isNearest_nearest q

theorem nearest_le {q : ℚ} {k : ℤ} (below : q ≤ k) : nearest q ≤ k := by
  have bound := (abs_le.1 (isNearest_nearest q).le_half).1
  have rational : (nearest q : ℚ) < k + 1 := by linarith
  have integers : nearest q < k + 1 := by exact_mod_cast rational
  omega

section Quotient

variable (num : Nat) {den : Nat} (positive : 0 < den)

include positive

theorem abs_div_sub_quotient : |(num : ℚ) / den - (num / den : ℕ)| = (num % den : ℕ) / den := by
  have den_pos : (0 : ℚ) < den := Nat.cast_pos.2 positive
  have split_eq : (num : ℚ) = den * (num / den : ℕ) + (num % den : ℕ) := by
    exact_mod_cast (Nat.div_add_mod num den).symm
  have remainder : (num : ℚ) / den - (num / den : ℕ) = (num % den : ℕ) / den := by
    rw [split_eq]
    field_simp
    ring
  rw [remainder]
  exact abs_of_nonneg (by positivity)

theorem abs_div_sub_next :
    |(num : ℚ) / den - (num / den + 1 : ℕ)| = (den - (num % den : ℕ)) / den := by
  have den_pos : (0 : ℚ) < den := Nat.cast_pos.2 positive
  have below : ((num % den : ℕ) : ℚ) < den := Nat.cast_lt.2 (Nat.mod_lt num positive)
  have split_eq : (num : ℚ) = den * (num / den : ℕ) + (num % den : ℕ) := by
    exact_mod_cast (Nat.div_add_mod num den).symm
  have missing : (num : ℚ) / den - (num / den + 1 : ℕ) = -((den - (num % den : ℕ)) / den) := by
    push_cast
    rw [split_eq]
    field_simp
    ring
  rw [missing, abs_neg]
  exact abs_of_nonneg (div_nonneg (sub_nonneg.2 below.le) den_pos.le)

theorem roundHalfEven_eq_nearest : (roundHalfEven num den : ℤ) = nearest (num / den) := by
  have den_pos : (0 : ℚ) < den := Nat.cast_pos.2 positive
  have even_iff : Even ((num / den : ℕ) : ℤ) ↔ num / den % 2 = 0 := by
    rw [Int.even_coe_nat, Nat.even_iff]
  symm
  apply nearest_eq_of_isNearest
  unfold roundHalfEven IsNearest
  simp only
  split
  next near =>
    left
    have rational : 2 * ((num % den : ℕ) : ℚ) < den := by exact_mod_cast near
    rw [Int.cast_natCast, abs_div_sub_quotient num positive, div_lt_iff₀ den_pos]
    linarith
  next not_near =>
    split
    next far =>
      left
      have rational : (den : ℚ) < 2 * ((num % den : ℕ) : ℚ) := by exact_mod_cast far
      rw [Int.cast_natCast, abs_div_sub_next num positive, div_lt_iff₀ den_pos]
      linarith
    next not_far =>
      right
      have tie : (den : ℚ) = 2 * ((num % den : ℕ) : ℚ) := by
        have integers : den = 2 * (num % den) := by omega
        exact_mod_cast integers
      split
      next even =>
        rw [Int.cast_natCast, abs_div_sub_quotient num positive, even_iff, div_eq_iff den_pos.ne']
        exact ⟨by linarith, even⟩
      next odd =>
        rw [Int.cast_natCast, abs_div_sub_next num positive, div_eq_iff den_pos.ne']
        refine ⟨by linarith, ?_⟩
        push_cast
        exact Int.even_add_one.2 (mt even_iff.1 odd)

end Quotient

/-! ### Decimals -/

namespace Exact

def value (x : Exact) : ℚ := x.units / 10 ^ x.places

theorem round_eq_nearest (x : Exact) (places : ℤ) :
    (x.round places : ℤ) = nearest (x.value * 10 ^ places) := by
  have moved : x.value * 10 ^ places = x.units * (10 : ℚ) ^ (places - x.places) := by
    rw [value, zpow_sub₀ (by norm_num), zpow_natCast]
    ring
  rw [moved]
  unfold round
  simp only
  split
  next finer =>
    obtain ⟨k, same⟩ := Int.eq_ofNat_of_zero_le finer
    rw [same, zpow_natCast, Int.toNat_natCast, Nat.pow_eq]
    exact_mod_cast (nearest_intCast (x.units * 10 ^ k : ℕ)).symm
  next coarser =>
    obtain ⟨k, same⟩ : ∃ k : ℕ, places - x.places = -k := ⟨(x.places - places).toNat, by omega⟩
    rw [same, neg_neg, Int.toNat_natCast, Nat.pow_eq,
      roundHalfEven_eq_nearest _ (Nat.pow_pos (by norm_num)), zpow_neg, zpow_natCast,
      ← div_eq_mul_inv]
    push_cast
    rfl

end Exact

theorem digitCount_eq_log (n : Nat) : digitCount n = Nat.log 10 n + 1 := by
  induction n using Nat.strong_induction_on with
  | _ n ih =>
    rw [digitCount]
    split
    next small => rw [Nat.log_of_lt small]
    next large =>
      have shorter : n / 10 < n := by omega
      rw [ih (n / 10) shorter, Nat.log_of_one_lt_of_le (by norm_num) (not_lt.1 large)]

theorem Exact.value_pos {x : Exact} (nonzero : x.units ≠ 0) : 0 < x.value :=
  div_pos (Nat.cast_pos.2 (Nat.pos_of_ne_zero nonzero)) (by positivity)

theorem Exact.lt_pow_leading (x : Exact) : x.value < 10 ^ (x.leading + 1) := by
  have units : (x.units : ℚ) < (10 : ℚ) ^ (Nat.log 10 x.units + 1) := by
    exact_mod_cast Nat.lt_pow_succ_log_self (by norm_num : 1 < 10) x.units
  have exponent : x.leading + 1 = ((Nat.log 10 x.units + 1 : ℕ) : ℤ) - x.places := by
    rw [Exact.leading, digitCount_eq_log]
    push_cast
    ring
  rw [exponent, zpow_sub₀ (by norm_num), zpow_natCast, zpow_natCast, Exact.value]
  exact div_lt_div_of_pos_right units (by positivity)

theorem Exact.pow_leading_le {x : Exact} (nonzero : x.units ≠ 0) : 10 ^ x.leading ≤ x.value := by
  have units : (10 : ℚ) ^ Nat.log 10 x.units ≤ x.units := by
    exact_mod_cast Nat.pow_log_le_self 10 nonzero
  have exponent : x.leading = (Nat.log 10 x.units : ℤ) - x.places := by
    rw [Exact.leading, digitCount_eq_log]
    push_cast
    ring
  rw [exponent, zpow_sub₀ (by norm_num), zpow_natCast, zpow_natCast, Exact.value]
  exact div_le_div_of_nonneg_right units (by positivity)

theorem Exact.leading_eq_log {x : Exact} (nonzero : x.units ≠ 0) :
    x.leading = Int.log 10 x.value := by
  have positive := x.value_pos nonzero
  have at_least := (Int.zpow_le_iff_le_log (by norm_num : 1 < 10) positive).1
    (by exact_mod_cast x.pow_leading_le nonzero)
  have at_most := (Int.lt_zpow_iff_log_lt (by norm_num : 1 < 10) positive).1
    (by exact_mod_cast x.lt_pow_leading)
  omega

/-- Rounded behind its leading digit, a number does not pass the next power of ten. -/
theorem Exact.round_leading_le (x : Exact) (places : Nat) :
    x.round (places - x.leading) ≤ 10 ^ (places + 1) := by
  have below : x.value * 10 ^ ((places : ℤ) - x.leading) ≤ ((10 ^ (places + 1) : ℕ) : ℤ) := by
    calc x.value * 10 ^ ((places : ℤ) - x.leading)
        ≤ 10 ^ (x.leading + 1) * 10 ^ ((places : ℤ) - x.leading) :=
          mul_le_mul_of_nonneg_right x.lt_pow_leading.le (by positivity)
      _ = 10 ^ ((places : ℤ) + 1) := by
          rw [← zpow_add₀ (by norm_num)]
          congr 1
          ring
      _ = ((10 ^ (places + 1) : ℕ) : ℤ) := by
          push_cast
          exact_mod_cast zpow_natCast (10 : ℚ) (places + 1)
  have integers := nearest_le below
  rw [← x.round_eq_nearest] at integers
  exact_mod_cast integers

/-! ### Rounding to places -/

def toPlaces (places : ℤ) (q : ℚ) : ℚ := nearest (q * 10 ^ places) / 10 ^ places

def toSignificant (digits : ℤ) (q : ℚ) : ℚ := toPlaces (digits - 1 - Int.log 10 |q|) q

theorem toPlaces_neg (places : ℤ) (q : ℚ) : toPlaces places (-q) = -toPlaces places q := by
  rw [toPlaces, toPlaces, neg_mul, nearest_neg]
  push_cast
  ring

theorem toSignificant_neg (digits : ℤ) (q : ℚ) :
    toSignificant digits (-q) = -toSignificant digits q := by
  rw [toSignificant, abs_neg, toPlaces_neg, toSignificant]

/-- Carrying the first digit over to the next power of ten does not change what is written. -/
theorem scientificParts_eq {x : Exact} (nonzero : x.units ≠ 0) (places : Nat) :
    ((scientificParts places x).1 : ℚ) * 10 ^ ((scientificParts places x).2 - places) =
      toSignificant (places + 1) x.value := by
  have log : Int.log 10 |x.value| = x.leading := by
    rw [abs_of_pos (x.value_pos nonzero), x.leading_eq_log nonzero]
  have step : (places : ℤ) + 1 - 1 - x.leading = places - x.leading := by ring
  have rounded : ((x.round (places - x.leading) : ℕ) : ℚ) =
      nearest (x.value * 10 ^ ((places : ℤ) - x.leading)) := by
    rw [← x.round_eq_nearest, Int.cast_natCast]
  have ceiling := x.round_leading_le places
  rw [toSignificant, log, step, toPlaces, ← rounded, div_eq_mul_inv, ← zpow_neg, neg_sub]
  unfold scientificParts
  simp only
  split
  next fits => rfl
  next carried =>
    have full : x.round (places - x.leading) = 10 ^ places * 10 := by
      rw [Nat.pow_eq] at carried
      omega
    rw [full, Nat.mul_div_cancel _ (by norm_num)]
    push_cast
    rw [add_sub_right_comm, zpow_add_one₀ (by norm_num)]
    ring

end Simultaneous.Decimal
