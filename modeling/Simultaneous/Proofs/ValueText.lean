import Simultaneous.Proofs.Decimal.Reading

/-!
The text of a value read back. A floating-point number is a binary fraction, whose decimal is exact;
among such numbers, comparing exponents and then mantissas compares what they denote, so the range of
plain texts is that of the rational numbers between its limits. Read back, a text is the value rounded
to seven places in that range and to six significant digits outside it.
-/

namespace Simultaneous

open Decimal
open Float.Model (UnpackedFloat Format)
open Float.Model.UnpackedFloat (packComponents)

/-! ### What floating-point numbers denote -/

namespace Decimal

def Binary.magnitude (b : Binary) : ℚ := b.mantissa * 2 ^ b.exponent

def Binary.number (b : Binary) : ℚ := signed b.negative b.magnitude

def Value.number? : Value → Option ℚ
  | .finite b => some b.number
  | .infinite _ | .undefined => none

theorem Binary.magnitude_nonneg (b : Binary) : 0 ≤ b.magnitude := by
  unfold magnitude
  positivity

theorem Binary.magnitude_eq_zero {b : Binary} : b.magnitude = 0 ↔ b.mantissa = 0 := by
  rw [magnitude, mul_eq_zero, or_iff_left (zpow_ne_zero _ (by norm_num)), Nat.cast_eq_zero]

theorem Binary.abs_number (b : Binary) : |b.number| = b.magnitude := by
  rw [number, signed]
  split
  next => rw [abs_neg, abs_of_nonneg b.magnitude_nonneg]
  next => exact abs_of_nonneg b.magnitude_nonneg

theorem Binary.value_exact (b : Binary) : b.exact.value = b.magnitude := by
  unfold exact magnitude
  split
  next whole =>
    obtain ⟨k, same⟩ := Int.eq_ofNat_of_zero_le whole
    rw [same, Int.toNat_natCast, Exact.value, zpow_natCast, pow_zero, div_one, Nat.pow_eq]
    push_cast
    rfl
  next fraction =>
    obtain ⟨k, same⟩ : ∃ k : ℕ, b.exponent = -k := ⟨(-b.exponent).toNat, by omega⟩
    have ten : (10 : ℚ) = 5 * 2 := by norm_num
    rw [same, neg_neg, Int.toNat_natCast, Exact.value, zpow_neg, zpow_natCast, Nat.pow_eq, ten,
      mul_pow]
    push_cast
    field_simp

theorem Binary.units_exact_ne_zero {b : Binary} (nonzero : b.mantissa ≠ 0) :
    b.exact.units ≠ 0 := by
  unfold exact
  split
  next => exact mul_ne_zero nonzero (Nat.pow_pos (by norm_num)).ne'
  next => exact mul_ne_zero nonzero (Nat.pow_pos (by norm_num)).ne'

/-! ### Comparing -/

/-- A mantissa of 53 bits, all of which are used unless the exponent is the least one. -/
structure Binary.IsNormal (b : Binary) : Prop where
  mantissa_lt : b.mantissa < 2 ^ 53
  full : b.exponent = -1074 ∨ 2 ^ 52 ≤ b.mantissa
  least_le : -1074 ≤ b.exponent

def Binary.Precedes (a b : Binary) : Prop :=
  a.exponent < b.exponent ∨ a.exponent = b.exponent ∧ a.mantissa < b.mantissa

theorem Binary.magnitude_lt_of_precedes {a b : Binary} (first : a.IsNormal) (second : b.IsNormal)
    (precedes : a.Precedes b) : a.magnitude < b.magnitude := by
  unfold magnitude
  rcases precedes with smaller | ⟨same, smaller⟩
  · have full : 2 ^ 52 ≤ b.mantissa := second.full.resolve_left (by have := first.least_le; omega)
    have half : (a.mantissa : ℚ) < 2 * b.mantissa := by
      have integers : a.mantissa < 2 * b.mantissa := by
        have := first.mantissa_lt
        omega
      exact_mod_cast integers
    calc (a.mantissa : ℚ) * 2 ^ a.exponent < 2 * b.mantissa * 2 ^ a.exponent :=
          mul_lt_mul_of_pos_right half (by positivity)
      _ = b.mantissa * 2 ^ (a.exponent + 1) := by
          rw [zpow_add_one₀ (by norm_num)]
          ring
      _ ≤ b.mantissa * 2 ^ b.exponent :=
          mul_le_mul_of_nonneg_left (zpow_le_zpow_right₀ (by norm_num) smaller) (by positivity)
  · rw [same]
    exact mul_lt_mul_of_pos_right (Nat.cast_lt.2 smaller) (by positivity)

theorem Binary.magnitude_lt_iff {a b : Binary} (first : a.IsNormal) (second : b.IsNormal) :
    a.magnitude < b.magnitude ↔ a.Precedes b := by
  refine ⟨fun below => ?_, magnitude_lt_of_precedes first second⟩
  by_contra not_before
  by_cases after : b.Precedes a
  · exact lt_asymm below (magnitude_lt_of_precedes second first after)
  · have same : a.exponent = b.exponent ∧ a.mantissa = b.mantissa := by
      unfold Precedes at not_before after
      omega
    unfold magnitude at below
    rw [same.1, same.2] at below
    exact lt_irrefl _ below

end Decimal

/-! ### Floating-point numbers -/

section Unpacked

variable {sign : UnpackedFloat.Sign} {m : Nat} {e : ℤ} {positive : 0 < m}

theorem isNormal_of_unpack {bits : BitVec 64}
    (unpacked : UnpackedFloat.unpack .binary64 bits = .finite sign m e positive)
    (negative : Bool) : Binary.IsNormal ⟨negative, m, e⟩ := by
  have bias : Format.binary64.exponentBias = 1023 := rfl
  have none : (0#11).toNat = 0 := rfl
  unfold UnpackedFloat.unpack at unpacked
  simp only at unpacked
  split at unpacked
  next =>
    split at unpacked
    next => cases unpacked
    next => cases unpacked
  next =>
    split at unpacked
    next subnormal =>
      split at unpacked
      next => cases unpacked
      next nonzero =>
        cases unpacked
        have short : (@UnpackedFloat.unpackMantissa .binary64 bits).toNat < 2 ^ 52 := BitVec.isLt _
        refine ⟨?_, .inl ?_, ?_⟩ <;> simp only [subnormal, none, bias] <;> omega
    next normal =>
      cases unpacked
      have short : (@UnpackedFloat.unpackMantissa .binary64 bits).toNat < 2 ^ 52 := BitVec.isLt _
      have field : (@UnpackedFloat.unpackExponent .binary64 bits).toNat ≠ 0 := fun none =>
        normal (BitVec.eq_of_toNat_eq none)
      have leading : (1#1 ++ @UnpackedFloat.unpackMantissa .binary64 bits).toNat =
          2 ^ 52 + (@UnpackedFloat.unpackMantissa .binary64 bits).toNat := by
        rw [BitVec.toNat_append]
        exact (Nat.two_pow_add_eq_or_of_lt short 1).symm
      refine ⟨?_, .inr ?_, ?_⟩ <;> simp only [leading, bias] <;> omega

theorem exists_components (m : Nat) (e : ℤ) (positive : 0 < m) :
    ∃ exponent mantissa, ∀ sign, UnpackedFloat.pack .binary64 (.finite sign m e positive) =
      packComponents .binary64 sign exponent mantissa := by
  by_cases infinite : 2 ^ 11 ≤ (e + Format.binary64.exponentBias + 52).toNat + 1
  · exact ⟨_, _, fun sign => if_pos infinite⟩
  · by_cases normal : m.log2 + 1 = Format.binary64.mantissaBits
    · exact ⟨_, _, fun sign => (if_neg infinite).trans (if_pos normal)⟩
    · exact ⟨_, _, fun sign => (if_neg infinite).trans (if_neg normal)⟩

theorem unpack_of_other_sign {s t : UnpackedFloat.Sign} {exponent : BitVec 11} {mantissa : BitVec 52}
    (unpacked : UnpackedFloat.unpack .binary64 (packComponents .binary64 s exponent mantissa) =
      .finite sign m e positive) :
    UnpackedFloat.unpack .binary64 (packComponents .binary64 t exponent mantissa) =
      .finite t m e positive := by
  unfold UnpackedFloat.unpack at unpacked ⊢
  simp only [UnpackedFloat.unpackExponent_packComponents,
    UnpackedFloat.unpackMantissa_packComponents, UnpackedFloat.unpackSign_packComponents,
    UnpackedFloat.Sign.ofBitVec_toBitVec] at unpacked ⊢
  split at unpacked
  next =>
    split at unpacked
    next => cases unpacked
    next => cases unpacked
  next infinite =>
    split at unpacked
    next zero =>
      split at unpacked
      next => cases unpacked
      next nonzero =>
        cases unpacked
        rw [if_neg infinite, if_pos zero, dif_neg nonzero]
    next nonzero =>
      cases unpacked
      rw [if_neg infinite, if_neg nonzero]

theorem unpack_abs {x : Float} (unpacked : x.toModel.unpack = .finite sign m e positive) :
    x.abs.toModel.unpack = .finite .positive m e positive := by
  obtain ⟨exponent, mantissa, packed⟩ := exists_components m e positive
  have bits : x.toModel.toBits.toBitVec = packComponents .binary64 sign exponent mantissa := by
    rw [← packed, ← unpacked]
    exact (UnpackedFloat.pack_unpack_of_valid x.toModel.valid).symm
  have absolute : x.abs.toModel.unpack = UnpackedFloat.unpack .binary64
      (UnpackedFloat.pack .binary64 x.toModel.unpack.abs) := rfl
  rw [absolute, unpacked, UnpackedFloat.abs, packed]
  have own : UnpackedFloat.unpack .binary64 (packComponents .binary64 sign exponent mantissa) =
      .finite sign m e positive := by
    rw [← bits]
    exact unpacked
  exact unpack_of_other_sign own

/-- Of positive numbers, the smaller one is that whose exponent and mantissa come first. -/
theorem lt_iff_precedes {x y : Float} {n : Nat} {f : ℤ} {other_positive : 0 < n}
    (first : x.toModel.unpack = .finite .positive m e positive)
    (second : y.toModel.unpack = .finite .positive n f other_positive) :
    x < y ↔ Binary.Precedes ⟨false, m, e⟩ ⟨false, n, f⟩ := by
  have compared : x < y ↔ (x.toModel.unpack.lt y.toModel.unpack) = true := by
    change decide (x.toModel < y.toModel) = true ↔ _
    rw [decide_eq_true_eq]
    rfl
  rw [compared, first, second]
  simp only [UnpackedFloat.lt, UnpackedFloat.compare, beq_iff_eq, Option.some.injEq,
    Ordering.then_eq_lt, compare_lt_iff_lt, compare_eq_iff_eq, Binary.Precedes]

theorem le_iff_not_precedes {x y : Float} {n : Nat} {f : ℤ} {other_positive : 0 < n}
    (first : x.toModel.unpack = .finite .positive m e positive)
    (second : y.toModel.unpack = .finite .positive n f other_positive) :
    x ≤ y ↔ ¬Binary.Precedes ⟨false, n, f⟩ ⟨false, m, e⟩ := by
  have compared : x ≤ y ↔ (x.toModel.unpack.le y.toModel.unpack) = true := by
    change decide (x.toModel ≤ y.toModel) = true ↔ _
    rw [decide_eq_true_eq]
    rfl
  rw [compared, first, second]
  simp only [UnpackedFloat.le, UnpackedFloat.compare, Option.any_some, Ordering.isLE_iff_ne_gt,
    Ordering.then_eq_gt, compare_gt_iff_gt, compare_eq_iff_eq, Binary.Precedes, @eq_comm ℤ f e]

/-! ### The plain range -/

/-- The least number of plain texts is the nearest one to a ten-thousandth, and above that. So is the
next one below it, and it is not. -/
theorem not_precedes_least_iff {b : Binary} (normal : b.IsNormal) :
    ¬b.Precedes ⟨false, 7378697629483821, -66⟩ ↔ 1 / 10 ^ 4 ≤ b.magnitude := by
  have least : Binary.IsNormal ⟨false, 7378697629483821, -66⟩ :=
    ⟨by norm_num, .inr (by norm_num), by norm_num⟩
  have below : Binary.IsNormal ⟨false, 7378697629483820, -66⟩ :=
    ⟨by norm_num, .inr (by norm_num), by norm_num⟩
  constructor
  · intro not_before
    rw [← Binary.magnitude_lt_iff normal least, not_lt] at not_before
    refine le_trans ?_ not_before
    norm_num [Binary.magnitude]
  · intro above before
    have not_after : ¬Binary.Precedes ⟨false, 7378697629483820, -66⟩ b := by
      unfold Binary.Precedes at before ⊢
      simp only at before ⊢
      omega
    rw [← Binary.magnitude_lt_iff below normal, not_lt] at not_after
    have limit : Binary.magnitude ⟨false, 7378697629483820, -66⟩ < 1 / 10 ^ 4 := by
      norm_num [Binary.magnitude]
    exact absurd (above.trans not_after) (not_le.2 limit)

theorem precedes_greatest_iff {b : Binary} (normal : b.IsNormal) :
    b.Precedes ⟨false, 5368709120000000, -29⟩ ↔ b.magnitude < 10 ^ 7 := by
  have greatest : Binary.IsNormal ⟨false, 5368709120000000, -29⟩ :=
    ⟨by norm_num, .inr (by norm_num), by norm_num⟩
  have limit : Binary.magnitude ⟨false, 5368709120000000, -29⟩ = 10 ^ 7 := by
    norm_num [Binary.magnitude]
  rw [← Binary.magnitude_lt_iff normal greatest, limit]

/-- Whether a text is plain depends on the number alone. -/
theorem isPlainRange_abs_iff {x : Float} (unpacked : x.toModel.unpack = .finite sign m e positive)
    (negative : Bool) :
    isPlainRange x.abs = true ↔
      1 / 10 ^ 4 ≤ Binary.magnitude ⟨negative, m, e⟩ ∧
        Binary.magnitude ⟨negative, m, e⟩ < 10 ^ 7 := by
  have absolute := unpack_abs unpacked
  have normal : Binary.IsNormal ⟨false, m, e⟩ := isNormal_of_unpack unpacked false
  have least : (1e-4 : Float).toModel.unpack =
      .finite .positive 7378697629483821 (-66) (by decide) := rfl
  have greatest : (1e7 : Float).toModel.unpack =
      .finite .positive 5368709120000000 (-29) (by decide) := rfl
  have magnitude : Binary.magnitude ⟨negative, m, e⟩ = Binary.magnitude ⟨false, m, e⟩ := rfl
  rw [isPlainRange, Bool.and_eq_true, decide_eq_true_eq, decide_eq_true_eq,
    le_iff_not_precedes least absolute, lt_iff_precedes absolute greatest, magnitude,
    not_precedes_least_iff normal, precedes_greatest_iff normal]

end Unpacked

/-! ### Texts of values -/

def shown (v : ℚ) : ℚ :=
  if v = 0 then 0
  else if 1 / 10 ^ 4 ≤ |v| ∧ |v| < 10 ^ 7 then toPlaces 7 v
  else toSignificant 6 v

theorem toPlaces_signed (places : ℤ) (negative : Bool) (q : ℚ) :
    toPlaces places (signed negative q) = signed negative (toPlaces places q) := by
  cases negative with
  | true => exact toPlaces_neg places q
  | false => rfl

theorem toSignificant_signed (digits : ℤ) (negative : Bool) (q : ℚ) :
    toSignificant digits (signed negative q) = signed negative (toSignificant digits q) := by
  cases negative with
  | true => exact toSignificant_neg digits q
  | false => rfl

theorem readNumber?_zero : readNumber? "0".toList = some 0 := by
  have read : readMagnitude? ['0'] = some (.decimal 0 0) := by decide
  have digit : '0'.isDigit := by decide
  have nothing : signed false (((0 : ℕ) : ℚ) * 10 ^ (0 : ℤ)) = 0 := by norm_num [signed]
  exact (readNumber?_signText digit read false).trans (congrArg some nothing)

theorem toPlaces_number (b : Binary) (places : Nat) :
    toPlaces places b.number = signed b.negative (b.exact.round places / 10 ^ places) := by
  have rounded : ((b.exact.round places : ℕ) : ℚ) = (nearest (b.magnitude * 10 ^ (places : ℤ)) : ℚ) := by
    rw [← b.value_exact, ← b.exact.round_eq_nearest]
    rfl
  rw [Binary.number, toPlaces_signed, toPlaces, ← rounded, zpow_natCast]

theorem toSignificant_number {b : Binary} (nonzero : b.mantissa ≠ 0) (places : Nat) :
    toSignificant (places + 1) b.number = signed b.negative
      ((scientificParts places b.exact).1 * 10 ^ ((scientificParts places b.exact).2 - places)) := by
  rw [Binary.number, toSignificant_signed, ← b.value_exact,
    scientificParts_eq (Binary.units_exact_ne_zero nonzero)]

/-- The text of a finite value reads back as the value rounded half to even: to seven places in the
plain range, to six significant digits outside it, and zero for zero. In the plain range a point is
followed by places that do not end in a zero. -/
theorem valueText_reads_back (x : Float) (v : ℚ) (finite : (Value.ofFloat x).number? = some v) :
    readNumber? (valueText x).toList = some (shown v) ∧
      (1 / 10 ^ 4 ≤ |v| → |v| < 10 ^ 7 → IsTrimmed (valueText x).toList) := by
  cases unpacked : x.toModel.unpack with
  | infinity sign =>
    rw [Value.ofFloat, unpacked] at finite
    cases finite
  | notANumber =>
    rw [Value.ofFloat, unpacked] at finite
    cases finite
  | zero sign =>
    have value : Value.ofFloat x = .finite ⟨isNegativeSign sign, 0, 0⟩ := by
      rw [Value.ofFloat, unpacked]
    have text : valueText x = "0" := by
      rw [valueText, value]
      rfl
    rw [value] at finite
    obtain rfl := Option.some.inj finite
    have zero : |Binary.number ⟨isNegativeSign sign, 0, 0⟩| = 0 := by
      rw [Binary.abs_number, Binary.magnitude_eq_zero]
    rw [text, shown, if_pos (abs_eq_zero.1 zero), zero]
    exact ⟨readNumber?_zero, fun above => absurd above (by norm_num)⟩
  | finite sign m e positive =>
    have value : Value.ofFloat x = .finite ⟨isNegativeSign sign, m, e⟩ := by
      rw [Value.ofFloat, unpacked]
    have plain_iff := isPlainRange_abs_iff unpacked (isNegativeSign sign)
    rw [value] at finite
    obtain rfl := Option.some.inj finite
    set b : Binary := ⟨isNegativeSign sign, m, e⟩ with b_eq
    have nonzero : b.mantissa ≠ 0 := positive.ne'
    have number_ne : b.number ≠ 0 := by
      rw [← abs_ne_zero, b.abs_number, ne_eq, Binary.magnitude_eq_zero]
      exact nonzero
    rw [shown, if_neg number_ne, b.abs_number]
    by_cases plain : isPlainRange x.abs = true
    · have text : (valueText x).toList = trimPlaces (fixed 7 b) := by
        rw [valueText, value]
        simp only [if_neg nonzero, if_pos plain, String.toList_ofList]
      obtain ⟨read, trimmed⟩ := trimPlaces_fixed (by decide : 7 ≠ 0) b
      rw [text, if_pos (plain_iff.1 plain), read]
      exact ⟨congrArg some (toPlaces_number b 7).symm, fun _ _ => trimmed⟩
    · have text : (valueText x).toList = scientific 5 b := by
        rw [valueText, value]
        simp only [if_neg nonzero, if_neg plain, String.toList_ofList]
      rw [text, if_neg (mt plain_iff.2 plain), readNumber?_scientific (by decide : 5 ≠ 0) nonzero]
      refine ⟨congrArg some (toSignificant_number nonzero 5).symm, fun above below => ?_⟩
      exact absurd (plain_iff.2 ⟨above, below⟩) plain

theorem valueText_carries :
    (Value.ofFloat 9999999.99999999).number? =
        some (Binary.number ⟨false, 5368709119999995, -29⟩) ∧
      readNumber? (valueText 9999999.99999999).toList = some (10 ^ 7) ∧
      IsTrimmed (valueText 9999999.99999999).toList := by
  have finite : (Value.ofFloat 9999999.99999999).number? =
      some (Binary.number ⟨false, 5368709119999995, -29⟩) := rfl
  have positive : Binary.number ⟨false, 5368709119999995, -29⟩ = 10 ^ 7 - 5 / 2 ^ 29 := by
    norm_num [Binary.number, Binary.magnitude, signed]
  have plain : 1 / 10 ^ 4 ≤ |Binary.number ⟨false, 5368709119999995, -29⟩| ∧
      |Binary.number ⟨false, 5368709119999995, -29⟩| < 10 ^ 7 := by
    rw [positive, abs_of_pos (by norm_num)]
    norm_num
  have carried : shown (Binary.number ⟨false, 5368709119999995, -29⟩) = 10 ^ 7 := by
    have near : nearest ((10 ^ 7 - 5 / 2 ^ 29) * 10 ^ (7 : ℤ)) = 10 ^ 14 := by
      apply nearest_eq_of_isNearest
      left
      rw [abs_lt]
      norm_num
    rw [shown, if_pos plain, positive, if_neg (by norm_num), toPlaces, near]
    norm_num
  obtain ⟨read, trimmed⟩ := valueText_reads_back 9999999.99999999 _ finite
  rw [carried] at read
  exact ⟨finite, read, trimmed plain.1 plain.2⟩

end Simultaneous
