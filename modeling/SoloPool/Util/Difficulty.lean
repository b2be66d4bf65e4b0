import SoloPool.Lib.NearestEven
import SoloPool.Util.UInt256
import SoloPool.Util.WideInteger

/-! The significand and the exponent of a difficulty. -/

namespace erikslund.util

open List Nat

def kDoubleFractionBits : Nat := 52

def kDoubleSignificandBits : Nat := kDoubleFractionBits + 1

def kDifficultyOneShift : Nat := 208

namespace WideInteger

/-- The loop of `divide` from the given bit of the quotient down. -/
def divide_bits (divisor : WideInteger) : Nat → UInt64 → WideInteger → UInt64 × WideInteger
  | 0, quotient, remainder => (quotient, remainder)
  | quotient_bit + 1, quotient, remainder =>
    let shifted_divisor := divisor.shift_left quotient_bit
    if remainder.compare shifted_divisor < 0 then divide_bits divisor quotient_bit quotient remainder
    else
      divide_bits divisor quotient_bit (quotient ||| 1 <<< UInt64.ofNat quotient_bit)
        (remainder.subtract shifted_divisor)

def divide (dividend divisor : WideInteger) : UInt64 × WideInteger :=
  let highest_quotient_bit : Int := (dividend.bit_length : Int) - divisor.bit_length
  divide_bits divisor (highest_quotient_bit + 1).toNat 0 dividend

variable (numerator denominator : WideInteger)

def exponent_is_reachable (exponent : Int) : Bool :=
  if exponent ≥ 0 then decide (numerator.compare (denominator.shift_left exponent.toNat) ≥ 0)
  else decide ((numerator.shift_left (-exponent).toNat).compare denominator ≥ 0)

/-- The exponent from the bit lengths, one less where the ratio does not reach it. -/
def ratio_exponent : Int :=
  let exponent : Int := (numerator.bit_length : Int) - denominator.bit_length
  if exponent_is_reachable numerator denominator exponent then exponent else exponent - 1

/-- The dividend and the divisor with the significand as their quotient. -/
def ratio_scaled : WideInteger × WideInteger :=
  let significand_shift : Int := kDoubleFractionBits - numerator.ratio_exponent denominator
  (if significand_shift ≥ 0 then numerator.shift_left significand_shift.toNat else numerator,
    if significand_shift < 0 then denominator.shift_left (-significand_shift).toNat else denominator)

/-- The quotient, rounded by what remains. -/
def ratio_significand : UInt64 :=
  let (dividend, divisor) := ratio_scaled numerator denominator
  let (significand, remainder) := divide dividend divisor
  let remainder_comparison := (remainder.shift_left 1).compare divisor
  if remainder_comparison > 0 ∨ remainder_comparison = 0 ∧ significand &&& 1 ≠ 0 then significand + 1
  else significand

/-- The significand and the exponent that `exact_ratio_to_double` hands to `ldexp`, the exponent
before the fraction bits are taken off. -/
def exact_ratio : UInt64 × Int :=
  let significand := ratio_significand numerator denominator
  let exponent := ratio_exponent numerator denominator
  if significand = 1 <<< UInt64.ofNat kDoubleSignificandBits then (significand >>> 1, exponent + 1)
  else (significand, exponent)

/-- The double itself: `ldexp` of so few bits is exact. -/
def exact_ratio_to_double : ℚ :=
  let (significand, exponent) := exact_ratio numerator denominator
  (significand.toNat : ℚ) * 2 ^ (exponent - kDoubleFractionBits)

/-- Setting a bit below all those of the quotient adds it. -/
theorem or_bit_toNat {quotient : UInt64} {bit : Nat} (hbit : bit < 64) (hlow : quotient.toNat % 2 ^ (bit + 1) = 0) :
    (quotient ||| 1 <<< UInt64.ofNat bit).toNat = quotient.toNat + 2 ^ bit := by
  have hone : (1 <<< UInt64.ofNat bit : UInt64).toNat = 2 ^ bit := by
    rw [shift_low_toNat 1 hbit, UInt64.toNat_one, mod_eq_of_lt (Nat.one_lt_two_pow (by omega)), Nat.one_mul]
  have hquotient : quotient.toNat = (quotient.toNat / 2 ^ (bit + 1)) <<< (bit + 1) := by
    rw [shiftLeft_eq, Nat.div_mul_cancel (dvd_of_mod_eq_zero hlow)]
  rw [UInt64.toNat_or, hone, hquotient,
    ← shiftLeft_add_eq_or_of_lt (Nat.pow_lt_pow_right (by decide) (lt_succ_self bit))]

/-- The loop keeps the dividend, and ends with a remainder below the divisor. -/
theorem divide_bits_spec (divisor : WideInteger) (bits : Nat) (quotient : UInt64) (remainder : WideInteger) (hbits : bits ≤ 64)
    (hfits : bits ≠ 0 → divisor.toNat * 2 ^ (bits - 1) < 2 ^ (64 * kWideWordCount))
    (hremainder : remainder.toNat < divisor.toNat * 2 ^ bits) (hlow : quotient.toNat % 2 ^ bits = 0) :
    (divide_bits divisor bits quotient remainder).2.toNat < divisor.toNat ∧
      (divide_bits divisor bits quotient remainder).1.toNat * divisor.toNat +
        (divide_bits divisor bits quotient remainder).2.toNat = quotient.toNat * divisor.toNat + remainder.toNat := by
  induction bits generalizing quotient remainder with
  | zero =>
    rw [pow_zero, Nat.mul_one] at hremainder
    exact ⟨hremainder, rfl⟩
  | succ bit ih =>
    have hshift := shift_left_toNat (hfits (succ_ne_zero bit))
    rw [Nat.add_sub_cancel] at hshift
    have hfits' : bit ≠ 0 → divisor.toNat * 2 ^ (bit - 1) < 2 ^ (64 * kWideWordCount) := by
      intro _
      apply (hfits (succ_ne_zero bit)).trans_le'
      exact Nat.mul_le_mul_left _ (Nat.pow_le_pow_right (by decide) (by omega))
    have hlow' : quotient.toNat % 2 ^ bit = 0 := by
      rw [← mod_mod_of_dvd _ (pow_dvd_pow 2 (le_succ bit)), hlow, zero_mod]
    rw [pow_succ, ← Nat.mul_assoc] at hremainder
    rw [divide_bits]
    split
    · rename_i hless
      rw [compare_neg_iff, hshift] at hless
      exact ih _ _ (by omega) hfits' hless hlow'
    · rename_i hnotless
      rw [compare_neg_iff, hshift] at hnotless
      have hquotient := or_bit_toNat (by omega) hlow
      have hsubtract : (remainder.subtract (divisor.shift_left bit)).toNat = _ := subtract_toNat (by omega)
      rw [hshift] at hsubtract
      have hless : (remainder.subtract (divisor.shift_left bit)).toNat < divisor.toNat * 2 ^ bit := by
        rw [hsubtract]
        omega
      have hclear : (quotient ||| 1 <<< UInt64.ofNat bit).toNat % 2 ^ bit = 0 := by
        rw [hquotient, add_mod_right, hlow']
      obtain ⟨hrest, hdivision⟩ := ih _ _ (by omega) hfits' hless hclear
      refine ⟨hrest, ?_⟩
      rw [hdivision, hquotient, hsubtract, Nat.add_mul, Nat.mul_comm (2 ^ bit)]
      omega

/-- The division is exact when its quotient leaves a bit of the word free. -/
theorem divide_spec {dividend divisor : WideInteger} (hdividend : dividend.toNat ≠ 0) (hdivisor : divisor.toNat ≠ 0)
    (hquotient : dividend.toNat < divisor.toNat * 2 ^ 63) :
    (divide dividend divisor).1.toNat = dividend.toNat / divisor.toNat ∧
      (divide dividend divisor).2.toNat = dividend.toNat % divisor.toNat := by
  obtain ⟨hpos, hlow, hhigh⟩ := bit_length_spec hdividend
  obtain ⟨hpos', hlow', hhigh'⟩ := bit_length_spec hdivisor
  have hwide := dividend.toNat_lt
  -- The dividend has at most 63 bits more than the divisor.
  have hlengths : dividend.bit_length ≤ divisor.bit_length + 63 := by
    have hlt : 2 ^ (dividend.bit_length - 1) < 2 ^ (divisor.bit_length + 63) := by
      rw [pow_add]
      exact hlow.trans_lt (hquotient.trans (Nat.mul_lt_mul_of_pos_right hhigh' (by decide)))
    have hexponent := (Nat.pow_lt_pow_iff_right (by decide : 1 < 2)).mp hlt
    omega
  have hall : dividend.bit_length ≤ 64 * kWideWordCount := by
    have hexponent := (Nat.pow_lt_pow_iff_right (by decide : 1 < 2)).mp (hlow.trans_lt hwide)
    omega
  obtain ⟨hrest, hdivision⟩ := divide_bits_spec divisor
    ((dividend.bit_length : Int) - divisor.bit_length + 1).toNat 0 dividend (by omega) (by
      intro hne
      calc divisor.toNat * 2 ^ (((dividend.bit_length : Int) - divisor.bit_length + 1).toNat - 1)
          < 2 ^ divisor.bit_length * 2 ^ (((dividend.bit_length : Int) - divisor.bit_length + 1).toNat - 1) :=
            Nat.mul_lt_mul_of_pos_right hhigh' (Nat.two_pow_pos _)
        _ = 2 ^ (divisor.bit_length + (((dividend.bit_length : Int) - divisor.bit_length + 1).toNat - 1)) := (pow_add ..).symm
        _ ≤ 2 ^ (64 * kWideWordCount) := Nat.pow_le_pow_right (by decide) (by omega)) (by
      calc dividend.toNat < 2 ^ dividend.bit_length := hhigh
        _ ≤ 2 ^ (divisor.bit_length - 1 + ((dividend.bit_length : Int) - divisor.bit_length + 1).toNat) :=
            Nat.pow_le_pow_right (by decide) (by omega)
        _ = 2 ^ (divisor.bit_length - 1) * 2 ^ ((dividend.bit_length : Int) - divisor.bit_length + 1).toNat := pow_add ..
        _ ≤ _ := Nat.mul_le_mul_right _ hlow') (zero_mod _)
  rw [UInt64.toNat_zero, Nat.zero_mul, Nat.zero_add] at hdivision
  change (divide dividend divisor).1.toNat * _ + (divide dividend divisor).2.toNat = _ at hdivision
  change (divide dividend divisor).2.toNat < _ at hrest
  rw [← hdivision]
  have hposdiv := Nat.pos_of_ne_zero hdivisor
  rw [Nat.mul_comm, mul_add_div hposdiv, div_eq_of_lt hrest, Nat.add_zero, mul_add_mod, mod_eq_of_lt hrest]
  exact ⟨rfl, rfl⟩

section Ratio

variable {num den : WideInteger}

/-- Both numbers are positive and leave a word free. -/
structure Scalable (num den : WideInteger) : Prop where
  numerator_ne : num.toNat ≠ 0
  denominator_ne : den.toNat ≠ 0
  numerator_lt : num.toNat < 2 ^ 256
  denominator_lt : den.toNat < 2 ^ 256

theorem bit_length_le {value : WideInteger} (hne : value.toNat ≠ 0) {bits : Nat} (hlt : value.toNat < 2 ^ bits) :
    value.bit_length ≤ bits := by
  obtain ⟨hpos, hlow, -⟩ := bit_length_spec hne
  have hexponent := (Nat.pow_lt_pow_iff_right (by decide : 1 < 2)).mp (hlow.trans_lt hlt)
  omega

theorem pow_256_lt : 2 ^ 256 < 2 ^ (64 * kWideWordCount) := Nat.pow_lt_pow_right (by decide) (by decide)

theorem pow_mul_pow_le {bits bits' : Nat} (h : bits + bits' ≤ 64 * kWideWordCount) :
    2 ^ bits * 2 ^ bits' ≤ 2 ^ (64 * kWideWordCount) := by
  rw [← pow_add]
  exact Nat.pow_le_pow_right (by decide) h

theorem mul_pow_lt {value : WideInteger} (hne : value.toNat ≠ 0) {shift bits : Nat} (hbits : value.bit_length + shift ≤ bits) :
    value.toNat * 2 ^ shift < 2 ^ bits := by
  obtain ⟨-, -, hhigh⟩ := bit_length_spec hne
  calc value.toNat * 2 ^ shift < 2 ^ value.bit_length * 2 ^ shift :=
        Nat.mul_lt_mul_of_pos_right hhigh (Nat.two_pow_pos _)
    _ = 2 ^ (value.bit_length + shift) := (pow_add ..).symm
    _ ≤ 2 ^ bits := Nat.pow_le_pow_right (by decide) hbits

/-- The first estimate of the exponent is tested exactly. -/
theorem reachable_iff (h : Scalable num den) {exponent : Int}
    (hexponent : exponent = (num.bit_length : Int) - den.bit_length) :
    exponent_is_reachable num den exponent = true ↔
      (den.toNat : ℚ) * 2 ^ exponent ≤ num.toNat := by
  have hnumerator := bit_length_le h.numerator_ne h.numerator_lt
  have hdenominator := bit_length_le h.denominator_ne h.denominator_lt
  have hwide := pow_256_lt
  unfold exponent_is_reachable
  split
  · rename_i hsign
    obtain ⟨shift, hshift⟩ := Int.eq_ofNat_of_zero_le hsign
    have hlt : den.toNat * 2 ^ shift < 2 ^ 256 := mul_pow_lt h.denominator_ne (by omega)
    have hcompare := compare_neg_iff num (den.shift_left shift)
    rw [shift_left_toNat (hlt.trans hwide)] at hcompare
    rw [decide_eq_true_eq, hshift, Int.toNat_natCast, zpow_natCast, ge_iff_le, ← not_lt, hcompare, not_lt]
    exact_mod_cast Iff.rfl
  · rename_i hsign
    obtain ⟨shift, hshift⟩ := Int.eq_ofNat_of_zero_le (a := -exponent) (by omega)
    have hlt : num.toNat * 2 ^ shift < 2 ^ 256 := mul_pow_lt h.numerator_ne (by omega)
    have hcompare := compare_neg_iff (num.shift_left shift) den
    rw [shift_left_toNat (hlt.trans hwide)] at hcompare
    rw [decide_eq_true_eq, hshift, Int.toNat_natCast, ge_iff_le, ← not_lt, hcompare, not_lt, show exponent = -(shift : Int) by omega,
      zpow_neg, zpow_natCast, ← div_eq_mul_inv, div_le_iff₀ (by positivity)]
    exact_mod_cast Iff.rfl

/-- The ratio lies between the powers of two at the exponent and above it. -/
theorem ratio_exponent_spec (h : Scalable num den) :
    (den.toNat : ℚ) * 2 ^ ratio_exponent num den ≤ num.toNat ∧
      (num.toNat : ℚ) < den.toNat * 2 ^ (ratio_exponent num den + 1) := by
  obtain ⟨hpos, hlow, hhigh⟩ := bit_length_spec h.numerator_ne
  obtain ⟨hpos', hlow', hhigh'⟩ := bit_length_spec h.denominator_ne
  have htwo : (2 : ℚ) ≠ 0 := by norm_num
  -- The bit lengths leave two exponents.
  have habove : (num.toNat : ℚ) <
      den.toNat * 2 ^ ((num.bit_length : Int) - den.bit_length + 1) := by
    have hexponent : (den.bit_length - 1 : Nat) + ((num.bit_length : Int) - den.bit_length + 1) =
        num.bit_length := by omega
    calc (num.toNat : ℚ) < 2 ^ (num.bit_length : Int) := by
          rw [zpow_natCast]
          exact_mod_cast hhigh
      _ = 2 ^ (den.bit_length - 1 : Nat) * 2 ^ ((num.bit_length : Int) - den.bit_length + 1) := by
          rw [← zpow_natCast, ← zpow_add₀ htwo, hexponent]
      _ ≤ _ := mul_le_mul_of_nonneg_right (by exact_mod_cast hlow') (zpow_pos (by norm_num) _).le
  have hbelow : (den.toNat : ℚ) * 2 ^ ((num.bit_length : Int) - den.bit_length - 1) ≤
      num.toNat := by
    have hexponent : (den.bit_length : Int) + ((num.bit_length : Int) - den.bit_length - 1) =
        (num.bit_length - 1 : Nat) := by omega
    calc (den.toNat : ℚ) * 2 ^ ((num.bit_length : Int) - den.bit_length - 1)
        ≤ 2 ^ (den.bit_length : Int) * 2 ^ ((num.bit_length : Int) - den.bit_length - 1) := by
          apply mul_le_mul_of_nonneg_right _ (zpow_pos (by norm_num) _).le
          rw [zpow_natCast]
          exact_mod_cast hhigh'.le
      _ = 2 ^ (num.bit_length - 1) := by rw [← zpow_add₀ htwo, hexponent, zpow_natCast]
      _ ≤ num.toNat := by exact_mod_cast hlow
  unfold ratio_exponent
  dsimp only
  split
  · rename_i hreachable
    exact ⟨(reachable_iff h rfl).mp hreachable, habove⟩
  · rename_i hunreachable
    rw [reachable_iff h rfl, not_le] at hunreachable
    rw [sub_add_cancel]
    exact ⟨hbelow, hunreachable⟩

/-- The scaled pair has the significand and its fraction as its ratio, and no bit is lost. -/
structure Scaled (num den : WideInteger) : Prop where
  dividend_ne : (ratio_scaled num den).1.toNat ≠ 0
  divisor_ne : (ratio_scaled num den).2.toNat ≠ 0
  divisor_lt : (ratio_scaled num den).2.toNat < 2 ^ 256
  ratio : ((ratio_scaled num den).1.toNat : ℚ) / (ratio_scaled num den).2.toNat =
    num.toNat / den.toNat / 2 ^ (ratio_exponent num den - kDoubleFractionBits)

theorem scaled (h : Scalable num den) : Scaled num den := by
  obtain ⟨hlower, hupper⟩ := ratio_exponent_spec h
  have hwide := pow_256_lt
  have hnumerator := h.numerator_lt
  have hdenominator := h.denominator_lt
  have hne : (den.toNat : ℚ) ≠ 0 := by exact_mod_cast h.denominator_ne
  have htwo : (2 : ℚ) ≠ 0 := by norm_num
  have hfactor (shift : Nat) : 2 ^ shift ≠ 0 := (Nat.two_pow_pos shift).ne'
  generalize hexponent : ratio_exponent num den = exponent at hlower hupper
  by_cases hsign : (kDoubleFractionBits : Int) - exponent ≥ 0
  · -- The numerator is moved up by what the significand still needs.
    obtain ⟨shift, hshift⟩ := Int.eq_ofNat_of_zero_le hsign
    have hpair : ratio_scaled num den = (num.shift_left shift, den) := by
      simp only [ratio_scaled, hexponent]
      rw [if_pos hsign, if_neg (not_lt.mpr hsign), hshift, Int.toNat_natCast]
    have hfits : num.toNat * 2 ^ shift < 2 ^ (64 * kWideWordCount) := by
      have hscaled : (num.toNat : ℚ) * 2 ^ shift < den.toNat * 2 ^ 53 := by
        calc (num.toNat : ℚ) * 2 ^ shift < den.toNat * 2 ^ (exponent + 1) * 2 ^ shift :=
              mul_lt_mul_of_pos_right hupper (by positivity)
          _ = den.toNat * 2 ^ 53 := by
              have hsum : exponent + 1 + (shift : Int) = (53 : Nat) := by
                rw [← hshift, kDoubleFractionBits]
                omega
              rw [mul_assoc, ← zpow_natCast 2 shift, ← zpow_add₀ htwo, hsum, zpow_natCast]
      have hnat : num.toNat * 2 ^ shift < den.toNat * 2 ^ 53 := by exact_mod_cast hscaled
      calc num.toNat * 2 ^ shift < den.toNat * 2 ^ 53 := hnat
        _ ≤ 2 ^ 256 * 2 ^ 53 := Nat.mul_le_mul_right _ hdenominator.le
        _ ≤ 2 ^ (64 * kWideWordCount) := pow_mul_pow_le (by decide)
    have hdividend := shift_left_toNat hfits
    refine ⟨?_, ?_, ?_, ?_⟩
    · rw [hpair, hdividend]
      exact Nat.mul_ne_zero h.numerator_ne (hfactor shift)
    · rw [hpair]
      exact h.denominator_ne
    · rw [hpair]
      exact hdenominator
    · rw [hpair, hdividend, hexponent, show exponent - (kDoubleFractionBits : Int) = -(shift : Int) by omega, zpow_neg,
        zpow_natCast, div_inv_eq_mul, cast_mul, cast_pow, cast_ofNat]
      ring
  · -- The divisor is moved up instead, and stays below the numerator.
    obtain ⟨shift, hshift⟩ := Int.eq_ofNat_of_zero_le (a := exponent - kDoubleFractionBits) (by omega)
    have hpair : ratio_scaled num den = (num, den.shift_left shift) := by
      simp only [ratio_scaled, hexponent]
      rw [if_neg hsign, if_pos (not_le.mp hsign), neg_sub, hshift, Int.toNat_natCast]
    have hfits : den.toNat * 2 ^ shift < 2 ^ 256 := by
      have hscaled : (den.toNat : ℚ) * 2 ^ shift ≤ num.toNat := by
        apply le_trans _ hlower
        apply mul_le_mul_of_nonneg_left _ (cast_nonneg _)
        rw [← zpow_natCast]
        exact zpow_le_zpow_right₀ (by norm_num) (by omega)
      have hnat : den.toNat * 2 ^ shift ≤ num.toNat := by exact_mod_cast hscaled
      omega
    have hdivisor := shift_left_toNat (hfits.trans hwide)
    refine ⟨?_, ?_, ?_, ?_⟩
    · rw [hpair]
      exact h.numerator_ne
    · rw [hpair, hdivisor]
      exact Nat.mul_ne_zero h.denominator_ne (hfactor shift)
    · rw [hpair, hdivisor]
      exact hfits
    · rw [hpair, hdivisor, hexponent, hshift, zpow_natCast, cast_mul, cast_pow, cast_ofNat, div_div]

/-- The quotient has one bit more than the fraction. -/
theorem quotient_bounds (h : Scalable num den) :
    (2 : ℚ) ^ kDoubleFractionBits ≤ num.toNat / den.toNat /
        2 ^ (ratio_exponent num den - kDoubleFractionBits) ∧
      (num.toNat : ℚ) / den.toNat / 2 ^ (ratio_exponent num den - kDoubleFractionBits) <
        2 ^ (kDoubleFractionBits + 1) := by
  obtain ⟨hlower, hupper⟩ := ratio_exponent_spec h
  have hpos : (0 : ℚ) < den.toNat := by exact_mod_cast Nat.pos_of_ne_zero h.denominator_ne
  have htwo : (2 : ℚ) ≠ 0 := by norm_num
  have hunit : (0 : ℚ) < 2 ^ (ratio_exponent num den - kDoubleFractionBits) := zpow_pos (by norm_num) _
  generalize ratio_exponent num den = exponent at hlower hupper hunit
  constructor
  · rw [le_div_iff₀ hunit, le_div_iff₀ hpos, ← zpow_natCast, ← zpow_add₀ htwo, add_sub_cancel, mul_comm]
    exact hlower
  · rw [div_lt_iff₀ hunit, div_lt_iff₀ hpos, ← zpow_natCast, ← zpow_add₀ htwo, mul_comm]
    have hsum : ((kDoubleFractionBits + 1 : Nat) : Int) + (exponent - kDoubleFractionBits) = exponent + 1 := by
      push_cast
      ring
    rw [hsum]
    exact hupper

/-- Every shift keeps all its bits, and the division and what is compared after it are those of
the numbers. -/
structure Exact (num den : WideInteger) : Prop where
  aligned_denominator : ∀ shift : Nat, (shift : Int) = (num.bit_length : Int) - den.bit_length →
    den.toNat * 2 ^ shift < 2 ^ (64 * kWideWordCount)
  aligned_numerator : ∀ shift : Nat, (shift : Int) = (den.bit_length : Int) - num.bit_length →
    num.toNat * 2 ^ shift < 2 ^ (64 * kWideWordCount)
  scaled_ratio : ((ratio_scaled num den).1.toNat : ℚ) / (ratio_scaled num den).2.toNat =
    num.toNat / den.toNat / 2 ^ (ratio_exponent num den - kDoubleFractionBits)
  quotient_lt : (ratio_scaled num den).1.toNat / (ratio_scaled num den).2.toNat <
    2 ^ kDoubleSignificandBits
  quotient : (divide (ratio_scaled num den).1 (ratio_scaled num den).2).1.toNat =
    (ratio_scaled num den).1.toNat / (ratio_scaled num den).2.toNat
  remainder : (divide (ratio_scaled num den).1 (ratio_scaled num den).2).2.toNat =
    (ratio_scaled num den).1.toNat % (ratio_scaled num den).2.toNat
  shifted_divisor : ∀ quotient_bit : Nat, (quotient_bit : Int) ≤
      ((ratio_scaled num den).1.bit_length : Int) - (ratio_scaled num den).2.bit_length →
    (ratio_scaled num den).2.toNat * 2 ^ quotient_bit < 2 ^ (64 * kWideWordCount)
  twice_remainder : ((divide (ratio_scaled num den).1
    (ratio_scaled num den).2).2.shift_left 1).toNat =
      2 * ((ratio_scaled num den).1.toNat % (ratio_scaled num den).2.toNat)

theorem exact (h : Scalable num den) : Exact num den := by
  obtain ⟨hdividend, hdivisor, hdivisorlt, hratio⟩ := scaled h
  obtain ⟨-, hupper⟩ := quotient_bounds h
  have hnumerator := bit_length_le h.numerator_ne h.numerator_lt
  have hdenominator := bit_length_le h.denominator_ne h.denominator_lt
  have hwide := pow_256_lt
  rw [← hratio] at hupper
  have hquotient : (ratio_scaled num den).1.toNat <
      (ratio_scaled num den).2.toNat * 2 ^ kDoubleSignificandBits := by
    rw [div_lt_iff₀ (by exact_mod_cast Nat.pos_of_ne_zero hdivisor), mul_comm] at hupper
    exact_mod_cast hupper
  have hdivide := divide_spec hdividend hdivisor (hquotient.trans_le
    (Nat.mul_le_mul_left _ (Nat.pow_le_pow_right (by decide) (by decide))))
  have hremainder := mod_lt (ratio_scaled num den).1.toNat (Nat.pos_of_ne_zero hdivisor)
  have hdividendbits := bit_length_le hdividend (ratio_scaled num den).1.toNat_lt
  refine ⟨?_, ?_, hratio, ?_, hdivide.1, hdivide.2, ?_, ?_⟩
  · intro shift hshift
    exact mul_pow_lt h.denominator_ne (by rw [kWideWordCount]; omega)
  · intro shift hshift
    exact mul_pow_lt h.numerator_ne (by rw [kWideWordCount]; omega)
  · rw [Nat.div_lt_iff_lt_mul (Nat.pos_of_ne_zero hdivisor), Nat.mul_comm]
    exact hquotient
  · intro quotient_bit hbit
    exact mul_pow_lt hdivisor (by omega)
  · rw [shift_left_toNat, hdivide.2, pow_one, Nat.mul_comm]
    rw [hdivide.2, pow_one]
    calc _ < 2 ^ 256 * 2 ^ 1 := by omega
      _ ≤ 2 ^ (64 * kWideWordCount) := pow_mul_pow_le (by decide)

theorem and_one_ne_zero_iff (word : UInt64) : word &&& 1 ≠ 0 ↔ word.toNat % 2 ≠ 0 := by
  rw [ne_eq, ← UInt64.toNat_inj, UInt64.toNat_and, UInt64.toNat_one, and_one_is_mod, UInt64.toNat_zero]

/-- The significand before the carry, at the exponent of the ratio. -/
theorem ratio_on_grid (h : Scalable num den) :
    NearestEven.OnGrid kDoubleFractionBits (num.toNat / den.toNat)
      (ratio_significand num den).toNat (ratio_exponent num den) := by
  obtain ⟨-, -, hratio, hquotientlt, hquotient, hremainder, -, htwice⟩ := exact h
  obtain ⟨hlower, hupper⟩ := quotient_bounds h
  have hdivisor := Nat.pos_of_ne_zero (scaled h).divisor_ne
  have hpos := compare_pos_iff ((divide (ratio_scaled num den).1
    (ratio_scaled num den).2).2.shift_left 1) (ratio_scaled num den).2
  have hzero := compare_eq_zero_iff ((divide (ratio_scaled num den).1
    (ratio_scaled num den).2).2.shift_left 1) (ratio_scaled num den).2
  have hodd := and_one_ne_zero_iff (divide (ratio_scaled num den).1 (ratio_scaled num den).2).1
  rw [htwice] at hpos hzero
  rw [hquotient] at hodd
  have hsignificand : (ratio_significand num den).toNat =
      if 2 * ((ratio_scaled num den).1.toNat % (ratio_scaled num den).2.toNat) >
            (ratio_scaled num den).2.toNat ∨
          2 * ((ratio_scaled num den).1.toNat % (ratio_scaled num den).2.toNat) =
            (ratio_scaled num den).2.toNat ∧
          ((ratio_scaled num den).1.toNat / (ratio_scaled num den).2.toNat) % 2 ≠ 0 then
        (ratio_scaled num den).1.toNat / (ratio_scaled num den).2.toNat + 1
      else (ratio_scaled num den).1.toNat / (ratio_scaled num den).2.toNat := by
    simp only [ratio_significand, gt_iff_lt, hpos, hzero, hodd]
    split
    · rw [UInt64.toNat_add, hquotient, UInt64.toNat_one, mod_eq_of_lt]
      have hbits : 2 ^ kDoubleSignificandBits = 9007199254740992 := by decide
      omega
    · exact hquotient
  have hhalf := NearestEven.half_of_division (div_add_mod' _ _).symm
    (mod_lt (ratio_scaled num den).1.toNat hdivisor) hsignificand
  rw [hratio] at hhalf
  exact ⟨hlower, hupper, hhalf.1, hhalf.2⟩

/-- What is handed to `ldexp` is the ratio rounded to nearest, ties to even. -/
theorem exact_ratio_rounds (h : Scalable num den) :
    NearestEven.Rounds kDoubleFractionBits (num.toNat / den.toNat)
      (exact_ratio num den).1.toNat (exact_ratio num den).2 := by
  have hgrid := ratio_on_grid h
  have hlimit : (1 <<< UInt64.ofNat kDoubleSignificandBits : UInt64).toNat = 2 ^ (kDoubleFractionBits + 1) := by decide
  unfold exact_ratio
  dsimp only
  split
  · rename_i hcarry
    rw [hcarry]
    exact hgrid.rounds_carry (by rw [hcarry, hlimit]) (by decide)
  · rename_i hkept
    apply hgrid.rounds
    apply lt_of_le_of_ne hgrid.bounds.2
    rw [← hlimit]
    exact fun heq => hkept (UInt64.toNat_inj.mp heq)

theorem exact_ratio_to_double_eq (num den : WideInteger) : exact_ratio_to_double num den =
    NearestEven.value kDoubleFractionBits (ratio_significand num den).toNat
      (ratio_exponent num den) := by
  have hlimit : (1 <<< UInt64.ofNat kDoubleSignificandBits : UInt64).toNat = 2 ^ (kDoubleFractionBits + 1) := by decide
  unfold exact_ratio_to_double exact_ratio
  dsimp only
  split
  · rename_i hcarry
    have hhalved : ((1 <<< UInt64.ofNat kDoubleSignificandBits : UInt64) >>> 1).toNat = 2 ^ kDoubleFractionBits := by decide
    rw [hcarry, hlimit, ← NearestEven.OnGrid.value_carry, NearestEven.value, hhalved]
  · rfl

end Ratio

end WideInteger

theorem one_words_length : (WideInteger.zero_words.set (kDifficultyOneShift / kWordBits)
    ((0xffff : UInt64) <<< UInt64.ofNat (kDifficultyOneShift % kWordBits))).length = kWideWordCount := by
  rw [length_set, WideInteger.zero_words, length_replicate]

def difficulty_one_numerator : WideInteger :=
  ⟨WideInteger.zero_words.set (kDifficultyOneShift / kWordBits)
    ((0xffff : UInt64) <<< UInt64.ofNat (kDifficultyOneShift % kWordBits)), one_words_length⟩

def read_le64 (bytes : Bytes) : UInt64 := UInt64.ofNat (Radix.value (bytes.take 8))

def target_words (target : uint256) : List UInt64 :=
  (range (target.le_bytes.val.length / 8)).map (fun word => read_le64 (target.le_bytes.val.drop (word * 8))) ++ [0]

theorem target_words_length (target : uint256) : (target_words target).length = kWideWordCount := by
  rw [target_words, target.le_bytes.property]
  rfl

def target_integer (target : uint256) : WideInteger := ⟨target_words target, target_words_length target⟩

theorem difficulty_one_numerator_toNat : difficulty_one_numerator.toNat = difficulty_one_target := by
  decide

theorem read_le64_toNat (bytes : Bytes) : (read_le64 bytes).toNat = Radix.value (bytes.take 8) := by
  have hlt := Radix.value_lt (bytes.take 8)
  have hlength : (bytes.take 8).length ≤ 8 := length_take_le _ _
  have hpow := Nat.pow_le_pow_right (by decide : 0 < 256) hlength
  rw [read_le64, UInt64.toNat_ofNat_of_lt']
  exact hlt.trans_le hpow

/-- Eight bytes make a word. -/
theorem value_take_drop (bytes : Bytes) (h : 8 ≤ bytes.length) :
    Radix.value bytes = (read_le64 bytes).toNat + 2 ^ 64 * Radix.value (bytes.drop 8) := by
  conv_lhs => rw [← take_append_drop 8 bytes]
  rw [Radix.value_append, read_le64_toNat, length_take, min_eq_left h, show 256 ^ 8 = 2 ^ 64 by decide]

theorem target_integer_toNat (target : uint256) : (target_integer target).toNat = target.toNat := by
  have hlength := target.le_bytes.property
  have hwords : target_words target = [read_le64 target.le_bytes.val, read_le64 (target.le_bytes.val.drop 8),
      read_le64 (target.le_bytes.val.drop 16), read_le64 (target.le_bytes.val.drop 24), 0] := by
    rw [target_words, hlength]
    rfl
  have hnext (count : Nat) (h : count + 8 ≤ 32) :=
    value_take_drop (target.le_bytes.val.drop count) (by rw [length_drop]; omega)
  simp only [drop_drop] at hnext
  have hend : target.le_bytes.val.drop 32 = [] := drop_eq_nil_of_le hlength.le
  have hlast := hnext 24 (by decide)
  rw [show 24 + 8 = 32 by decide, hend] at hlast
  change Limbs.value (target_words target) = _
  rw [hwords, uint256.toNat, value_take_drop _ (by omega), hnext 8 (by decide),
    hnext 16 (by decide), hlast]
  rfl

theorem scalable_target {target : uint256} (h : target.toNat ≠ 0) :
    WideInteger.Scalable difficulty_one_numerator (target_integer target) where
  numerator_ne := by
    rw [difficulty_one_numerator_toNat]
    decide
  denominator_ne := by rwa [target_integer_toNat]
  numerator_lt := by
    rw [difficulty_one_numerator_toNat]
    decide
  denominator_lt := by
    rw [target_integer_toNat]
    exact target.toNat_lt

/-- The double that is returned for a target other than zero. -/
def rounded_difficulty (target : uint256) : ℚ :=
  WideInteger.exact_ratio_to_double difficulty_one_numerator (target_integer target)

/-- For every target but zero the significand has 53 bits, and with its exponent it is the
difficulty rounded to nearest, ties to even; no intermediate number loses a bit, and a greater
target has no greater difficulty. -/
theorem difficulty_rounds_to_nearest {target : uint256} (htarget : target.toNat ≠ 0) :
    WideInteger.Exact difficulty_one_numerator (target_integer target) ∧
      (∀ left right : WideInteger, (left.compare right < 0 ↔ left.toNat < right.toNat) ∧
        (0 < left.compare right ↔ right.toNat < left.toNat) ∧
        (right.toNat ≤ left.toNat → (left.subtract right).toNat = left.toNat - right.toNat)) ∧
      NearestEven.Rounds kDoubleFractionBits ((difficulty_one_target : ℚ) / target.toNat)
        (WideInteger.exact_ratio difficulty_one_numerator (target_integer target)).1.toNat
        (WideInteger.exact_ratio difficulty_one_numerator (target_integer target)).2 ∧
      ∀ target' : uint256, target.toNat ≤ target'.toNat → rounded_difficulty target' ≤ rounded_difficulty target := by
  have hscalable := scalable_target htarget
  refine ⟨WideInteger.exact hscalable, ?_, ?_, ?_⟩
  · exact fun left right => ⟨WideInteger.compare_neg_iff left right, WideInteger.compare_pos_iff left right,
      WideInteger.subtract_toNat⟩
  · have hrounds := WideInteger.exact_ratio_rounds hscalable
    rwa [difficulty_one_numerator_toNat, target_integer_toNat] at hrounds
  · intro target' hle
    have hscalable' := scalable_target (by omega : target'.toNat ≠ 0)
    rw [rounded_difficulty, rounded_difficulty, WideInteger.exact_ratio_to_double_eq, WideInteger.exact_ratio_to_double_eq]
    apply (WideInteger.ratio_on_grid hscalable').mono (WideInteger.ratio_on_grid hscalable)
    rw [target_integer_toNat, target_integer_toNat]
    apply div_le_div_of_nonneg_left (cast_nonneg _)
    · exact_mod_cast Nat.pos_of_ne_zero htarget
    · exact_mod_cast hle

theorem difficulty_rounds_to_nearest_three :
    NearestEven.Rounds kDoubleFractionBits ((difficulty_one_target : ℚ) / (uint256.ofNat 3).toNat)
      (WideInteger.exact_ratio difficulty_one_numerator (target_integer (.ofNat 3))).1.toNat
      (WideInteger.exact_ratio difficulty_one_numerator (target_integer (.ofNat 3))).2 :=
  (difficulty_rounds_to_nearest (by decide : (uint256.ofNat 3).toNat ≠ 0)).2.2.1

end erikslund.util
