import Mathlib.Algebra.Order.Field.Power
import Mathlib.Algebra.Order.Field.Rat
import Mathlib.Algebra.Order.Ring.Abs
import Mathlib.Data.Int.Log
import Mathlib.Data.Nat.Cast.Order.Field
import Mathlib.Data.Rat.Floor
import Mathlib.Tactic.FieldSimp
import Mathlib.Tactic.Linarith
import Mathlib.Tactic.NormNum
import Mathlib.Tactic.Ring

/-! Rounding to the nearest number with a significand of a given length, ties to the even one. -/

namespace NearestEven

open Nat

/-- The number with the given significand and exponent, when `p` bits of the significand are a
fraction. -/
def value (p significand : ℕ) (exponent : ℤ) : ℚ := significand * 2 ^ (exponent - p)

/-- A significand of `p + 1` bits. -/
def Normal (p significand : ℕ) : Prop := 2 ^ p ≤ significand ∧ significand < 2 ^ (p + 1)

/-- No number with a significand of that length is nearer to `q`, and one that is as near is not
preferred to an even significand. -/
structure Rounds (p : ℕ) (q : ℚ) (significand : ℕ) (exponent : ℤ) : Prop where
  normal : Normal p significand
  nearest : ∀ s e, Normal p s → |q - value p significand exponent| ≤ |q - value p s e|
  even : ∀ s e, Normal p s → value p s e ≠ value p significand exponent →
    |q - value p s e| = |q - value p significand exponent| → Even significand

section Integer

variable {x : ℚ} {m k : ℕ}

theorem one_le_abs_sub (h : k ≠ m) : (1 : ℚ) ≤ |(k : ℚ) - m| := by
  have hint : (1 : ℤ) ≤ |(k : ℤ) - m| := Int.one_le_abs (by omega)
  exact_mod_cast hint

/-- An integer within a half is a nearest one. -/
theorem abs_sub_le_of_half (h : |x - m| ≤ 1 / 2) (k : ℕ) : |x - m| ≤ |x - k| := by
  by_cases hk : k = m
  · rw [hk]
  · have hapart := one_le_abs_sub hk
    have htriangle := abs_sub_le (k : ℚ) x m
    rw [abs_sub_comm (k : ℚ) x] at htriangle
    linarith

theorem eq_half_of_tie (h : |x - m| ≤ 1 / 2) (hk : k ≠ m) (htie : |x - k| = |x - m|) : |x - m| = 1 / 2 := by
  have hapart := one_le_abs_sub hk
  have htriangle := abs_sub_le (k : ℚ) x m
  rw [abs_sub_comm (k : ℚ) x] at htriangle
  linarith

/-- Quotient and remainder decide which integer is nearest. -/
theorem half_of_division {dividend divisor quotient remainder : ℕ} (hdivision : dividend = quotient * divisor + remainder)
    (hremainder : remainder < divisor)
    (hm : m = if 2 * remainder > divisor ∨ (2 * remainder = divisor ∧ quotient % 2 ≠ 0) then quotient + 1 else quotient) :
    |(dividend : ℚ) / divisor - m| ≤ 1 / 2 ∧ (|(dividend : ℚ) / divisor - m| = 1 / 2 → Even m) := by
  have hpos : (0 : ℚ) < divisor := by exact_mod_cast (Nat.zero_le _).trans_lt hremainder
  have hx : (dividend : ℚ) / divisor = quotient + remainder / divisor := by
    rw [hdivision, cast_add, cast_mul]
    field_simp
  have hfraction : (0 : ℚ) ≤ remainder / divisor := by positivity
  have hbelow : (remainder : ℚ) / divisor < 1 := by
    rw [div_lt_one hpos]
    exact_mod_cast hremainder
  rw [hx]
  split at hm
  · rename_i hup
    have hhalf : (1 : ℚ) / 2 ≤ remainder / divisor := by
      rw [le_div_iff₀ hpos]
      have hcast : (divisor : ℚ) ≤ 2 * remainder := by
        have hle : divisor ≤ 2 * remainder := by omega
        exact_mod_cast hle
      linarith
    have habs : |(quotient : ℚ) + remainder / divisor - m| = 1 - remainder / divisor := by
      rw [hm, cast_add, cast_one, abs_sub_comm, abs_of_nonneg (by linarith)]
      ring
    rw [habs]
    refine ⟨by linarith, fun htie => ?_⟩
    have htwice : (2 * remainder : ℚ) = divisor := by
      have hdiv : (remainder : ℚ) / divisor = 1 / 2 := by linarith
      rw [div_eq_iff hpos.ne'] at hdiv
      linarith
    have heq : 2 * remainder = divisor := by exact_mod_cast htwice
    rw [hm, even_iff]
    omega
  · rename_i hdown
    have hhalf : (remainder : ℚ) / divisor ≤ 1 / 2 := by
      rw [div_le_iff₀ hpos]
      have hcast : (2 * remainder : ℚ) ≤ divisor := by
        have hle : 2 * remainder ≤ divisor := by omega
        exact_mod_cast hle
      linarith
    have habs : |(quotient : ℚ) + remainder / divisor - m| = remainder / divisor := by
      rw [hm, add_sub_cancel_left, abs_of_nonneg hfraction]
    rw [habs]
    refine ⟨hhalf, fun htie => ?_⟩
    have htwice : (2 * remainder : ℚ) = divisor := by
      rw [div_eq_iff hpos.ne'] at htie
      linarith
    have heq : 2 * remainder = divisor := by exact_mod_cast htwice
    rw [hm, even_iff]
    omega

end Integer

/-- At the exponent of `q`, `m` is its nearest integer multiple of the last place, the even one
of two. -/
structure OnGrid (p : ℕ) (q : ℚ) (m : ℕ) (e : ℤ) : Prop where
  lower : 2 ^ p ≤ q / 2 ^ (e - p)
  upper : q / 2 ^ (e - p) < 2 ^ (p + 1)
  half : |q / 2 ^ (e - p) - m| ≤ 1 / 2
  tie : |q / 2 ^ (e - p) - m| = 1 / 2 → Even m

namespace OnGrid

variable {p m m' : ℕ} {q q' : ℚ} {e e' : ℤ}

theorem unit_pos (p : ℕ) (e : ℤ) : (0 : ℚ) < 2 ^ (e - p) := zpow_pos (by norm_num) _

theorem bounds (h : OnGrid p q m e) : 2 ^ p ≤ m ∧ m ≤ 2 ^ (p + 1) := by
  have hhalf := abs_le.mp h.half
  have hlower := h.lower
  have hupper := h.upper
  constructor
  · have hlt : ((2 ^ p : ℕ) : ℚ) < ((m + 1 : ℕ) : ℚ) := by
      push_cast
      linarith
    exact le_of_lt_succ (by exact_mod_cast hlt)
  · have hlt : ((m : ℕ) : ℚ) < ((2 ^ (p + 1) + 1 : ℕ) : ℚ) := by
      push_cast
      linarith
    exact le_of_lt_succ (by exact_mod_cast hlt)

/-- The distance to a number, in units of the last place. -/
theorem abs_sub_value (p : ℕ) (q : ℚ) (e : ℤ) (s : ℕ) (e' : ℤ) :
    |q - value p s e'| = |q / 2 ^ (e - p) - s * 2 ^ (e' - e)| * 2 ^ (e - p) := by
  have hpos := unit_pos p e
  have hunits : value p s e' = s * 2 ^ (e' - e) * 2 ^ (e - p) := by
    rw [value, mul_assoc, ← zpow_add₀ (by norm_num : (2 : ℚ) ≠ 0)]
    congr 2
    ring
  rw [hunits]
  nth_rewrite 1 [← div_mul_cancel₀ q hpos.ne']
  rw [← sub_mul, abs_mul, abs_of_pos hpos]

theorem abs_sub_grid (p : ℕ) (q : ℚ) (e : ℤ) (m : ℕ) :
    |q - value p m e| = |q / 2 ^ (e - p) - m| * 2 ^ (e - p) := by
  rw [abs_sub_value p q e m e, sub_self, zpow_zero, mul_one]

/-- A number of a greater exponent is on the grid; one of a smaller exponent lies below it. -/
theorem units_cases {s : ℕ} (hs : Normal p s) (e e' : ℤ) :
    (∃ k : ℕ, (s : ℚ) * 2 ^ (e' - e) = k) ∨ (s : ℚ) * 2 ^ (e' - e) < 2 ^ p := by
  by_cases hle : e ≤ e'
  · left
    obtain ⟨n, hn⟩ := Int.eq_ofNat_of_zero_le (sub_nonneg.mpr hle)
    refine ⟨s * 2 ^ n, ?_⟩
    rw [hn, zpow_natCast]
    push_cast
    rfl
  · right
    have hpow : (2 : ℚ) ^ (e' - e) ≤ 2 ^ (-1 : ℤ) := zpow_le_zpow_right₀ (by norm_num) (by omega)
    have hlt : (s : ℚ) < 2 ^ (p + 1) := by exact_mod_cast hs.2
    rw [zpow_neg_one] at hpow
    calc (s : ℚ) * 2 ^ (e' - e) ≤ s * 2⁻¹ := mul_le_mul_of_nonneg_left hpow (by positivity)
      _ < 2 ^ (p + 1) * 2⁻¹ := mul_lt_mul_of_pos_right hlt (by norm_num)
      _ = 2 ^ p := by rw [pow_succ, mul_inv_cancel_right₀ (by norm_num)]

/-- What lies below the grid is farther away than the nearest integer. -/
theorem lt_of_below (h : OnGrid p q m e) {y : ℚ} (hy : y < 2 ^ p) : |q / 2 ^ (e - p) - m| < |q / 2 ^ (e - p) - y| := by
  have hgrid := abs_sub_le_of_half h.half (2 ^ p)
  have hlower := h.lower
  push_cast at hgrid
  rw [abs_of_nonneg (by linarith : 0 ≤ q / 2 ^ (e - p) - 2 ^ p)] at hgrid
  rw [abs_of_pos (by linarith : 0 < q / 2 ^ (e - p) - y)]
  linarith

/-- Nothing with a significand of that length is nearer. -/
theorem nearest (h : OnGrid p q m e) {s : ℕ} (hs : Normal p s) (e' : ℤ) :
    |q - value p m e| ≤ |q - value p s e'| := by
  rw [abs_sub_grid, abs_sub_value p q e s e']
  apply mul_le_mul_of_nonneg_right _ (unit_pos p e).le
  rcases units_cases hs e e' with ⟨k, hk⟩ | hbelow
  · rw [hk]
    exact abs_sub_le_of_half h.half k
  · exact (h.lt_of_below hbelow).le

/-- Something as near makes it a tie. -/
theorem even (h : OnGrid p q m e) {s : ℕ} (hs : Normal p s) {e' : ℤ} (hne : value p s e' ≠ value p m e)
    (htie : |q - value p s e'| = |q - value p m e|) : Even m := by
  rw [abs_sub_grid p q e m, abs_sub_value p q e s e'] at htie
  replace htie := mul_right_cancel₀ (unit_pos p e).ne' htie
  rcases units_cases hs e e' with ⟨k, hk⟩ | hbelow
  · rw [hk] at htie
    apply h.tie
    apply eq_half_of_tie h.half _ htie
    rintro rfl
    apply hne
    rw [value, value, ← hk, mul_assoc, ← zpow_add₀ (by norm_num : (2 : ℚ) ≠ 0)]
    congr 2
    ring
  · exact absurd htie (h.lt_of_below hbelow).ne'

theorem rounds (h : OnGrid p q m e) (hlt : m < 2 ^ (p + 1)) : Rounds p q m e where
  normal := ⟨h.bounds.1, hlt⟩
  nearest := fun _ e' hs => h.nearest hs e'
  even := fun _ _ hs hne htie => h.even hs hne htie

/-- Rounding may carry out of the significand. -/
theorem value_carry (p : ℕ) (e : ℤ) : value p (2 ^ p) (e + 1) = value p (2 ^ (p + 1)) e := by
  rw [value, value, show e + 1 - (p : ℤ) = (e - p) + 1 by ring, zpow_add_one₀ (by norm_num)]
  push_cast
  ring

theorem rounds_carry (h : OnGrid p q m e) (hcarry : m = 2 ^ (p + 1)) (hp : 0 < p) : Rounds p q (2 ^ p) (e + 1) where
  normal := ⟨le_rfl, Nat.pow_lt_pow_right (by norm_num) (lt_succ_self p)⟩
  nearest := fun _ e' hs => by
    rw [value_carry, ← hcarry]
    exact h.nearest hs e'
  even := fun _ _ _ _ _ => (even_pow.mpr ⟨even_two, hp.ne'⟩)

theorem unit_mul_two_le (p : ℕ) (hlt : e < e') : (2 : ℚ) ^ (e - p) * 2 ≤ 2 ^ (e' - p) := by
  rw [← zpow_add_one₀ (by norm_num)]
  exact zpow_le_zpow_right₀ (by norm_num) (by omega)

/-- Rounding keeps the order. -/
theorem mono (h : OnGrid p q m e) (h' : OnGrid p q' m' e') (hle : q ≤ q') : value p m e ≤ value p m' e' := by
  have hpos := unit_pos p e
  have hpos' := unit_pos p e'
  rcases lt_trichotomy e e' with hlt | heq | hgt
  · have hupper : (m : ℚ) ≤ 2 ^ (p + 1) := by exact_mod_cast h.bounds.2
    have hlower : (2 : ℚ) ^ p ≤ m' := by exact_mod_cast h'.bounds.1
    have hexp := unit_mul_two_le p hlt
    calc value p m e ≤ 2 ^ (p + 1) * 2 ^ (e - p) := mul_le_mul_of_nonneg_right hupper hpos.le
      _ = 2 ^ p * (2 ^ (e - p) * 2) := by ring
      _ ≤ 2 ^ p * 2 ^ (e' - p) := mul_le_mul_of_nonneg_left hexp (by positivity)
      _ ≤ value p m' e' := mul_le_mul_of_nonneg_right hlower hpos'.le
  · subst heq
    apply mul_le_mul_of_nonneg_right _ hpos.le
    have hx : q / 2 ^ (e - p) ≤ q' / 2 ^ (e - p) := div_le_div_of_nonneg_right hle hpos.le
    have hhalf := abs_le.mp h.half
    have hhalf' := abs_le.mp h'.half
    by_contra hnot
    have hsucc : m' + 1 ≤ m := by exact_mod_cast not_le.mp hnot
    have hcast : (m' : ℚ) + 1 ≤ m := by exact_mod_cast hsucc
    -- Only a tie between neighbours is left, and they are not both even.
    have heven := h.tie (by rw [abs_of_nonpos (by linarith)]; linarith)
    have heven' := h'.tie (by rw [abs_of_nonneg (by linarith)]; linarith)
    have hnext : m = m' + 1 := by
      have hupper : (m : ℚ) ≤ ((m' + 1 : ℕ) : ℚ) := by
        push_cast
        linarith
      exact le_antisymm (by exact_mod_cast hupper) hsucc
    rw [hnext, even_iff] at heven
    rw [even_iff] at heven'
    omega
  · exfalso
    have hlower := (le_div_iff₀ hpos).mp h.lower
    have hupper := (div_lt_iff₀ hpos').mp h'.upper
    have hexp := unit_mul_two_le p hgt
    have hscaled : (2 : ℚ) ^ p * (2 ^ (e' - p) * 2) ≤ 2 ^ p * 2 ^ (e - p) :=
      mul_le_mul_of_nonneg_left hexp (by positivity)
    rw [pow_succ] at hupper
    linarith

end OnGrid

/-- The nearest number to `q` with `p` bits of fraction, ties to the even significand. Below
`2 ^ least` the numbers stay as far apart as they are there. -/
def round (p : ℕ) (least : ℤ) (q : ℚ) : ℚ :=
  let unit : ℚ := 2 ^ (max (Int.log 2 q) least - p)
  let significand := ⌊q / unit⌋₊
  let rest := q / unit - significand
  if rest > 1 / 2 ∨ (rest = 1 / 2 ∧ significand % 2 = 1) then (significand + 1) * unit
  else significand * unit

theorem round_nonneg {p : ℕ} {least : ℤ} {q : ℚ} : 0 ≤ round p least q := by
  unfold round
  dsimp only
  split <;> positivity

theorem unit_le {p : ℕ} {least : ℤ} {q : ℚ} (hq : 0 ≤ q) (hleast : least ≤ 0) :
    (2 : ℚ) ^ (max (Int.log 2 q) least - p) ≤ (q + 1) / 2 ^ p := by
  rw [zpow_sub₀ (by norm_num), zpow_natCast]
  gcongr
  rcases max_choice (Int.log 2 q) least with h | h <;> rw [h]
  · rcases hq.eq_or_lt with rfl | hq
    · simp
    · exact (Int.zpow_log_le_self (by norm_num) hq).trans (by linarith)
  · exact (zpow_le_one_of_nonpos₀ (by norm_num) hleast).trans (by linarith)

/-- Rounding adds half a unit at most. -/
theorem round_le {p : ℕ} {least : ℤ} {q : ℚ} (hq : 0 ≤ q) (hleast : least ≤ 0) :
    round p least q ≤ q + (q + 1) / 2 ^ (p + 1) := by
  have hsmall := unit_le (p := p) hq hleast
  have hhalf : (q + 1) / 2 ^ (p + 1) = (q + 1) / 2 ^ p / 2 := by rw [pow_succ, div_div]
  unfold round
  set unit : ℚ := 2 ^ (max (Int.log 2 q) least - p)
  have hpos : 0 < unit := zpow_pos (by norm_num) _
  have hexact : q / unit * unit = q := div_mul_cancel₀ q hpos.ne'
  have hfloor : (⌊q / unit⌋₊ : ℚ) ≤ q / unit := floor_le (by positivity)
  dsimp only
  split
  · next hup =>
    have hrest : 1 / 2 ≤ q / unit - ⌊q / unit⌋₊ := hup.elim le_of_lt fun h => h.1.ge
    nlinarith
  · nlinarith [mul_le_mul_of_nonneg_right hfloor hpos.le]

end NearestEven
