import SoloPool.Util.Bytes
import Mathlib.Data.Rat.Floor

namespace erikslund.util

/-- A block hash or target: little-endian bytes that compare as one big integer. -/
structure uint256 where
  le_bytes : Hash256
deriving DecidableEq

namespace uint256

/-- `from_le_bytes` on a full-width array, the only way the pool calls it. -/
def from_le_bytes (little_endian : Hash256) : uint256 := ⟨little_endian⟩

def is_zero (value : uint256) : Bool := value.le_bytes.val.all (· == 0)

/-- The comparison loop, over bytes with the most significant one first. -/
def compare_bytes : Bytes → Bytes → Ordering
  | a :: as, b :: bs => if a = b then compare_bytes as bs else compare a b
  | _, _ => .eq

/-- `operator<=>`. -/
def compare (a b : uint256) : Ordering :=
  compare_bytes a.le_bytes.val.reverse b.le_bytes.val.reverse

def toNat (value : uint256) : Nat := Radix.value value.le_bytes.val

instance : LE uint256 := ⟨fun a b => a.compare b ≠ .gt⟩

instance (a b : uint256) : Decidable (a ≤ b) := inferInstanceAs (Decidable (_ ≠ _))

/-- `std::min`: the first argument unless the second one is smaller. -/
def min (a b : uint256) : uint256 := if b.compare a = .lt then b else a

/-- The bytes of a number below `2 ^ 256`, least significant first. -/
def ofNat (value : Nat) : uint256 := ⟨⟨Radix.le 32 value, Radix.le_length 32 value⟩⟩

theorem compare_bytes_spec {as bs : Bytes} (hlen : as.length = bs.length) :
    (compare_bytes as bs = .lt ↔ Radix.value as.reverse < Radix.value bs.reverse) ∧
      (compare_bytes as bs = .gt ↔ Radix.value bs.reverse < Radix.value as.reverse) := by
  induction as generalizing bs with
  | nil =>
    cases bs with
    | nil => simp [compare_bytes]
    | cons b bs => simp at hlen
  | cons a as ih =>
    cases bs with
    | nil => simp at hlen
    | cons b bs =>
      have hlen' : as.length = bs.length := by simpa using hlen
      have hla := Radix.value_lt as.reverse
      have hlb := Radix.value_lt bs.reverse
      simp only [List.reverse_cons, Radix.value_append, Radix.value, List.length_reverse, Nat.mul_zero,
        Nat.add_zero] at hla hlb ⊢
      rw [hlen'] at hla ⊢
      by_cases hab : a = b
      · subst b
        simpa only [compare_bytes, if_true, Nat.add_lt_add_iff_right] using ih hlen'
      · simp only [compare_bytes, if_neg hab]
        rcases Nat.lt_or_gt_of_ne (fun h => hab (UInt8.toNat_inj.mp h)) with hlt | hgt
        · have hmul : 256 ^ bs.length * (a.toNat + 1) ≤ 256 ^ bs.length * b.toNat := Nat.mul_le_mul_left _ hlt
          have hcmp : Ord.compare a b = .lt := by
            simp [Ord.compare, compareOfLessAndEq, UInt8.lt_iff_toNat_lt, hlt]
          rw [Nat.mul_add] at hmul
          simp only [hcmp, true_iff, reduceCtorEq, false_iff, Nat.not_lt]
          omega
        · have hmul : 256 ^ bs.length * (b.toNat + 1) ≤ 256 ^ bs.length * a.toNat := Nat.mul_le_mul_left _ hgt
          have hcmp : Ord.compare a b = .gt := by
            simp [Ord.compare, compareOfLessAndEq, UInt8.lt_iff_toNat_lt, Nat.not_lt.mpr (Nat.le_of_lt hgt), hab]
          rw [Nat.mul_add] at hmul
          simp only [hcmp, true_iff, reduceCtorEq, false_iff, Nat.not_lt]
          omega

/-- The byte-wise comparison is the comparison of the represented numbers. -/
theorem compare_spec (a b : uint256) :
    (a.compare b = .lt ↔ a.toNat < b.toNat) ∧ (a.compare b = .gt ↔ b.toNat < a.toNat) := by
  have hlen : a.le_bytes.val.reverse.length = b.le_bytes.val.reverse.length := by
    simp [a.le_bytes.property, b.le_bytes.property]
  simpa only [compare, toNat, List.reverse_reverse] using compare_bytes_spec hlen

theorem le_iff_toNat (a b : uint256) : a ≤ b ↔ a.toNat ≤ b.toNat := by
  change a.compare b ≠ .gt ↔ _
  rw [Ne, (compare_spec a b).2]
  omega

theorem min_le_right (a b : uint256) : min a b ≤ b := by
  rw [le_iff_toNat]
  unfold min
  split
  · exact Nat.le_refl _
  · rename_i hnot
    rw [(compare_spec b a).1] at hnot
    omega

theorem toNat_lt (a : uint256) : a.toNat < 2 ^ 256 := by
  have h := Radix.value_lt a.le_bytes.val
  rw [a.le_bytes.property] at h
  exact h

end uint256

def target_from_compact (nbits : UInt32) : uint256 :=
  let exponent := nbits >>> 24
  let mantissa := nbits &&& 0x007fffff
  let place (index : Nat) (m : UInt32) : uint256 :=
    ⟨⟨(List.range 32).map (fun i =>
      if i = index then m.toUInt8
      else if i = index + 1 then (m >>> 8).toUInt8
      else if i = index + 2 then (m >>> 16).toUInt8 else 0), by simp⟩⟩
  if exponent ≤ 3 then place 0 (mantissa >>> (8 * (3 - exponent)))
  else place (exponent - 3).toNat mantissa

/-- `kDifficultyOneTarget`. -/
def difficulty_one_target : Nat := 0xffff * 2 ^ 208

/-- Doubles are exact rationals here and in every session; `none` is infinity. -/
def difficulty_from_target (target : uint256) : Option ℚ :=
  if target.is_zero then none else some ((difficulty_one_target : ℚ) / target.toNat)

/-- The word-by-word conversion of the quotient, over exact rationals its floor. -/
def target_from_difficulty (difficulty : ℚ) : uint256 :=
  if ¬ difficulty > 24 / 10 ^ 11 then .ofNat (2 ^ 256 - 1)
  else .ofNat ⌊(difficulty_one_target : ℚ) / difficulty⌋₊

def meets_target (hash target : uint256) : Bool := decide (hash ≤ target)

theorem uint256.toNat_ofNat {value : Nat} (h : value < 2 ^ 256) : (uint256.ofNat value).toNat = value :=
  (Radix.value_le 32 value).trans (Nat.mod_eq_of_lt h)

/-- A higher difficulty has a lower target. -/
theorem target_from_difficulty_anti {difficulty difficulty' : ℚ} (h : difficulty ≤ difficulty') :
    target_from_difficulty difficulty' ≤ target_from_difficulty difficulty := by
  rw [uint256.le_iff_toNat]
  unfold target_from_difficulty
  by_cases hsmall : difficulty > 24 / 10 ^ 11
  · have hpos : 0 < difficulty := lt_trans (by norm_num) hsmall
    have hsmall' : difficulty' > 24 / 10 ^ 11 := lt_of_lt_of_le hsmall h
    have hquotient : (difficulty_one_target : ℚ) / difficulty' ≤ difficulty_one_target / difficulty :=
      div_le_div_of_nonneg_left (Nat.cast_nonneg _) hpos h
    have hfloor := Nat.floor_le_floor hquotient
    have hfits : ⌊(difficulty_one_target : ℚ) / difficulty⌋₊ < 2 ^ 256 := by
      rw [Nat.floor_lt' (by decide), div_lt_iff₀ hpos]
      calc (difficulty_one_target : ℚ) < ((2 ^ 256 : ℕ) : ℚ) * (24 / 10 ^ 11) := by norm_num [difficulty_one_target]
        _ < ((2 ^ 256 : ℕ) : ℚ) * difficulty := mul_lt_mul_of_pos_left hsmall (by norm_num)
    rw [if_neg (not_not.mpr hsmall), if_neg (not_not.mpr hsmall'), uint256.toNat_ofNat hfits,
      uint256.toNat_ofNat (hfloor.trans_lt hfits)]
    exact hfloor
  · rw [if_pos hsmall, uint256.toNat_ofNat (by norm_num)]
    exact Nat.le_pred_of_lt (uint256.toNat_lt _)

end erikslund.util
