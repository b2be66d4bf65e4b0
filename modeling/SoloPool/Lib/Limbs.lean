import Mathlib.Data.List.Basic
import Mathlib.Data.Nat.Log
import Mathlib.Tactic.Ring

/-! Numbers in 64-bit words, the least significant word first. -/

namespace Limbs

open List

/-- The number that words stand for. -/
def value : List UInt64 → Nat
  | [] => 0
  | word :: words => word.toNat + 2 ^ 64 * value words

@[simp] theorem value_nil : value [] = 0 := rfl

@[simp] theorem value_cons (word : UInt64) (words : List UInt64) :
    value (word :: words) = word.toNat + 2 ^ 64 * value words := rfl

theorem value_lt (words : List UInt64) : value words < 2 ^ (64 * words.length) := by
  induction words with
  | nil => exact Nat.one_pos
  | cons word words ih =>
    have hword := word.toNat_lt
    rw [value_cons, length_cons, Nat.mul_succ, Nat.pow_add']
    omega

@[simp] theorem value_zeros (count : Nat) : value (replicate count 0) = 0 := by
  induction count with
  | zero => rfl
  | succ count ih => rw [replicate_succ, value_cons, ih, UInt64.toNat_zero, Nat.mul_zero]

theorem value_take_succ (words : List UInt64) (index : Nat) :
    value (words.take (index + 1)) = value (words.take index) + (words.getD index 0).toNat * 2 ^ (64 * index) := by
  induction words generalizing index with
  | nil => simp
  | cons word words ih =>
    cases index with
    | zero => simp
    | succ index =>
      rw [take_succ_cons, take_succ_cons, value_cons, value_cons, ih, getD_cons_succ, Nat.mul_succ,
        Nat.pow_add']
      ring

/-- Setting bits in a word that has none of them adds them in its place. -/
theorem value_modify_or {words : List UInt64} {index : Nat} (hindex : index < words.length) (bits : UInt64)
    (hapart : ((words.getD index 0) ||| bits).toNat = (words.getD index 0).toNat + bits.toNat) :
    value (words.modify index (· ||| bits)) = value words + bits.toNat * 2 ^ (64 * index) := by
  induction words generalizing index with
  | nil => cases hindex
  | cons word words ih =>
    cases index with
    | zero =>
      rw [getD_cons_zero] at hapart
      rw [modify_zero_cons, value_cons, value_cons, hapart]
      ring
    | succ index =>
      rw [getD_cons_succ] at hapart
      rw [modify_succ_cons, value_cons, value_cons, ih (Nat.lt_of_succ_lt_succ hindex) hapart, Nat.mul_succ,
        Nat.pow_add']
      ring

end Limbs
