import Mathlib.Data.List.Basic
import Mathlib.Data.Nat.Digits.Defs
import Mathlib.Tactic.Ring

/-! Fixed-width base-256 representations of natural numbers. -/

namespace Radix

open List

/-- The `n` low-order base-256 digits of `v`, least significant first. -/
def le : Nat → Nat → List UInt8
  | 0, _ => []
  | n + 1, v => UInt8.ofNat v :: le n (v / 256)

/-- The same digits, most significant first. -/
def be (n v : Nat) : List UInt8 := (le n v).reverse

/-- The number whose digits, least significant first, are the given bytes. -/
def value : List UInt8 → Nat
  | [] => 0
  | b :: bs => b.toNat + 256 * value bs

@[simp] theorem le_length (n v : Nat) : (le n v).length = n := by
  induction n generalizing v with
  | zero => rfl
  | succ n ih => simp [le, ih]

@[simp] theorem be_length (n v : Nat) : (be n v).length = n := by
  simp [be]

theorem value_le (n v : Nat) : value (le n v) = v % 256 ^ n := by
  induction n generalizing v with
  | zero => simp [le, value, Nat.mod_one]
  | succ n ih =>
    have hbyte : (UInt8.ofNat v).toNat = v % 256 := by simp
    rw [le, value, ih, hbyte, Nat.pow_succ', Nat.mod_mul]

theorem value_append (xs ys : List UInt8) :
    value (xs ++ ys) = value xs + 256 ^ xs.length * value ys := by
  induction xs with
  | nil => simp [value]
  | cons b xs ih =>
    simp only [cons_append, value, ih, length_cons]
    ring

theorem value_lt (xs : List UInt8) : value xs < 256 ^ xs.length := by
  induction xs with
  | nil => simp [value]
  | cons b xs ih =>
    have hb := b.toNat_lt
    rw [value, length_cons, Nat.pow_succ']
    omega

/-- Digits read and written again are the same digits. -/
theorem le_value (xs : List UInt8) : le xs.length (value xs) = xs := by
  induction xs with
  | nil => rfl
  | cons b xs ih =>
    have hb := b.toNat_lt
    have hrest : (b.toNat + 256 * value xs) / 256 = value xs := by omega
    have hdigit : UInt8.ofNat (b.toNat + 256 * value xs) = b := by
      apply UInt8.toNat_inj.mp
      rw [UInt8.toNat_ofNat']
      omega
    rw [length_cons, value, le, hrest, ih, hdigit]

/-- Only the low-order digits of a number are written. -/
theorem be_mod (n v : Nat) : be n (v % 256 ^ n) = be n v := by
  have h := le_value (le n v)
  rw [le_length, value_le] at h
  rw [be, be, h]

theorem le_inj {n v w : Nat} (h : le n v = le n w) : v % 256 ^ n = w % 256 ^ n := by
  rw [← value_le, ← value_le, h]

theorem be_inj {n v w : Nat} (h : be n v = be n w) : v % 256 ^ n = w % 256 ^ n :=
  le_inj (reverse_injective h)

/-- Distinct numbers below the modulus have distinct representations. -/
theorem be_inj_of_lt {n v w : Nat} (hv : v < 256 ^ n) (hw : w < 256 ^ n) (h : be n v = be n w) :
    v = w := by
  have hmod := be_inj h
  rwa [Nat.mod_eq_of_lt hv, Nat.mod_eq_of_lt hw] at hmod

theorem le_add (m n v : Nat) : le (m + n) v = le m v ++ le n (v / 256 ^ m) := by
  induction m generalizing v with
  | zero => simp [le]
  | succ m ih =>
    rw [Nat.succ_add, le, le, ih, cons_append, Nat.div_div_eq_div_mul, ← Nat.pow_succ']

/-- The leading `n` of `n + m` digits represent the quotient by `256 ^ m`. -/
theorem be_add (n m v : Nat) : be (n + m) v = be n (v / 256 ^ m) ++ be m v := by
  rw [be, Nat.add_comm, le_add, reverse_append]
  rfl

end Radix
