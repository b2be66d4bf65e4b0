import Mathlib.Data.List.Basic
import Mathlib.Data.List.Induction
import Mathlib.Tactic.Ring

/-! Numbers written in groups of bits, the most significant group first, and written again in
groups of another width. -/

namespace Groups

open List Nat

/-- The number that groups of `w` bits stand for. -/
def value (w : Nat) (groups : List Nat) : Nat := groups.foldl (fun number group => number * 2 ^ w + group) 0

/-- Groups that fit their width. -/
def Fit (w : Nat) (groups : List Nat) : Prop := ∀ group ∈ groups, group < 2 ^ w

variable {w w' : Nat} {groups groups' written written' : List Nat}

@[simp] theorem value_nil (w : Nat) : value w [] = 0 := rfl

@[simp] theorem value_concat (w : Nat) (groups : List Nat) (group : Nat) :
    value w (groups ++ [group]) = value w groups * 2 ^ w + group := by
  simp [value]

theorem fit_concat {group : Nat} : Fit w (groups ++ [group]) ↔ Fit w groups ∧ group < 2 ^ w := by
  simp only [Fit, forall_mem_append, forall_mem_singleton]

theorem value_lt (hfit : Fit w groups) : value w groups < 2 ^ (w * groups.length) := by
  induction groups using reverseRecOn with
  | nil => exact Nat.one_pos
  | append_singleton groups group ih =>
    obtain ⟨hrest, hgroup⟩ := fit_concat.mp hfit
    have hmul := Nat.mul_le_mul_right (2 ^ w) (succ_le_of_lt (ih hrest))
    rw [succ_mul] at hmul
    rw [value_concat, length_append, length_singleton, mul_succ, pow_add]
    omega

theorem le_of_mul_le_add {count count' rest : Nat} (hrest : rest < w) (h : w * count ≤ w * count' + rest) :
    count ≤ count' := by
  apply le_of_lt_succ
  apply Nat.lt_of_mul_lt_mul_left (a := w)
  rw [mul_succ]
  omega

/-- As many groups that stand for the same number are the same groups. -/
theorem value_inj (hfit : Fit w groups) (hfit' : Fit w groups') (hlength : groups.length = groups'.length)
    (hvalue : value w groups = value w groups') : groups = groups' := by
  induction groups using reverseRecOn generalizing groups' with
  | nil => exact (length_eq_zero_iff.mp hlength.symm).symm
  | append_singleton groups group ih =>
    cases groups' using reverseRecOn with
    | nil => simp at hlength
    | append_singleton groups' group' =>
      obtain ⟨hrest, hgroup⟩ := fit_concat.mp hfit
      obtain ⟨hrest', hgroup'⟩ := fit_concat.mp hfit'
      have hpos : 0 < 2 ^ w := Nat.two_pow_pos w
      rw [value_concat, value_concat] at hvalue
      have hlast : group = group' := by
        have hmod := congrArg (· % 2 ^ w) hvalue
        simpa only [mul_add_mod_self_right, mod_eq_of_lt hgroup, mod_eq_of_lt hgroup'] using hmod
      subst hlast
      have hvalues : value w groups = value w groups' := by
        apply eq_of_mul_eq_mul_right hpos
        omega
      rw [ih hrest hrest' (by simpa using hlength) hvalues]

/-- While `groups` are being written in groups of `w'` bits: those written so far, and a number
`low` of `bits` bits that waits. -/
structure Split (w w' : Nat) (groups written : List Nat) (bits low : Nat) : Prop where
  fit : Fit w' written
  length_eq : w * groups.length = w' * written.length + bits
  value_eq : value w groups = value w' written * 2 ^ bits + low
  low_lt : low < 2 ^ bits

namespace Split

theorem nil (w w' : Nat) : Split w w' [] [] 0 0 :=
  ⟨fun _ hmem => absurd hmem not_mem_nil, rfl, rfl, Nat.one_pos⟩

variable {bits low : Nat}

/-- A group is read. -/
theorem read (h : Split w w' groups written bits low) {group : Nat} (hgroup : group < 2 ^ w) :
    Split w w' (groups ++ [group]) written (bits + w) (low * 2 ^ w + group) where
  fit := h.fit
  length_eq := by
    rw [length_append, length_singleton, mul_succ, h.length_eq]
    omega
  value_eq := by
    rw [value_concat, h.value_eq, pow_add]
    ring
  low_lt := by
    have hlow := Nat.mul_le_mul_right (2 ^ w) (succ_le_of_lt h.low_lt)
    rw [pow_add]
    rw [succ_mul] at hlow
    omega

/-- A group is written, once enough bits wait. -/
theorem write (h : Split w w' groups written bits low) (hbits : w' ≤ bits) :
    Split w w' groups (written ++ [low / 2 ^ (bits - w')]) (bits - w') (low % 2 ^ (bits - w')) where
  fit := by
    refine fit_concat.mpr ⟨h.fit, ?_⟩
    rw [Nat.div_lt_iff_lt_mul (Nat.two_pow_pos _), ← pow_add, Nat.add_sub_cancel' hbits]
    exact h.low_lt
  length_eq := by
    rw [length_append, length_singleton, mul_succ, h.length_eq]
    omega
  value_eq := by
    have hsplit := div_add_mod low (2 ^ (bits - w'))
    have hpow : 2 ^ bits = 2 ^ w' * 2 ^ (bits - w') := by rw [← pow_add, Nat.add_sub_cancel' hbits]
    rw [value_concat, h.value_eq, hpow]
    calc _ = value w' written * (2 ^ w' * 2 ^ (bits - w')) +
          (2 ^ (bits - w') * (low / 2 ^ (bits - w')) + low % 2 ^ (bits - w')) := by rw [hsplit]
      _ = _ := by ring
  low_lt := mod_lt _ (Nat.two_pow_pos _)

end Split

/-- The same number in groups of `w'` bits, with fewer zero bits after it than fill a group. -/
structure Padded (w w' : Nat) (groups written : List Nat) (pad : Nat) : Prop where
  pad_lt : pad < w'
  fit : Fit w' written
  length_eq : w * groups.length + pad = w' * written.length
  value_eq : value w' written = value w groups * 2 ^ pad

namespace Padded

variable {pad pad' : Nat}

/-- The padded groups are the only ones. -/
theorem unique (h : Padded w w' groups written pad) (h' : Padded w w' groups written' pad') : written = written' := by
  have hlt := h.pad_lt
  have hlt' := h'.pad_lt
  have hlength := h.length_eq
  have hlength' := h'.length_eq
  -- Both lengths are the quotient of the same number of bits, rounded up.
  have hsame : written.length = written'.length := by
    apply Nat.le_antisymm
    · exact le_of_mul_le_add hlt (by omega)
    · exact le_of_mul_le_add hlt' (by omega)
  rw [hsame] at hlength
  have hpad : pad = pad' := by omega
  apply value_inj h.fit h'.fit hsame
  rw [h.value_eq, h'.value_eq, hpad]

/-- What waits when all the groups are read is written shifted up to a whole group. -/
theorem of_split {bits low : Nat} (h : Split w w' groups written bits low) (hbits : bits < w') (hpos : bits ≠ 0) :
    Padded w w' groups (written ++ [low * 2 ^ (w' - bits)]) (w' - bits) where
  pad_lt := by omega
  fit := by
    refine fit_concat.mpr ⟨h.fit, ?_⟩
    have hpow : 2 ^ w' = 2 ^ bits * 2 ^ (w' - bits) := by rw [← pow_add, Nat.add_sub_cancel' hbits.le]
    rw [hpow]
    exact Nat.mul_lt_mul_of_pos_right h.low_lt (Nat.two_pow_pos _)
  length_eq := by
    rw [length_append, length_singleton, mul_succ, h.length_eq]
    omega
  value_eq := by
    have hpow : 2 ^ w' = 2 ^ bits * 2 ^ (w' - bits) := by rw [← pow_add, Nat.add_sub_cancel' hbits.le]
    rw [value_concat, h.value_eq, hpow]
    ring

theorem of_split_zero {low : Nat} (h : Split w w' groups written 0 low) (hpos : 0 < w') :
    Padded w w' groups written 0 where
  pad_lt := hpos
  fit := h.fit
  length_eq := h.length_eq
  value_eq := by
    have hlow := h.low_lt
    have hvalue := h.value_eq
    rw [pow_zero] at hlow hvalue ⊢
    omega

/-- Groups read back are those that were padded to them exactly when less waits than was
read last, and that is zero. -/
theorem iff_of_split {bits low : Nat} (h : Split w' w written groups bits low) (hbits : bits < w) (hle : w' ≤ w)
    (hwritten : Fit w' written) (hfit' : Fit w groups') :
    (∃ pad, Padded w w' groups' written pad) ↔ groups' = groups ∧ bits < w' ∧ low = 0 := by
  have hlength := h.length_eq
  have hvalue := h.value_eq
  constructor
  · rintro ⟨pad, hpadded⟩
    have hlt := hpadded.pad_lt
    have hlength' := hpadded.length_eq
    have hsame : groups'.length = groups.length := by
      apply Nat.le_antisymm
      · exact le_of_mul_le_add hbits (by omega)
      · exact le_of_mul_le_add (hlt.trans_le hle) (by omega)
    rw [hsame] at hlength'
    have hpad : pad = bits := by omega
    subst hpad
    rw [hpadded.value_eq] at hvalue
    have hlow : low = 0 := by
      have hmod := congrArg (· % 2 ^ pad) hvalue
      simpa only [mul_mod_left, mul_add_mod_self_right, mod_eq_of_lt h.low_lt] using hmod.symm
    refine ⟨value_inj hfit' h.fit hsame ?_, hlt, hlow⟩
    apply eq_of_mul_eq_mul_right (Nat.two_pow_pos pad)
    omega
  · rintro ⟨rfl, hlt, rfl⟩
    exact ⟨bits, hlt, hwritten, by omega, by omega⟩

end Padded

end Groups
