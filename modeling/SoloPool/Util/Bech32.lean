import Mathlib.Data.List.Iterate
import SoloPool.Lib.Groups
import SoloPool.Lib.Superposition
import SoloPool.Util.Bytes

namespace erikslund.util

open List Nat

def kCharset : Text := "qpzry9x8gf2tvdw0s3jn54khce6mua7l".toList

inductive Encoding
  | Invalid
  | Bech32
  | Bech32m
deriving DecidableEq

def kBech32Const : UInt32 := 1

def kBech32mConst : UInt32 := 0x2bc830a3

/-- The generator of each bit that is shifted out. -/
def generator : List UInt32 := [0x3b6a57b2, 0x26508e6d, 0x1ea119fa, 0x3d4233dd, 0x2a1462b3]

/-- One turn of the loop of `polymod`. -/
def polymod_step (checksum : UInt32) (value : UInt8) : UInt32 :=
  let top := (checksum >>> 25).toUInt8
  generator.zipIdx.foldl
    (fun checksum term => if (top >>> UInt8.ofNat term.2) &&& 1 ≠ 0 then checksum ^^^ term.1 else checksum)
    (((checksum &&& 0x1ffffff) <<< 5) ^^^ value.toUInt32)

def polymod (values : List UInt8) : UInt32 := values.foldl polymod_step 1

def hrp_expand (hrp : Text) : List UInt8 :=
  hrp.map (fun c => UInt8.ofNat c.toNat >>> 5) ++ 0 :: hrp.map (fun c => UInt8.ofNat c.toNat &&& 31)

def checksum_constant (encoding : Encoding) : UInt32 :=
  if encoding = .Bech32m then kBech32mConst else kBech32Const

def verify_checksum (hrp : Text) (data : List UInt8) : Encoding :=
  let residue := polymod (hrp_expand hrp ++ data)
  if residue = kBech32Const then .Bech32
  else if residue = kBech32mConst then .Bech32m
  else .Invalid

def create_checksum (hrp : Text) (data : List UInt8) (encoding : Encoding) : List UInt8 :=
  let residue := polymod (hrp_expand hrp ++ data ++ replicate 6 0) ^^^ checksum_constant encoding
  (range 6).map (fun i => ((residue >>> UInt32.ofNat (5 * (5 - i))) &&& 31).toUInt8)

/-- The index of a character of the alphabet; `none` stands for −1. -/
def charset_index (c : Char) : Option Nat := kCharset.findIdx? (fun symbol => symbol = c)

/-- What `convertbits` keeps from one value to the next. -/
structure Regrouping where
  accumulator : UInt32
  bits : Nat
  out : List UInt8

/-- `(1 << bits) - 1`. -/
def low_bits (bits : Nat) : UInt32 := (1 <<< UInt32.ofNat bits) - 1

/-- The inner loop of `convertbits`: a group is written while enough bits wait. -/
def Regrouping.drain (tobits : Nat) (state : Regrouping) : Regrouping :=
  if h : 0 < tobits ∧ tobits ≤ state.bits then
    drain tobits { state with
      bits := state.bits - tobits
      out := state.out ++
        [((state.accumulator >>> UInt32.ofNat (state.bits - tobits)) &&& low_bits tobits).toUInt8] }
  else state
termination_by state.bits

def Regrouping.absorb (frombits tobits : Nat) (state : Regrouping) (value : UInt8) : Option Regrouping :=
  if value.toUInt32 >>> UInt32.ofNat frombits ≠ 0 then none
  else some (Regrouping.drain tobits { state with
    accumulator := ((state.accumulator <<< UInt32.ofNat frombits) ||| value.toUInt32) &&& low_bits (frombits + tobits - 1)
    bits := state.bits + frombits })

def convertbits (input : List UInt8) (frombits tobits : Nat) (pad : Bool) : Option (List UInt8) :=
  match input.foldlM (Regrouping.absorb frombits tobits) ⟨0, 0, []⟩ with
  | none => none
  | some state =>
    let rest := (state.accumulator <<< UInt32.ofNat (tobits - state.bits)) &&& low_bits tobits
    if pad then
      if state.bits ≠ 0 then some (state.out ++ [rest.toUInt8]) else some state.out
    else if state.bits ≥ frombits ∨ rest ≠ 0 then none
    else some state.out

/-- The generators that the bits shifted out select. -/
def feedback (top : UInt8) : UInt32 :=
  generator.zipIdx.foldl
    (fun sum term => sum ^^^ if (top >>> UInt8.ofNat term.2) &&& 1 ≠ 0 then term.1 else 0) 0

theorem and_one_cases (byte : UInt8) : byte &&& 1 = 0 ∨ byte &&& 1 = 1 := by
  have h : (byte &&& 1).toNat = byte.toNat % 2 := by
    rw [UInt8.toNat_and]
    exact and_one_is_mod _
  rcases mod_two_eq_zero_or_one byte.toNat with hmod | hmod
  · left
    apply UInt8.toNat_inj.mp
    rw [h, hmod]
    rfl
  · right
    apply UInt8.toNat_inj.mp
    rw [h, hmod]
    rfl

theorem xor_cancel (a b : UInt32) : a ^^^ (a ^^^ b) = b := by
  rw [← UInt32.xor_assoc, UInt32.xor_self, UInt32.zero_xor]

theorem xor_and_distrib {width : Nat} (a b mask : BitVec width) :
    (a ^^^ b) &&& mask = (a &&& mask) ^^^ (b &&& mask) := by
  ext i
  simp only [BitVec.getElem_and, BitVec.getElem_xor, Bool.and_xor_distrib_right]

theorem selected_xor (top top' shift : UInt8) (term : UInt32) :
    (if ((top ^^^ top') >>> shift) &&& 1 ≠ 0 then term else 0) =
      (if (top >>> shift) &&& 1 ≠ 0 then term else 0) ^^^ (if (top' >>> shift) &&& 1 ≠ 0 then term else 0) := by
  have hbit : ((top ^^^ top') >>> shift) &&& 1 = ((top >>> shift) &&& 1) ^^^ ((top' >>> shift) &&& 1) := by
    apply UInt8.eq_of_toBitVec_eq
    simp [BitVec.ushiftRight_xor_distrib, xor_and_distrib]
  rw [hbit]
  rcases and_one_cases (top >>> shift) with h | h <;> rcases and_one_cases (top' >>> shift) with h' | h' <;>
    simp [h, h']

theorem polymod_step_eq (checksum : UInt32) (value : UInt8) :
    polymod_step checksum value =
      (((checksum &&& 0x1ffffff) <<< 5) ^^^ value.toUInt32) ^^^ feedback (checksum >>> 25).toUInt8 := by
  have hselect (p : Prop) [Decidable p] (sum term : UInt32) : (if p then sum ^^^ term else sum) = sum ^^^ if p then term else 0 := by
    split
    · rfl
    · rw [UInt32.xor_zero]
  simp only [polymod_step, feedback, hselect, generator, zipIdx, foldl_cons, foldl_nil, UInt32.zero_xor, UInt32.xor_assoc]

theorem feedback_xor (top top' : UInt8) : feedback (top ^^^ top') = feedback top ^^^ feedback top' := by
  simp only [feedback, selected_xor, generator, zipIdx, foldl_cons, foldl_nil, UInt32.zero_xor]
  ac_rfl

theorem polymod_step_xor (a b : UInt32) (v w : UInt8) :
    polymod_step (a ^^^ b) (v ^^^ w) = polymod_step a v ^^^ polymod_step b w := by
  have hshift : ((a ^^^ b) &&& 0x1ffffff) <<< 5 = ((a &&& 0x1ffffff) <<< 5) ^^^ ((b &&& 0x1ffffff) <<< 5) := by
    apply UInt32.eq_of_toBitVec_eq
    simp [BitVec.shiftLeft_xor_distrib, xor_and_distrib]
  have htop : ((a ^^^ b) >>> 25).toUInt8 = (a >>> 25).toUInt8 ^^^ (b >>> 25).toUInt8 := by
    apply UInt8.eq_of_toBitVec_eq
    simp [BitVec.ushiftRight_xor_distrib]
  have hvalue : (v ^^^ w).toUInt32 = v.toUInt32 ^^^ w.toUInt32 := by
    apply UInt32.eq_of_toBitVec_eq
    simp
  rw [polymod_step_eq, polymod_step_eq, polymod_step_eq, hshift, htop, hvalue, feedback_xor]
  ac_rfl

theorem xor_of_low {number low width : Nat} (hlow : low < 2 ^ width) : (number * 2 ^ width) ^^^ low = number * 2 ^ width + low := by
  have hdiv : ((number * 2 ^ width) ^^^ low) / 2 ^ width = number := by
    rw [xor_div_two_pow, Nat.mul_div_cancel _ (Nat.two_pow_pos width), div_eq_of_lt hlow, xor_zero]
  have hmod : ((number * 2 ^ width) ^^^ low) % 2 ^ width = low := by
    rw [xor_mod_two_pow, mul_mod_left, mod_eq_of_lt hlow, Nat.zero_xor]
  rw [← div_add_mod ((number * 2 ^ width) ^^^ low) (2 ^ width), hdiv, hmod, Nat.mul_comm]

theorem feedback_lt (top : UInt8) : (feedback top).toNat < 2 ^ 30 := by
  have hterm (p : Prop) [Decidable p] {term : UInt32} (h : term.toNat < 2 ^ 30) : (if p then term else 0).toNat < 2 ^ 30 := by
    split
    · exact h
    · decide
  simp only [feedback, generator, zipIdx, foldl_cons, foldl_nil, UInt32.zero_xor, UInt32.toNat_xor]
  refine xor_lt_two_pow (xor_lt_two_pow (xor_lt_two_pow (xor_lt_two_pow ?_ ?_) ?_) ?_) ?_ <;>
    exact hterm _ (by decide)

theorem masked_shift_toNat (checksum : UInt32) :
    ((checksum &&& 0x1ffffff) <<< 5).toNat = checksum.toNat % 2 ^ 25 * 2 ^ 5 := by
  have hmask : (checksum &&& 0x1ffffff).toNat = checksum.toNat % 2 ^ 25 := by
    rw [UInt32.toNat_and]
    exact and_two_pow_sub_one_eq_mod _ 25
  rw [UInt32.toNat_shiftLeft, hmask]
  simp only [shiftLeft_eq]
  have hlt : checksum.toNat % 2 ^ 25 < 2 ^ 25 := mod_lt _ (by decide)
  have : (5 : UInt32).toNat % 32 = 5 := by decide
  rw [this]
  omega

theorem polymod_step_lt (checksum : UInt32) {value : UInt8} (hvalue : value.toNat < 32) :
    (polymod_step checksum value).toNat < 2 ^ 30 := by
  have hlt : checksum.toNat % 2 ^ 25 < 2 ^ 25 := mod_lt _ (by decide)
  rw [polymod_step_eq, UInt32.toNat_xor, UInt32.toNat_xor, masked_shift_toNat, UInt8.toNat_toUInt32]
  exact xor_lt_two_pow (xor_lt_two_pow (by omega) (by omega)) (feedback_lt _)

theorem polymod_step_small {checksum : UInt32} {value : UInt8} (hchecksum : checksum.toNat < 2 ^ 25) (hvalue : value.toNat < 32) :
    (polymod_step checksum value).toNat = checksum.toNat * 2 ^ 5 + value.toNat := by
  have htop : (checksum >>> 25).toUInt8 = 0 := by
    apply UInt8.toNat_inj.mp
    rw [UInt32.toNat_toUInt8, UInt32.toNat_shiftRight]
    simp only [shiftRight_eq_div_pow]
    have hshift : (25 : UInt32).toNat % 32 = 25 := by decide
    rw [hshift, div_eq_of_lt hchecksum]
    decide
  rw [polymod_step_eq, htop, show feedback 0 = 0 by decide, UInt32.xor_zero, UInt32.toNat_xor, masked_shift_toNat, UInt8.toNat_toUInt32,
    mod_eq_of_lt hchecksum]
  exact xor_of_low hvalue

/-- The difference of one symbol, however many symbols after it are read, leads neither back to
the same constant nor from one constant to the other. -/
theorem errors_detected :
    (range 31).all (fun error => (iterate (fun part => polymod_step part 0) (UInt32.ofNat (error + 1)) 90).all
      (fun part => part ≠ 0 ∧ part ≠ kBech32Const ^^^ kBech32mConst)) = true := by
  decide +kernel

/-- Two parts of a checksum can be run apart, one of them over the symbol zero. -/
theorem polymod_step_part (part state : UInt32) (symbol : UInt8) :
    polymod_step (part ^^^ state) symbol = polymod_step part 0 ^^^ polymod_step state symbol := by
  rw [← polymod_step_xor, UInt8.zero_xor]

/-- The six symbols of a residue. -/
def residue_symbols (residue : UInt32) : List UInt8 :=
  (range 6).map (fun i => ((residue >>> UInt32.ofNat (5 * (5 - i))) &&& 31).toUInt8)

theorem residue_symbol_toNat (residue : UInt32) {shift : Nat} (hshift : shift < 32) :
    ((residue >>> UInt32.ofNat shift) &&& 31).toUInt8.toNat = residue.toNat / 2 ^ shift % 32 := by
  have hcount : (UInt32.ofNat shift).toNat % 32 = shift := by
    rw [UInt32.toNat_ofNat']
    omega
  have hmask : ((residue >>> UInt32.ofNat shift) &&& 31).toNat = residue.toNat / 2 ^ shift % 2 ^ 5 := by
    rw [UInt32.toNat_and, UInt32.toNat_shiftRight, hcount, shiftRight_eq_div_pow]
    exact and_two_pow_sub_one_eq_mod _ 5
  rw [UInt32.toNat_toUInt8, hmask]
  omega

open Groups

theorem residue_symbols_fit (residue : UInt32) : Fit 5 ((residue_symbols residue).map UInt8.toNat) := by
  intro symbol hmem
  simp only [residue_symbols, map_map, mem_map, mem_range, Function.comp_apply] at hmem
  obtain ⟨i, hi, rfl⟩ := hmem
  rw [residue_symbol_toNat residue (by omega)]
  exact mod_lt _ (by decide)

theorem residue_symbols_value {residue : UInt32} (hlt : residue.toNat < 2 ^ 30) :
    Groups.value 5 ((residue_symbols residue).map UInt8.toNat) = residue.toNat := by
  have hsymbol (shift : Nat) (hshift : shift < 32) := residue_symbol_toNat residue hshift
  have hlist : (residue_symbols residue).map UInt8.toNat = [residue.toNat / 2 ^ 25 % 32, residue.toNat / 2 ^ 20 % 32,
      residue.toNat / 2 ^ 15 % 32, residue.toNat / 2 ^ 10 % 32, residue.toNat / 2 ^ 5 % 32, residue.toNat / 2 ^ 0 % 32] := by
    rw [← hsymbol 25 (by decide), ← hsymbol 20 (by decide), ← hsymbol 15 (by decide), ← hsymbol 10 (by decide),
      ← hsymbol 5 (by decide), ← hsymbol 0 (by decide)]
    rfl
  rw [hlist]
  simp only [Groups.value, foldl_cons, foldl_nil]
  omega

/-- Up to six symbols read from nothing are the number they stand for. -/
theorem foldl_symbols_toNat {symbols : List UInt8} (hfit : Fit 5 (symbols.map UInt8.toNat))
    (hlength : symbols.length ≤ 6) :
    (symbols.foldl polymod_step 0).toNat = Groups.value 5 (symbols.map UInt8.toNat) := by
  induction symbols using reverseRecOn with
  | nil => rfl
  | append_singleton symbols symbol ih =>
    rw [length_append, length_singleton] at hlength
    rw [map_append, map_singleton] at hfit ⊢
    obtain ⟨hrest, hsymbol⟩ := Groups.fit_concat.mp hfit
    have hvalue := ih hrest (by omega)
    have hlt : (symbols.foldl polymod_step 0).toNat < 2 ^ 25 := by
      rw [hvalue]
      apply (value_lt hrest).trans_le
      rw [length_map]
      exact Nat.pow_le_pow_right (by decide) (by omega)
    rw [foldl_append, foldl_cons, foldl_nil, polymod_step_small hlt hsymbol, Groups.value_concat, hvalue]

/-- Six symbols after the others add the number they stand for. -/
theorem polymod_append_six (values : List UInt8) {check : List UInt8} (hlength : check.length = 6) :
    polymod (values ++ check) = polymod (values ++ replicate 6 0) ^^^ check.foldl polymod_step 0 := by
  have hblank (part : UInt32) : (replicate 6 0).foldl polymod_step part = (fun part => polymod_step part 0)^[6] part := rfl
  have hparts := Superposition.foldl_add polymod_step_part check (polymod values) 0
  rw [UInt32.xor_zero, hlength, ← hblank] at hparts
  rw [polymod, foldl_append, polymod, foldl_append]
  exact hparts

theorem polymod_padded_lt (values : List UInt8) : (polymod (values ++ replicate 6 0)).toNat < 2 ^ 30 := by
  have hlast : values ++ replicate 6 0 = (values ++ replicate 5 0) ++ [0] := by simp
  rw [polymod, hlast, foldl_append]
  exact polymod_step_lt _ (by decide)

/-- The symbols that complete the others to a constant are those of `create_checksum`, and no
other six. -/
theorem polymod_append_iff (hrp : Text) (data : List UInt8) (encoding : Encoding) {check : List UInt8} (hlength : check.length = 6)
    (hfit : Fit 5 (check.map UInt8.toNat)) :
    polymod (hrp_expand hrp ++ data ++ check) = checksum_constant encoding ↔ check = create_checksum hrp data encoding := by
  have hresidue : (polymod (hrp_expand hrp ++ data ++ replicate 6 0) ^^^ checksum_constant encoding).toNat < 2 ^ 30 := by
    rw [UInt32.toNat_xor]
    refine xor_lt_two_pow (polymod_padded_lt _) ?_
    cases encoding <;> decide
  have hcreate : create_checksum hrp data encoding =
      residue_symbols (polymod (hrp_expand hrp ++ data ++ replicate 6 0) ^^^ checksum_constant encoding) := rfl
  rw [polymod_append_six _ hlength, hcreate]
  generalize polymod (hrp_expand hrp ++ data ++ replicate 6 0) = padded at hresidue ⊢
  generalize checksum_constant encoding = constant at hresidue ⊢
  have hsolve : padded ^^^ check.foldl polymod_step 0 = constant ↔ check.foldl polymod_step 0 = padded ^^^ constant := by
    constructor
    · rintro rfl
      rw [xor_cancel]
    · intro h
      rw [h, xor_cancel]
  rw [hsolve, ← UInt32.toNat_inj, foldl_symbols_toNat hfit hlength.le, ← residue_symbols_value hresidue]
  constructor
  · intro hvalue
    apply map_injective_iff.mpr (fun a b h => UInt8.toNat_inj.mp h)
    exact value_inj hfit (residue_symbols_fit _) (by rw [length_map, hlength]; rfl) hvalue
  · intro hcheck
    rw [← hcheck]

theorem polymod_step_zero (symbol : UInt8) : polymod_step 0 symbol = symbol.toUInt32 := by
  rw [polymod_step_eq]
  simp only [UInt32.zero_and, UInt32.zero_shiftLeft, UInt32.zero_xor, UInt32.zero_shiftRight]
  exact UInt32.xor_zero

theorem polymod_step_changed (checksum : UInt32) (symbol symbol' : UInt8) :
    polymod_step checksum symbol' = (symbol' ^^^ symbol).toUInt32 ^^^ polymod_step checksum symbol := by
  have hsymbol : symbol' ^^^ symbol ^^^ symbol = symbol' := by
    rw [UInt8.xor_assoc, UInt8.xor_self, UInt8.xor_zero]
  have hparts := polymod_step_xor 0 checksum (symbol' ^^^ symbol) symbol
  rwa [UInt32.zero_xor, hsymbol, polymod_step_zero] at hparts

/-- One symbol changed makes a checksum that was valid invalid. -/
theorem verify_checksum_changed {hrp : Text} {before after : List UInt8} {symbol symbol' : UInt8}
    (hvalid : verify_checksum hrp (before ++ symbol :: after) ≠ .Invalid) (hne : symbol' ≠ symbol)
    (hsymbol : symbol.toNat < 32) (hsymbol' : symbol'.toNat < 32) (hlength : after.length < 90) :
    verify_checksum hrp (before ++ symbol' :: after) = .Invalid := by
  have hparts := Superposition.foldl_changed polymod_step_part after
    (polymod_step_changed ((hrp_expand hrp ++ before).foldl polymod_step 1) symbol symbol')
  change polymod _ = _ ^^^ polymod _ at hparts
  rw [append_assoc, append_assoc] at hparts
  -- The difference is one of those that were run through.
  have hdifference : (symbol' ^^^ symbol).toNat < 2 ^ 5 := by
    rw [UInt8.toNat_xor]
    exact xor_lt_two_pow hsymbol' hsymbol
  have hnonzero : (symbol' ^^^ symbol).toNat ≠ 0 := by
    intro hzero
    apply hne
    exact UInt8.xor_eq_zero_iff.mp (UInt8.toNat_inj.mp hzero)
  have hsame : (symbol' ^^^ symbol).toUInt32 = UInt32.ofNat ((symbol' ^^^ symbol).toNat - 1 + 1) := by
    rw [Nat.sub_add_cancel (Nat.pos_of_ne_zero hnonzero), UInt32.ofNat_uInt8ToNat]
  have hrange := all_eq_true.mp errors_detected ((symbol' ^^^ symbol).toNat - 1) (mem_range.mpr (by omega))
  rw [← hsame] at hrange
  have hdetected := all_eq_true.mp hrange
    ((fun part => polymod_step part 0)^[after.length] (symbol' ^^^ symbol).toUInt32)
    (mem_iterate.mpr ⟨after.length, hlength, rfl⟩)
  rw [decide_eq_true_eq] at hdetected
  generalize (fun part => polymod_step part 0)^[after.length] (symbol' ^^^ symbol).toUInt32 = part at hparts hdetected
  simp only [verify_checksum, hparts] at hvalid ⊢
  generalize polymod (hrp_expand hrp ++ (before ++ symbol :: after)) = residue at hvalid
  have hsolve {constant : UInt32} : part ^^^ residue = constant ↔ part = residue ^^^ constant := by
    rw [UInt32.xor_comm part]
    constructor
    · rintro rfl
      rw [xor_cancel]
    · rintro rfl
      rw [xor_cancel]
  simp only [hsolve]
  split at hvalid
  · rename_i hfirst
    rw [hfirst, UInt32.xor_self, if_neg hdetected.1, if_neg hdetected.2]
  · split at hvalid
    · rename_i hsecond
      rw [hsecond, UInt32.xor_self, UInt32.xor_comm, if_neg hdetected.2, if_neg hdetected.1]
    · exact absurd rfl hvalid

section Regrouping

variable {frombits tobits : Nat}

variable {bits : Nat} {read : List UInt8} {state : Regrouping}

theorem low_bits_toNat (hbits : bits < 32) : (low_bits bits).toNat = 2 ^ bits - 1 := by
  have hshift : (1 <<< UInt32.ofNat bits : UInt32).toNat = 2 ^ bits := by
    have hcount : (UInt32.ofNat bits).toNat % 32 = bits := by
      rw [UInt32.toNat_ofNat']
      omega
    rw [UInt32.toNat_shiftLeft, hcount, UInt32.toNat_one, one_shiftLeft]
    exact mod_eq_of_lt (Nat.pow_lt_pow_right (by decide) hbits)
  have hpos := Nat.two_pow_pos bits
  rw [low_bits, UInt32.toNat_sub_of_le, hshift, UInt32.toNat_one]
  rw [UInt32.le_iff_toNat_le, hshift, UInt32.toNat_one]
  omega

theorem and_low_bits (number : UInt32) (hbits : bits < 32) :
    (number &&& low_bits bits).toNat = number.toNat % 2 ^ bits := by
  rw [UInt32.toNat_and, low_bits_toNat hbits, and_two_pow_sub_one_eq_mod]

theorem shift_count (hbits : bits < 32) : (UInt32.ofNat bits).toNat % 32 = bits := by
  rw [UInt32.toNat_ofNat']
  omega

/-- What has been written so far, and what waits in the low bits of the accumulator. -/
structure Regrouping.Holds (frombits tobits : Nat) (read : List UInt8) (state : Regrouping) : Prop where
  split : Groups.Split frombits tobits (read.map UInt8.toNat) (state.out.map UInt8.toNat) state.bits
    (state.accumulator.toNat % 2 ^ state.bits)
  accumulator_lt : state.accumulator.toNat < 2 ^ (frombits + tobits - 1)

theorem Regrouping.Holds.write (hto : tobits ≤ 8)
    (h : state.Holds frombits tobits read) (hbits : state.bits < 32) (hwait : tobits ≤ state.bits) :
    Holds frombits tobits read { state with
      bits := state.bits - tobits
      out := state.out ++
        [((state.accumulator >>> UInt32.ofNat (state.bits - tobits)) &&& low_bits tobits).toUInt8] } := by
  have hpow : 2 ^ tobits ≤ 2 ^ 8 := Nat.pow_le_pow_right (by decide) hto
  have hgroup : ((state.accumulator >>> UInt32.ofNat (state.bits - tobits)) &&& low_bits tobits).toUInt8.toNat =
      state.accumulator.toNat % 2 ^ state.bits / 2 ^ (state.bits - tobits) := by
    have hlt := mod_lt (state.accumulator.toNat / 2 ^ (state.bits - tobits)) (Nat.two_pow_pos tobits)
    have hsplit : 2 ^ state.bits = 2 ^ (state.bits - tobits) * 2 ^ tobits := by
      rw [← pow_add, Nat.sub_add_cancel hwait]
    rw [UInt32.toNat_toUInt8, and_low_bits _ (by omega), UInt32.toNat_shiftRight, shift_count (by omega),
      shiftRight_eq_div_pow, hsplit, mod_mul_right_div_self]
    exact mod_eq_of_lt (hlt.trans_le hpow)
  have hwritten := h.split.write hwait
  rw [mod_mod_of_dvd _ (pow_dvd_pow 2 (sub_le _ _)), ← hgroup] at hwritten
  refine ⟨?_, h.accumulator_lt⟩
  rw [map_append, map_singleton]
  exact hwritten

theorem Regrouping.Holds.drain (hto : 0 < tobits ∧ tobits ≤ 8) (state : Regrouping)
    (h : state.Holds frombits tobits read) (hbits : state.bits < 32) :
    (state.drain tobits).Holds frombits tobits read ∧ (state.drain tobits).bits < tobits := by
  rw [Regrouping.drain]
  split
  · rename_i hwait
    exact Regrouping.Holds.drain hto _ (h.write hto.2 hbits hwait.2) ((sub_le _ _).trans_lt hbits)
  · exact ⟨h, by omega⟩
termination_by state.bits

/-- A value that fits is taken in; any other is refused. -/
theorem Regrouping.Holds.absorb (hfrom : frombits ≤ 8) (hto : 0 < tobits ∧ tobits ≤ 8)
    (h : state.Holds frombits tobits read) (hbits : state.bits < tobits) {value : UInt8}
    (hvalue : value.toNat < 2 ^ frombits) :
    ∃ state', Regrouping.absorb frombits tobits state value = some state' ∧
      state'.Holds frombits tobits (read ++ [value]) ∧ state'.bits < tobits := by
  have hfits : value.toUInt32 >>> UInt32.ofNat frombits = 0 := by
    apply UInt32.toNat_inj.mp
    rw [UInt32.toNat_shiftRight, shift_count (by omega), UInt8.toNat_toUInt32, shiftRight_eq_div_pow,
      div_eq_of_lt hvalue]
    rfl
  have hpow : 2 ^ (frombits + tobits - 1) ≤ 2 ^ 15 := Nat.pow_le_pow_right (by decide) (by omega)
  have hpow8 : 2 ^ frombits ≤ 2 ^ 8 := Nat.pow_le_pow_right (by decide) hfrom
  have hlt := h.accumulator_lt
  -- Nothing is lost above the mask that still waits, and nothing overflows below it.
  have haccumulator : (((state.accumulator <<< UInt32.ofNat frombits) ||| value.toUInt32) &&&
      low_bits (frombits + tobits - 1)).toNat =
        (state.accumulator.toNat * 2 ^ frombits + value.toNat) % 2 ^ (frombits + tobits - 1) := by
    have hshift : (state.accumulator <<< UInt32.ofNat frombits).toNat = state.accumulator.toNat <<< frombits := by
      rw [UInt32.toNat_shiftLeft, shift_count (by omega), shiftLeft_eq]
      apply mod_eq_of_lt
      calc state.accumulator.toNat * 2 ^ frombits < 2 ^ 15 * 2 ^ 8 := Nat.mul_lt_mul_of_lt_of_le (by omega) hpow8 (by decide)
        _ ≤ 2 ^ 32 := by decide
    rw [and_low_bits _ (by omega), UInt32.toNat_or, hshift, UInt8.toNat_toUInt32, ← shiftLeft_add_eq_or_of_lt hvalue,
      shiftLeft_eq]
  have hnext : Holds frombits tobits (read ++ [value]) { state with
      accumulator := ((state.accumulator <<< UInt32.ofNat frombits) ||| value.toUInt32) &&& low_bits (frombits + tobits - 1)
      bits := state.bits + frombits } := by
    refine ⟨?_, ?_⟩
    · have hread := h.split.read hvalue
      rw [map_append, map_singleton]
      have hlow : (((state.accumulator <<< UInt32.ofNat frombits) ||| value.toUInt32) &&&
          low_bits (frombits + tobits - 1)).toNat % 2 ^ (state.bits + frombits) =
            state.accumulator.toNat % 2 ^ state.bits * 2 ^ frombits + value.toNat := by
        rw [haccumulator, mod_mod_of_dvd _ (pow_dvd_pow 2 (by omega))]
        have hsplit : state.accumulator.toNat * 2 ^ frombits + value.toNat =
            2 ^ (state.bits + frombits) * (state.accumulator.toNat / 2 ^ state.bits) +
              (state.accumulator.toNat % 2 ^ state.bits * 2 ^ frombits + value.toNat) := by
          have hparts := congrArg (· * 2 ^ frombits) (div_add_mod state.accumulator.toNat (2 ^ state.bits))
          rw [← hparts, pow_add]
          ring
        rw [hsplit, mul_add_mod, mod_eq_of_lt hread.low_lt]
      rw [hlow]
      exact hread
    · dsimp only
      rw [haccumulator]
      exact mod_lt _ (Nat.two_pow_pos _)
  refine ⟨_, ?_, hnext.drain hto _ ?_⟩
  · rw [Regrouping.absorb, if_neg (by rw [hfits]; exact fun h => h rfl)]
  · dsimp only
    omega

theorem Regrouping.run (hfrom : frombits ≤ 8) (hto : 0 < tobits ∧ tobits ≤ 8) {input : List UInt8}
    (hinput : Fit frombits (input.map UInt8.toNat))
    (h : state.Holds frombits tobits read) (hbits : state.bits < tobits) :
    ∃ state', input.foldlM (Regrouping.absorb frombits tobits) state = some state' ∧
      state'.Holds frombits tobits (read ++ input) ∧ state'.bits < tobits := by
  induction input generalizing read state with
  | nil => exact ⟨state, rfl, by rwa [append_nil], hbits⟩
  | cons value input ih =>
    rw [map_cons] at hinput
    obtain ⟨hvalue, hrest⟩ := forall_mem_cons.mp hinput
    obtain ⟨state', habsorb, hnext, hbits'⟩ := h.absorb hfrom hto hbits hvalue
    obtain ⟨last, hlast, hholds, hlastbits⟩ := ih hrest hnext hbits'
    refine ⟨last, ?_, by rwa [append_assoc] at hholds, hlastbits⟩
    rw [foldlM_cons, habsorb]
    exact hlast

theorem Regrouping.start (frombits tobits : Nat) : Holds frombits tobits [] ⟨0, 0, []⟩ :=
  ⟨Groups.Split.nil _ _, Nat.two_pow_pos _⟩

/-- The bits that wait, moved up to a whole group. -/
theorem Regrouping.rest_toNat (hto : tobits ≤ 8) (state : Regrouping)
    (hlt : state.accumulator.toNat < 2 ^ (frombits + tobits - 1)) (hfrom : frombits ≤ 8)
    (hbits : state.bits < tobits) :
    ((state.accumulator <<< UInt32.ofNat (tobits - state.bits)) &&& low_bits tobits).toNat =
      state.accumulator.toNat % 2 ^ state.bits * 2 ^ (tobits - state.bits) := by
  have hpow : 2 ^ (frombits + tobits - 1) ≤ 2 ^ 15 := Nat.pow_le_pow_right (by decide) (by omega)
  have hpow8 : 2 ^ (tobits - state.bits) ≤ 2 ^ 8 := Nat.pow_le_pow_right (by decide) (by omega)
  have hsplit : 2 ^ tobits = 2 ^ state.bits * 2 ^ (tobits - state.bits) := by
    rw [← pow_add, Nat.add_sub_cancel' hbits.le]
  rw [and_low_bits _ (by omega), UInt32.toNat_shiftLeft, shift_count (by omega), shiftLeft_eq,
    mod_eq_of_lt (a := state.accumulator.toNat * 2 ^ (tobits - state.bits)), hsplit, mul_mod_mul_right]
  calc state.accumulator.toNat * 2 ^ (tobits - state.bits) < 2 ^ 15 * 2 ^ 8 :=
        Nat.mul_lt_mul_of_lt_of_le (by omega) hpow8 (by decide)
    _ ≤ 2 ^ 32 := by decide

theorem fit_bytes (bytes : List UInt8) : Fit 8 (bytes.map UInt8.toNat) := by
  intro byte hmem
  obtain ⟨value, -, rfl⟩ := mem_map.mp hmem
  exact value.toNat_lt

theorem map_toNat_injective : Function.Injective (List.map UInt8.toNat) :=
  map_injective_iff.mpr (fun _ _ h => UInt8.toNat_inj.mp h)

/-- Bytes are written in groups of five bits with the last group padded. -/
theorem convertbits_pad (program : Bytes) : ∃ groups pad, convertbits program 8 5 true = some groups ∧
    Padded 8 5 (program.map UInt8.toNat) (groups.map UInt8.toNat) pad := by
  obtain ⟨state, hrun, hholds, hbits⟩ := Regrouping.run (by decide : 8 ≤ 8) (by decide : 0 < 5 ∧ 5 ≤ 8)
    (fit_bytes program) (Regrouping.start 8 5) (by decide)
  rw [nil_append] at hholds
  by_cases hzero : state.bits = 0
  · have hsplit := hholds.split
    rw [hzero] at hsplit
    refine ⟨state.out, 0, ?_, Groups.Padded.of_split_zero hsplit (by decide)⟩
    simp [convertbits, hrun, hzero]
  · have hpadded := Groups.Padded.of_split hholds.split hbits hzero
    have hrest := Regrouping.rest_toNat (by decide) state hholds.accumulator_lt (by decide) hbits
    refine ⟨state.out ++ [((state.accumulator <<< UInt32.ofNat (5 - state.bits)) &&& low_bits 5).toUInt8], 5 - state.bits, ?_, ?_⟩
    · simp [convertbits, hrun, hzero]
    · have hgroup := and_low_bits (state.accumulator <<< UInt32.ofNat (5 - state.bits)) (by decide : 5 < 32)
      rw [map_append, map_singleton, UInt32.toNat_toUInt8, mod_eq_of_lt (by omega), hrest]
      exact hpadded

/-- Groups are read back as the bytes they were written from, and no others are read back. -/
theorem convertbits_unpad {groups : List UInt8} {program : Bytes} (hgroups : Fit 5 (groups.map UInt8.toNat)) :
    convertbits groups 5 8 false = some program ↔
      ∃ pad, Padded 8 5 (program.map UInt8.toNat) (groups.map UInt8.toNat) pad := by
  obtain ⟨state, hrun, hholds, hbits⟩ := Regrouping.run (by decide : 5 ≤ 8) (by decide : 0 < 8 ∧ 8 ≤ 8)
    hgroups (Regrouping.start 5 8) (by decide)
  rw [nil_append] at hholds
  have hrest := Regrouping.rest_toNat (by decide) state hholds.accumulator_lt (by decide) hbits
  have hlow : (state.accumulator <<< UInt32.ofNat (8 - state.bits)) &&& low_bits 8 = 0 ↔
      state.accumulator.toNat % 2 ^ state.bits = 0 := by
    rw [← UInt32.toNat_inj, hrest, UInt32.toNat_zero, Nat.mul_eq_zero]
    simp
  rw [Groups.Padded.iff_of_split hholds.split hbits (by decide) hgroups (fit_bytes program), map_toNat_injective.eq_iff]
  simp only [convertbits, hrun, Bool.false_eq_true, if_false]
  by_cases hkept : state.bits ≥ 5 ∨ (state.accumulator <<< UInt32.ofNat (8 - state.bits)) &&& low_bits 8 ≠ 0
  · rw [if_pos hkept]
    rw [ne_eq, hlow] at hkept
    refine ⟨fun h => (Option.some_ne_none _ h.symm).elim, fun h => ?_⟩
    omega
  · rw [if_neg hkept, Option.some.injEq]
    rw [ne_eq, hlow] at hkept
    refine ⟨fun h => ⟨h.symm, by omega, by omega⟩, fun h => h.1.symm⟩

end Regrouping

end erikslund.util
