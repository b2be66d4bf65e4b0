import SoloPool.Lib.Positional
import SoloPool.Util.Sha256

namespace erikslund.util

open List

namespace base58

def kAlphabet : Text := "123456789ABCDEFGHJKLMNPQRSTUVWXYZabcdefghijkmnopqrstuvwxyz".toList

/-- The entry of a character in the reverse table; `none` stands for −1. -/
def kReverse (character : Char) : Option Nat := kAlphabet.findIdx? (fun symbol => symbol = character)

/-- The character of a digit, `kAlphabet[digit]`. -/
def alphabet_char (digit : UInt8) : Char := kAlphabet.getD digit.toNat '?'

/-- The loop over the digits of either direction. With base 256 the remainder and the quotient are
written `& 0xff` and `>> 8`, with factor 256 the product is written `<< 8`; the carry stays below
the sum of a digit and the factor, far from the limits of an `int`. -/
def pass (base factor : Nat) : List UInt8 → Nat → List UInt8 × Nat
  | [], carry => ([], carry)
  | digit :: digits, carry =>
    let (rest, out) := pass base factor digits ((carry + digit.toNat * factor) / base)
    (UInt8.ofNat ((carry + digit.toNat * factor) % base) :: rest, out)

/-- `while (carry)`, as the digits it pushes; the carry itself bounds the number of turns. -/
def push_carry (base : Nat) : Nat → Nat → List UInt8
  | 0, _ => []
  | turns + 1, carry =>
    if carry = 0 then []
    else UInt8.ofNat (carry % base) :: push_carry base turns (carry / base)

/-- One turn of the outer loop. -/
def absorb (base factor : Nat) (digits : List UInt8) (symbol : Nat) : List UInt8 :=
  let (rest, carry) := pass base factor digits symbol
  rest ++ push_carry base carry carry

end base58

open base58

def try_base58_decode (input : Text) : Option Bytes :=
  match input.foldlM (fun digits character => (kReverse character).map (absorb 256 58 digits)) [] with
  | none => none
  | some digits =>
    -- Each leading '1' is a leading zero byte.
    some (digits ++ (input.takeWhile (· == '1')).map (fun _ => 0)).reverse

def base58_encode (data : Bytes) : Text :=
  let digits := data.foldl (fun digits byte => absorb 58 256 digits byte.toNat) []
  (data.takeWhile (· == 0)).map (fun _ => '1') ++ digits.reverse.map alphabet_char

section Check

variable (sha256d : Bytes → Hash256)

def try_base58check_decode (input : Text) : Option Bytes :=
  match try_base58_decode input with
  | none => none
  | some full =>
    if full.length < 4 then none
    else
      let payload := full.take (full.length - 4)
      if full.drop (full.length - 4) ≠ (sha256d payload).val.take 4 then none
      else some payload

def base58check_encode (payload : Bytes) : Text :=
  base58_encode (payload ++ (sha256d payload).val.take 4)

end Check

section Alphabet

theorem kReverse_alphabet_char {digit : Nat} (h : digit < 58) :
    kReverse (alphabet_char (UInt8.ofNat digit)) = some digit := by
  have hall : ∀ value : Fin 58, kReverse (alphabet_char (UInt8.ofNat value.val)) = some value.val := by
    decide +kernel
  exact hall ⟨digit, h⟩

theorem alphabet_char_kReverse {char : Char} {digit : Nat} (h : kReverse char = some digit) :
    digit < 58 ∧ alphabet_char (UInt8.ofNat digit) = char := by
  obtain ⟨hlt, hfound, -⟩ := findIdx?_eq_some_iff_getElem.mp h
  have hsize : kAlphabet.length = 58 := by decide
  have hbyte : (UInt8.ofNat digit).toNat = digit := by
    rw [UInt8.toNat_ofNat']
    omega
  refine ⟨by omega, ?_⟩
  rw [alphabet_char, hbyte, getD_eq_getElem?_getD, getElem?_eq_getElem hlt]
  exact of_decide_eq_true hfound

/-- A text of the alphabet is the text of its digits. -/
theorem mapM_kReverse_iff {input : Text} {values : List Nat} : input.mapM kReverse = some values ↔
    (∀ value ∈ values, value < 58) ∧ input = values.map (fun value => alphabet_char (UInt8.ofNat value)) := by
  induction input generalizing values with
  | nil =>
    constructor
    · intro h
      cases h
      exact ⟨fun _ hmem => absurd hmem not_mem_nil, rfl⟩
    · rintro ⟨-, hvalues⟩
      rw [map_eq_nil_iff.mp hvalues.symm]
      rfl
  | cons char input ih =>
    rw [mapM_cons]
    constructor
    · intro h
      simp only [Option.bind_eq_bind, Option.bind_eq_some_iff] at h
      obtain ⟨value, hvalue, rest, hrest, hsome⟩ := h
      cases hsome
      obtain ⟨hlt, hchar⟩ := alphabet_char_kReverse hvalue
      obtain ⟨hfit, hinput⟩ := ih.mp hrest
      exact ⟨forall_mem_cons.mpr ⟨hlt, hfit⟩, by rw [map_cons, hchar, ← hinput]⟩
    · rintro ⟨hfit, hinput⟩
      cases values with
      | nil => cases hinput
      | cons value values =>
        obtain ⟨hlt, hfit⟩ := forall_mem_cons.mp hfit
        rw [map_cons, List.cons.injEq] at hinput
        rw [hinput.1, kReverse_alphabet_char hlt, ih.mpr ⟨hfit, hinput.2⟩]
        rfl

end Alphabet

section Digits

variable {base : Nat} (hbase : 1 < base) (hbyte : base ≤ 256)

theorem toNat_ofNat_mod (hbase : 1 < base) (hbyte : base ≤ 256) (n : Nat) : (UInt8.ofNat (n % base)).toNat = n % base := by
  have hlt := Nat.mod_lt n (show 0 < base by omega)
  rw [UInt8.toNat_ofNat']
  apply Nat.mod_eq_of_lt
  omega

include hbase hbyte

theorem pass_toNat (factor : Nat) (digits : List UInt8) (carry : Nat) :
    (pass base factor digits carry).1.map UInt8.toNat =
        (Positional.pass base factor (digits.map UInt8.toNat) carry).1 ∧
      (pass base factor digits carry).2 = (Positional.pass base factor (digits.map UInt8.toNat) carry).2 := by
  induction digits generalizing carry with
  | nil => exact ⟨rfl, rfl⟩
  | cons digit digits ih =>
    obtain ⟨hrest, hout⟩ := ih ((carry + digit.toNat * factor) / base)
    refine ⟨?_, hout⟩
    rw [base58.pass, map_cons, map_cons, toNat_ofNat_mod hbase hbyte, hrest]
    rfl

theorem push_carry_toNat {turns carry : Nat} (h : carry ≤ turns) :
    (push_carry base turns carry).map UInt8.toNat = Nat.digits base carry := by
  induction turns generalizing carry with
  | zero =>
    rw [Nat.le_zero.mp h, Nat.digits_zero]
    rfl
  | succ turns ih =>
    rw [push_carry]
    by_cases hcarry : carry = 0
    · rw [if_pos hcarry, hcarry, Nat.digits_zero]
      rfl
    · have hpos := Nat.pos_of_ne_zero hcarry
      have hless := Nat.div_lt_self hpos hbase
      rw [if_neg hcarry, map_cons, toNat_ofNat_mod hbase hbyte, ih (by omega), Nat.digits_def' hbase hpos]

theorem absorb_toNat (factor : Nat) (digits : List UInt8) (symbol : Nat) :
    (absorb base factor digits symbol).map UInt8.toNat =
      Positional.absorb base factor (digits.map UInt8.toNat) symbol := by
  obtain ⟨hrest, hout⟩ := pass_toNat hbase hbyte factor digits symbol
  rw [absorb, map_append, push_carry_toNat hbase hbyte le_rfl, hrest, hout]
  rfl

/-- The outer loop leaves the canonical digits of the number read. -/
theorem foldl_absorb_toNat {factor : Nat} (hfactor : 0 < factor) (symbols : List Nat) :
    (symbols.foldl (absorb base factor) []).map UInt8.toNat = Nat.digits base (Positional.number factor symbols) := by
  rw [← Positional.foldl_absorb hbase hfactor]
  induction symbols using reverseRecOn with
  | nil => rfl
  | append_singleton symbols symbol ih =>
    rw [foldl_append, foldl_append, foldl_cons, foldl_cons, foldl_nil, foldl_nil,
      absorb_toNat hbase hbyte, ih]

end Digits

theorem map_ofNat_map_toNat (bytes : Bytes) : (bytes.map UInt8.toNat).map UInt8.ofNat = bytes := by
  simp only [map_map, Function.comp_def, UInt8.ofNat_toNat, map_id']

theorem bytes_fit (bytes : Bytes) : ∀ value ∈ bytes.map UInt8.toNat, value < 256 := by
  intro value hmem
  obtain ⟨byte, -, rfl⟩ := mem_map.mp hmem
  exact byte.toNat_lt

/-- The symbols that stand for zero are counted before or after they are read. -/
theorem takeWhile_zero_length {α : Type} (read : α → Nat) (zero : α → Bool) (symbols : List α)
    (hzero : ∀ symbol ∈ symbols, zero symbol = (read symbol == 0)) :
    ((symbols.map read).takeWhile (· == 0)).length = (symbols.takeWhile zero).length := by
  induction symbols with
  | nil => rfl
  | cons symbol symbols ih =>
    obtain ⟨hfirst, hrest⟩ := forall_mem_cons.mp hzero
    rw [map_cons, takeWhile_cons, takeWhile_cons, hfirst]
    split
    · rw [length_cons, length_cons, ih hrest]
    · rfl

/-- The encoder converts from base 256 to base 58. -/
theorem base58_encode_eq (data : Bytes) : base58_encode data =
    (Positional.convert 256 58 (data.map UInt8.toNat)).map (fun digit => alphabet_char (UInt8.ofNat digit)) := by
  have hdigits := foldl_absorb_toNat (show 1 < 58 by decide) (by decide) (show 0 < 256 by decide) (data.map UInt8.toNat)
  rw [foldl_map] at hdigits
  have hzeros := takeWhile_zero_length UInt8.toNat (· == 0) data (fun byte _ => by
    rw [Bool.eq_iff_iff, beq_iff_eq, beq_iff_eq, ← UInt8.toNat_inj]
    rfl)
  rw [base58_encode, Positional.convert, ← hdigits, hzeros, map_append, map_replicate, ← map_reverse]
  congr 1
  · rw [map_const']
    rfl
  · simp only [map_map, Function.comp_def, UInt8.ofNat_toNat]

theorem foldlM_absorb (input : Text) (digits : List UInt8) :
    input.foldlM (fun digits char => (kReverse char).map (absorb 256 58 digits)) digits =
      (input.mapM kReverse).map (fun values => values.foldl (absorb 256 58) digits) := by
  induction input generalizing digits with
  | nil => rfl
  | cons char input ih =>
    rw [foldlM_cons, mapM_cons]
    cases kReverse char with
    | none => rfl
    | some value =>
      change foldlM _ (absorb 256 58 digits value) input = _
      rw [ih]
      cases input.mapM kReverse <;> rfl

/-- The decoder reads the digits and converts from base 58 to base 256. -/
theorem try_base58_decode_eq (input : Text) : try_base58_decode input =
    (input.mapM kReverse).map (fun values => (Positional.convert 58 256 values).map UInt8.ofNat) := by
  rw [try_base58_decode, foldlM_absorb]
  cases hvalues : input.mapM kReverse with
  | none => rfl
  | some values =>
    obtain ⟨hfit, hinput⟩ := mapM_kReverse_iff.mp hvalues
    have hdigits := foldl_absorb_toNat (show 1 < 256 by decide) le_rfl (show 0 < 58 by decide) values
    have hzeros := takeWhile_zero_length id (fun value => alphabet_char (UInt8.ofNat value) == '1') values (by
      intro value hmem
      have hall : ∀ value : Fin 58, (alphabet_char (UInt8.ofNat value.val) == '1') = (value.val == 0) := by decide
      exact hall ⟨value, hfit value hmem⟩)
    simp only [Option.map_some, Option.some.injEq]
    rw [Positional.convert, ← hdigits, reverse_append, map_append, map_replicate]
    congr 1
    · rw [map_id] at hzeros
      rw [hinput, takeWhile_map, map_map, ← map_reverse, hzeros]
      simp only [Function.comp_def, map_const', length_reverse]
      rfl
    · rw [← map_reverse, map_ofNat_map_toNat]

theorem try_base58_decode_encode (data : Bytes) : try_base58_decode (base58_encode data) = some data := by
  have hfit : ∀ digit ∈ Positional.convert 256 58 (data.map UInt8.toNat), digit < 58 :=
    Positional.convert_fit (by decide) _
  rw [try_base58_decode_eq, mapM_kReverse_iff.mpr ⟨hfit, base58_encode_eq data⟩, Option.map_some,
    Positional.convert_convert (by decide) (bytes_fit data), map_ofNat_map_toNat]

theorem base58_encode_decode {input : Text} {data : Bytes} (h : try_base58_decode input = some data) :
    base58_encode data = input := by
  rw [try_base58_decode_eq, Option.map_eq_some_iff] at h
  obtain ⟨values, hvalues, rfl⟩ := h
  obtain ⟨hfit, hinput⟩ := mapM_kReverse_iff.mp hvalues
  have hbytes : ((Positional.convert 58 256 values).map UInt8.ofNat).map UInt8.toNat = Positional.convert 58 256 values := by
    rw [map_map]
    conv_rhs => rw [← map_id (Positional.convert 58 256 values)]
    apply map_congr_left
    intro value hmem
    have hlt := Positional.convert_fit (show 1 < 256 by decide) values value hmem
    rw [Function.comp_apply, UInt8.toNat_ofNat', id]
    omega
  rw [base58_encode_eq, hbytes, Positional.convert_convert (by decide) hfit, ← hinput]

section Check

variable {sha256d : Bytes → Hash256}

/-- An accepted text is that of a payload followed by the first four bytes of its hash. -/
theorem try_base58check_decode_iff {input : Text} {payload : Bytes} :
    try_base58check_decode sha256d input = some payload ↔
      try_base58_decode input = some (payload ++ (sha256d payload).val.take 4) := by
  have hsum (payload : Bytes) : ((sha256d payload).val.take 4).length = 4 := by
    rw [length_take, (sha256d payload).property]
    rfl
  unfold try_base58check_decode
  constructor
  · intro h
    split at h
    · cases h
    rename_i full hfull
    split at h
    · cases h
    rename_i hlong
    dsimp only at h
    split at h
    · cases h
    rename_i hcheck
    rw [ne_eq, not_not] at hcheck
    cases h
    rw [hfull, ← hcheck, take_append_drop]
  · intro h
    have hlength : (payload ++ (sha256d payload).val.take 4).length - 4 = payload.length := by
      rw [length_append, hsum]
      omega
    rw [h]
    dsimp only
    rw [if_neg (by rw [length_append, hsum]; omega), hlength, take_left, drop_left,
      if_neg (fun hne => hne rfl)]

end Check

/-- Both encodings are read back as what they were written from, and a text that is read is the
one that is written from what was read. -/
theorem base58_codecs_inverse (sha256d : Bytes → Hash256) :
    (∀ data, try_base58_decode (base58_encode data) = some data) ∧
    (∀ payload, try_base58check_decode sha256d (base58check_encode sha256d payload) = some payload) ∧
    (∀ input data, try_base58_decode input = some data → base58_encode data = input) ∧
    ∀ input payload, try_base58check_decode sha256d input = some payload →
      base58check_encode sha256d payload = input := by
  refine ⟨try_base58_decode_encode, ?_, fun _ _ => base58_encode_decode, ?_⟩
  · intro payload
    apply try_base58check_decode_iff.mpr
    exact try_base58_decode_encode _
  · intro input payload h
    exact base58_encode_decode (try_base58check_decode_iff.mp h)

theorem base58_codecs_inverse_burn_address :
    base58check_encode util.sha256d (replicate 21 0) = "1111111111111111111114oLvT2".toList := by
  have hread : try_base58check_decode util.sha256d "1111111111111111111114oLvT2".toList =
      some (replicate 21 0) := by decide +kernel
  exact (base58_codecs_inverse util.sha256d).2.2.2 _ _ hread

end erikslund.util
