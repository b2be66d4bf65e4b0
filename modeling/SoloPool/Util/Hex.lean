import Mathlib.Data.List.Induction
import SoloPool.Util.Bytes

namespace erikslund.util

open List Option Nat

/-- `kHexChars`. -/
def hex_char (nibble : UInt8) : Char :=
  if nibble < 10 then Char.ofNat (48 + nibble.toNat) else Char.ofNat (87 + nibble.toNat)

/-- `kHexTable`: the value of a hexadecimal digit of either case. -/
def hex_nibble (c : Char) : Option UInt8 :=
  if '0' ≤ c ∧ c ≤ '9' then some (UInt8.ofNat (c.toNat - 48))
  else if 'a' ≤ c ∧ c ≤ 'f' then some (UInt8.ofNat (c.toNat - 87))
  else if 'A' ≤ c ∧ c ≤ 'F' then some (UInt8.ofNat (c.toNat - 55))
  else none

def to_hex : Bytes → Text
  | [] => []
  | byte :: rest => hex_char (byte >>> 4) :: hex_char (byte &&& 0x0f) :: to_hex rest

def to_hex_reversed (data : Bytes) : Text := to_hex data.reverse

def try_from_hex : Text → Option Bytes
  | [] => some []
  | [_] => none
  | high :: low :: rest =>
    match hex_nibble high, hex_nibble low, try_from_hex rest with
    | some h, some l, some bytes => some ((h <<< 4 ||| l) :: bytes)
    | _, _, _ => none

def from_hex (text : Text) : Except String Bytes :=
  if text.length % 2 ≠ 0 then .error "hex string has odd length"
  else match try_from_hex text with
    | some bytes => .ok bytes
    | none => .error "hex string has a non-hex character"

def try_parse_hex_u32 (text : Text) : Option UInt32 :=
  if text.isEmpty ∨ text.length > 8 then none
  else text.foldl (fun value character =>
    match value, hex_nibble character with
    | some v, some nibble => some (v <<< 4 ||| nibble.toUInt32)
    | _, _ => none) (some 0)

def parse_hex_u32 (text : Text) : Except String UInt32 :=
  match try_parse_hex_u32 text with
  | some value => .ok value
  | none => .error "hex u32: empty, longer than 8 digits, or non-hex"

/-- `std::format("{:08x}", value)`. -/
def format_08x (value : Nat) : Text :=
  let digits := toDigits 16 value
  replicate (8 - digits.length) '0' ++ digits

/-- `std::to_string` of an unsigned integer. -/
def to_string (value : Nat) : Text := toDigits 10 value

@[simp] theorem to_hex_length (data : Bytes) : (to_hex data).length = 2 * data.length := by
  induction data with
  | nil => rfl
  | cons byte rest ih =>
    simp only [to_hex, length_cons, ih]
    omega

private theorem forall_byte {p : UInt8 → Prop} (h : ∀ n : Fin 256, p (UInt8.ofNat n.val)) (byte : UInt8) :
    p byte := by
  have hbyte := h ⟨byte.toNat, byte.toNat_lt⟩
  simpa using hbyte

theorem hex_nibble_high (byte : UInt8) : hex_nibble (hex_char (byte >>> 4)) = some (byte >>> 4) := by
  revert byte
  exact forall_byte (by decide +kernel)

theorem hex_nibble_low (byte : UInt8) : hex_nibble (hex_char (byte &&& 0x0f)) = some (byte &&& 0x0f) := by
  revert byte
  exact forall_byte (by decide +kernel)

theorem nibbles_join (byte : UInt8) : (byte >>> 4) <<< 4 ||| (byte &&& 0x0f) = byte := by
  revert byte
  exact forall_byte (by decide +kernel)

/-- Decoding inverts encoding, so distinct buffers have distinct hex texts. -/
theorem try_from_hex_to_hex (data : Bytes) : try_from_hex (to_hex data) = some data := by
  induction data with
  | nil => rfl
  | cons byte rest ih =>
    simp only [to_hex, try_from_hex, ih, hex_nibble_high, hex_nibble_low, nibbles_join]

variable {text : Text} {nibble : UInt8}

/-- A text that decodes has two digits for each byte. -/
theorem try_from_hex_length {bytes : Bytes} (h : try_from_hex text = some bytes) :
    text.length = 2 * bytes.length := by
  induction text using try_from_hex.induct generalizing bytes with
  | case1 =>
    cases h
    rfl
  | case2 => cases h
  | case3 high low rest digit digit' decoded hrest hhigh hlow ih =>
    simp only [try_from_hex, hhigh, hlow, hrest, Option.some.injEq] at h
    subst h
    have hlength := ih hrest
    simp only [length_cons]
    omega
  | case4 high low rest hnone ih =>
    unfold try_from_hex at h
    split at h
    · rename_i digit digit' decoded hhigh hlow hrest
      exact (hnone digit digit' decoded hhigh hlow hrest).elim
    · cases h

theorem from_hex_eq_ok {bytes : Bytes} : from_hex text = .ok bytes ↔ try_from_hex text = some bytes := by
  unfold from_hex
  constructor
  · intro h
    split at h
    · cases h
    split at h
    · rename_i decoded hdecoded
      cases h
      exact hdecoded
    · cases h
  · intro h
    have hlength := try_from_hex_length h
    have heven : ¬ text.length % 2 ≠ 0 := by omega
    rw [if_neg heven, h]

theorem to_hex_injective : Function.Injective to_hex := by
  intro a b h
  have hdecode := congrArg try_from_hex h
  simpa only [try_from_hex_to_hex, Option.some.injEq] using hdecode

/-- The number a text of hexadecimal digits denotes. -/
def hex_value (text : Text) : Nat :=
  text.foldl (fun value character => 16 * value + ((hex_nibble character).getD 0).toNat) 0

theorem hex_value_append (text : Text) (char : Char) :
    hex_value (text ++ [char]) = 16 * hex_value text + ((hex_nibble char).getD 0).toNat := by
  simp [hex_value]

theorem hex_value_zeros (count : Nat) (text : Text) : hex_value (replicate count '0' ++ text) = hex_value text := by
  have hzeros : (replicate count '0').foldl
      (fun value char => 16 * value + ((hex_nibble char).getD 0).toNat) 0 = 0 := by
    induction count with
    | zero => rfl
    | succ count ih =>
      rw [replicate_succ, foldl_cons]
      exact ih
  rw [hex_value, foldl_append, hzeros, hex_value]

theorem hex_nibble_digit {digit : Nat} (h : digit < 16) :
    ((hex_nibble (digitChar digit)).getD 0).toNat = digit := by
  have hall : ∀ digit : Fin 16, ((hex_nibble (digitChar digit.val)).getD 0).toNat = digit.val := by decide
  exact hall ⟨digit, h⟩

theorem hex_value_digits (value : Nat) : hex_value (toDigits 16 value) = value := by
  induction value using Nat.strong_induction_on with
  | _ value ih =>
    rw [toDigits_eq_if (by decide)]
    split
    · rename_i hsmall
      rw [← nil_append [_], hex_value_append, hex_nibble_digit hsmall]
      simp [hex_value]
    · rw [hex_value_append, hex_nibble_digit (mod_lt _ (by decide)), ih _ (by omega)]
      exact div_add_mod value 16

/-- A text of hexadecimal digits of either case. -/
def HexDigits (text : Text) : Prop := ∀ character ∈ text, (hex_nibble character).isSome = true

instance (text : Text) : Decidable (HexDigits text) :=
  decidable_of_iff (text.all fun character => (hex_nibble character).isSome) all_eq_true

theorem hex_nibble_lt {char : Char} (h : hex_nibble char = some nibble) :
    nibble.toNat < 16 := by
  unfold hex_nibble at h
  simp only [Char.le_def, UInt32.le_iff_toNat_le, Char.toNat] at h
  split at h
  · rename_i hdigit
    cases h
    simp only [UInt8.toNat_ofNat']
    have hupper : char.val.toNat ≤ 57 := hdigit.2
    omega
  split at h
  · rename_i hletter
    cases h
    simp only [UInt8.toNat_ofNat']
    have hupper : char.val.toNat ≤ 102 := hletter.2
    omega
  split at h
  · rename_i hletter
    cases h
    simp only [UInt8.toNat_ofNat']
    have hupper : char.val.toNat ≤ 70 := hletter.2
    omega
  · cases h

theorem shift_in_nibble (value : Nat) (h : nibble.toNat < 16) :
    UInt32.ofNat value <<< 4 ||| nibble.toUInt32 = UInt32.ofNat (16 * value + nibble.toNat) := by
  apply UInt32.toNat_inj.mp
  have hshifted : (value % 2 ^ 32) <<< 4 % 2 ^ 32 = 2 ^ 4 * (value % 2 ^ 28) := by
    rw [shiftLeft_eq]
    omega
  simp only [UInt32.toNat_or, UInt32.toNat_shiftLeft, UInt32.toNat_ofNat', UInt8.toNat_toUInt32, UInt32.reduceToNat,
    reduceMod]
  rw [hshifted, ← two_pow_add_eq_or_of_lt h]
  omega

theorem parse_fold (hdigits : HexDigits text) (value : Nat) :
    text.foldl (fun value char =>
      match value, hex_nibble char with
      | some v, some nibble => some (v <<< 4 ||| nibble.toUInt32)
      | _, _ => none) (some (UInt32.ofNat value)) =
    some (UInt32.ofNat (text.foldl (fun value char => 16 * value + ((hex_nibble char).getD 0).toNat) value)) := by
  induction text generalizing value with
  | nil => rfl
  | cons char rest ih =>
    obtain ⟨nibble, hnibble⟩ := isSome_iff_exists.mp (hdigits char mem_cons_self)
    have hrest : HexDigits rest := fun char hmem => hdigits char (mem_cons_of_mem _ hmem)
    simp only [foldl_cons, hnibble, getD_some, shift_in_nibble value (hex_nibble_lt hnibble)]
    exact ih hrest _

/-- Parsing up to eight digits gives the number they denote. -/
theorem try_parse_hex_u32_eq (hdigits : HexDigits text) (hpos : 0 < text.length)
    (hlength : text.length ≤ 8) : try_parse_hex_u32 text = some (UInt32.ofNat (hex_value text)) := by
  have hfits : ¬ (text.isEmpty = true ∨ text.length > 8) := by
    rw [isEmpty_iff_length_eq_zero]
    omega
  rw [try_parse_hex_u32, if_neg hfits]
  exact parse_fold hdigits 0

/-- What was parsed is a text of digits. -/
theorem hexDigits_of_parse {value : UInt32} (h : try_parse_hex_u32 text = some value) :
    HexDigits text := by
  have hnone (text : Text) : text.foldl (fun value char =>
      match value, hex_nibble char with
      | some v, some nibble => some (v <<< 4 ||| nibble.toUInt32)
      | _, _ => none) (none : Option UInt32) = none := by
    induction text with
    | nil => rfl
    | cons char rest ih => exact ih
  have hfold (text : Text) (start : UInt32) (h : text.foldl (fun value char =>
      match value, hex_nibble char with
      | some v, some nibble => some (v <<< 4 ||| nibble.toUInt32)
      | _, _ => none) (some start) = some value) : HexDigits text := by
    induction text generalizing start with
    | nil => exact fun char hmem => absurd hmem not_mem_nil
    | cons char rest ih =>
      rw [foldl_cons] at h
      cases hnibble : hex_nibble char with
      | none =>
        rw [hnibble, hnone] at h
        cases h
      | some nibble =>
        rw [hnibble] at h
        refine forall_mem_cons.mpr ⟨?_, ih _ h⟩
        rw [hnibble, isSome_some]
  unfold try_parse_hex_u32 at h
  split at h
  · cases h
  · exact hfold text 0 h

theorem digits_hexDigits (value : Nat) : HexDigits (toDigits 16 value) := by
  have hdigit : ∀ digit : Fin 16, (hex_nibble (digitChar digit.val)).isSome = true := by decide
  induction value using Nat.strong_induction_on with
  | _ value ih =>
    rw [toDigits_eq_if (by decide)]
    intro char hmem
    split at hmem
    · rename_i hsmall
      rw [mem_singleton.mp hmem]
      exact hdigit ⟨value, hsmall⟩
    · rcases mem_append.mp hmem with hmem | hmem
      · exact ih (value / 16) (by omega) char hmem
      · rw [mem_singleton.mp hmem]
        exact hdigit ⟨value % 16, mod_lt _ (by decide)⟩

/-- Eight digits are enough for 32 bits. -/
theorem format_08x_length (value : UInt32) : (format_08x value.toNat).length = 8 := by
  have hlt : value.toNat < 16 ^ 8 := value.toNat_lt
  have hdigits := (length_toDigits_le_iff (b := 16) (by decide) (by decide : 0 < 8)).mpr hlt
  simp only [format_08x, length_append, length_replicate]
  omega

theorem hexDigits_format_08x (value : Nat) : HexDigits (format_08x value) := by
  intro char hmem
  rcases mem_append.mp hmem with hmem | hmem
  · rw [eq_of_mem_replicate hmem]
    decide
  · exact digits_hexDigits _ char hmem

theorem try_parse_format_08x (value : UInt32) : try_parse_hex_u32 (format_08x value.toNat) = some value := by
  have hlength := format_08x_length value
  rw [try_parse_hex_u32_eq (hexDigits_format_08x _) (by omega) (by omega)]
  simp [format_08x, hex_value_zeros, hex_value_digits]

theorem hexDigits_to_hex (data : Bytes) : HexDigits (to_hex data) := by
  induction data with
  | nil => exact fun char hmem => absurd hmem not_mem_nil
  | cons byte rest ih =>
    rintro char hmem
    rcases mem_cons.mp hmem with rfl | hmem
    · rw [hex_nibble_high, isSome_some]
    rcases mem_cons.mp hmem with rfl | hmem
    · rw [hex_nibble_low, isSome_some]
    · exact ih char hmem

/-- The text of a buffer denotes the number whose most significant byte comes first. -/
theorem hex_value_to_hex (data : Bytes) : hex_value (to_hex data) = Radix.value data.reverse := by
  have happend (data : Bytes) (byte : UInt8) :
      to_hex (data ++ [byte]) = to_hex data ++ [hex_char (byte >>> 4)] ++ [hex_char (byte &&& 0x0f)] := by
    induction data with
    | nil => rfl
    | cons first rest ih => simp only [cons_append, to_hex, ih]
  have hbyte (byte : UInt8) : 16 * (byte >>> 4).toNat + (byte &&& 0x0f).toNat = byte.toNat := by
    revert byte
    exact forall_byte (by decide +kernel)
  induction data using reverseRecOn with
  | nil => rfl
  | append_singleton data byte ih =>
    rw [happend, hex_value_append, hex_value_append, hex_nibble_high, hex_nibble_low, ih, reverse_append]
    have hvalue := hbyte byte
    simp only [getD_some, reverse_singleton, singleton_append, Radix.value]
    omega

/-- Four bytes and their reversed hex text are the same number. -/
theorem try_parse_to_hex_reversed {data : Bytes} (hlength : data.length = 4) :
    try_parse_hex_u32 (to_hex_reversed data) = some (UInt32.ofNat (Radix.value data)) := by
  have hdigits := to_hex_length data.reverse
  rw [length_reverse, hlength] at hdigits
  rw [to_hex_reversed, try_parse_hex_u32_eq (hexDigits_to_hex _) (by omega) (by omega), hex_value_to_hex,
    reverse_reverse]

theorem to_string_injective : Function.Injective to_string := by
  intro a b h
  have hvalue := congrArg (fun text => ofDigitChars 10 text 0) h
  simpa only [to_string, ofDigitChars_ten_toDigits] using hvalue

/-- A separator that is no digit does not occur in a text of hexadecimal digits. -/
theorem HexDigits.free (h : HexDigits text) {separator : Char} (hnone : hex_nibble separator = none) :
    separator ∉ text := by
  intro hmem
  have hsome := h separator hmem
  rw [hnone] at hsome
  cases hsome

theorem to_string_free (value : Nat) {separator : Char} (hseparator : separator.isDigit = false) :
    separator ∉ to_string value := by
  intro hmem
  have hdigit := isDigit_of_mem_toDigits (by decide) (by decide) hmem
  rw [hseparator] at hdigit
  cases hdigit

theorem format_08x_injective : Function.Injective format_08x := by
  intro a b h
  have hvalue := congrArg hex_value h
  simpa only [format_08x, hex_value_zeros, hex_value_digits] using hvalue

/-- Lower-casing keeps what a digit stands for, and leaves the digit `to_hex` writes. -/
theorem lower_digit (char : Char) : hex_nibble char.toLower = hex_nibble char ∧
    (hex_nibble char).all (fun nibble => char.toLower = hex_char nibble) = true := by
  by_cases hascii : char.toNat < 128
  · have hall : ∀ code : Fin 128, hex_nibble (Char.ofNat code.val).toLower = hex_nibble (Char.ofNat code.val) ∧
        (hex_nibble (Char.ofNat code.val)).all (fun nibble => (Char.ofNat code.val).toLower = hex_char nibble) = true := by
      decide
    simpa using hall ⟨char.toNat, hascii⟩
  · change ¬ char.val.toNat < 128 at hascii
    have hupper : 'Z'.val.toNat = 90 := by decide
    have hdigits : '9'.val.toNat = 57 ∧ 'f'.val.toNat = 102 ∧ 'F'.val.toNat = 70 := by decide
    have hsame : char.toLower = char := by
      apply dif_neg
      rintro ⟨-, hle⟩
      rw [UInt32.le_iff_toNat_le] at hle
      omega
    have hnone : hex_nibble char = none := by
      simp only [hex_nibble, Char.le_def, UInt32.le_iff_toNat_le]
      rw [if_neg (by omega), if_neg (by omega), if_neg (by omega)]
    rw [hsame, hnone]
    exact ⟨rfl, rfl⟩

theorem toLower_eq_hex_char {char : Char} (h : hex_nibble char = some nibble) :
    char.toLower = hex_char nibble := by
  have hlower := (lower_digit char).2
  rw [h] at hlower
  exact of_decide_eq_true hlower

end erikslund.util
