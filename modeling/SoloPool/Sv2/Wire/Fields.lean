import SoloPool.Lib.Codec
import SoloPool.Util.Bytes

namespace erikslund.sv2.wire

open util Codec

namespace Writer

/-! The methods of `Writer`, each as the bytes it appends. A `float` is its bit pattern. -/

def u8 (value : UInt8) : Except String Bytes := .ok [value]

def u16 (value : UInt16) : Except String Bytes := .ok (le16_bytes value)

def u32 (value : UInt32) : Except String Bytes := .ok (le32_bytes value)

def u64 (value : UInt64) : Except String Bytes := .ok (le64_bytes value)

def f32 (value : UInt32) : Except String Bytes := u32 value

def u256 (value : Hash256) : Except String Bytes := .ok value.val

def boolean (value : Bool) : Except String Bytes := u8 (if value then 1 else 0)

def string (value : Bytes) : Except String Bytes :=
  if value.length > 255 then .error "SV2 STR0_255 exceeds 255 bytes"
  else writes [u8 (UInt8.ofNat value.length), .ok value]

def b0_32 (value : Bytes) : Except String Bytes :=
  if value.length > 32 then .error "SV2 B0_32 exceeds 32 bytes"
  else writes [u8 (UInt8.ofNat value.length), .ok value]

def b0_64k (value : Bytes) : Except String Bytes :=
  if value.length > 65535 then .error "SV2 B0_64K exceeds 65535 bytes"
  else writes [u16 (UInt16.ofNat value.length), .ok value]

def sequence_u256 (values : List Hash256) : Except String Bytes :=
  if values.length > 255 then .error "SV2 SEQ0_255[U256] exceeds 255 elements"
  else writes (u8 (UInt8.ofNat values.length) :: values.map u256)

def option_u32 (value : Option UInt32) : Except String Bytes :=
  writes (u8 (if value.isSome then 1 else 0) :: value.toList.map u32)

end Writer

namespace Reader

def truncated : String := "truncated SV2 message"

def u8 : Reader UInt8 String UInt8 := do
  let bytes ← Reader.take truncated 1
  return bytes.getD 0 0

def u16 : Reader UInt8 String UInt16 := do
  let bytes ← Reader.take truncated 2
  return UInt16.ofNat (Radix.value bytes)

def u32 : Reader UInt8 String UInt32 := do
  let bytes ← Reader.take truncated 4
  return UInt32.ofNat (Radix.value bytes)

def u64 : Reader UInt8 String UInt64 := do
  let bytes ← Reader.take truncated 8
  return UInt64.ofNat (Radix.value bytes)

def f32 : Reader UInt8 String UInt32 := u32

/-- Copies bytes over `U256 value{}`. -/
def to_u256 (bytes : Bytes) : Hash256 :=
  if h : bytes.length = 32 then ⟨bytes, h⟩ else ⟨List.replicate 32 0, List.length_replicate⟩

def u256 : Reader UInt8 String Hash256 := do
  let bytes ← Reader.take truncated 32
  return to_u256 bytes

def boolean : Reader UInt8 String Bool := do
  let byte ← u8
  return byte &&& 1 != 0

def string : Reader UInt8 String Bytes := do
  let size ← u8
  Reader.take truncated size.toNat

def b0_32 : Reader UInt8 String Bytes := do
  let size ← u8
  if size > 32 then throw "SV2 B0_32 exceeds 32 bytes"
  else Reader.take truncated size.toNat

def b0_64k : Reader UInt8 String Bytes := do
  let size ← u16
  Reader.take truncated size.toNat

def sequence_u256 : Reader UInt8 String (List Hash256) := do
  let size ← u8
  Reader.times size.toNat u256

/-- The rest of `option_u32`, once its count is known. -/
def option_value (count : UInt8) : Reader UInt8 String (Option UInt32) :=
  if count = 0 then return none
  else if count = 1 then do
    let value ← u32
    return some value
  else throw "SV2 OPTION count exceeds one"

def option_u32 : Reader UInt8 String (Option UInt32) := do
  let count ← u8
  option_value count

end Reader

/-- `decode`: what `parse` leaves is refused by `finish`. -/
def decode {α : Type} (parse : Reader UInt8 String α) (payload : Bytes) : Except String α :=
  match parse.run payload with
  | .error error => .error error
  | .ok (message, rest) =>
    if rest.length ≠ 0 then .error "unexpected trailing bytes in SV2 message" else .ok message

theorem decode_eq_ok {α : Type} {parse : Reader UInt8 String α} {payload : Bytes} {message : α} :
    decode parse payload = .ok message ↔ parse.Reads payload message [] := by
  rw [decode, Reader.Reads]
  cases parse.run payload with
  | error error => simp
  | ok result =>
    obtain ⟨message', rest⟩ := result
    cases rest <;> simp

/-! Each field is read back as it was written. -/

theorem u8_codec : Total Writer.u8 Reader.u8 (fun _ => True) Eq := by
  apply Total.fixed
  · exact fun _ => rfl
  · exact fun _ => rfl
  · intro bytes hlength
    match bytes, hlength with
    | [byte], _ => rfl

/-- Little-endian numbers of a fixed width. -/
theorem number_codec {α : Type} {width : Nat} {to_nat : α → Nat} {of_nat : Nat → α}
    (hlt : ∀ a, to_nat a < 256 ^ width) (hof : ∀ a, of_nat (to_nat a) = a)
    (hto : ∀ n < 256 ^ width, to_nat (of_nat n) = n) :
    Total (fun a => .ok (Radix.le width (to_nat a)))
      (do let bytes ← Reader.take Reader.truncated width; return of_nat (Radix.value bytes)) (fun _ => True) Eq := by
  apply Total.fixed
  · exact fun a => Radix.le_length width _
  · intro a
    rw [Radix.value_le, Nat.mod_eq_of_lt (hlt a), hof]
  · intro bytes hlength
    have hvalue := Radix.value_lt bytes
    rw [hlength] at hvalue
    rw [hto _ hvalue, ← hlength, Radix.le_value]

theorem u16_codec : Total Writer.u16 Reader.u16 (fun _ => True) Eq :=
  number_codec (fun a => a.toNat_lt) (fun _ => UInt16.ofNat_toNat) fun _ h => UInt16.toNat_ofNat_of_lt' h

theorem u32_codec : Total Writer.u32 Reader.u32 (fun _ => True) Eq :=
  number_codec (fun a => a.toNat_lt) (fun _ => UInt32.ofNat_toNat) fun _ h => UInt32.toNat_ofNat_of_lt' h

theorem u64_codec : Total Writer.u64 Reader.u64 (fun _ => True) Eq :=
  number_codec (fun a => a.toNat_lt) (fun _ => UInt64.ofNat_toNat) fun _ h => UInt64.toNat_ofNat_of_lt' h

theorem u256_codec : Total Writer.u256 Reader.u256 (fun _ => True) Eq := by
  apply Total.fixed
  · exact fun value => value.property
  · exact fun value => dif_pos value.property
  · intro bytes hlength
    rw [Reader.to_u256, dif_pos hlength]

/-- Only the low bit of a BOOL byte is kept. -/
def LowBit : Rewriting UInt8 := fun used bytes => ∃ byte, used = [byte] ∧ bytes = [byte &&& 1]

theorem low_bit (byte : UInt8) : byte &&& 1 = if byte &&& 1 != 0 then 1 else 0 := by
  have hmod : (byte &&& 1).toNat = byte.toNat % 2 := by
    rw [UInt8.toNat_and]
    exact Nat.and_one_is_mod _
  split
  · rename_i hbit
    have hnonzero : (byte &&& 1).toNat ≠ 0 := by
      intro hzero
      rw [UInt8.toNat_inj.mp (hzero.trans UInt8.toNat_zero.symm)] at hbit
      cases hbit
    apply UInt8.toNat_inj.mp
    rw [UInt8.toNat_one]
    omega
  · rename_i hbit
    simpa using hbit

theorem boolean_codec : Total Writer.boolean Reader.boolean (fun _ => True) LowBit := by
  refine ⟨fun _ _ => ⟨fun _ => trivial, fun _ => ⟨_, rfl⟩⟩, ?_, ?_⟩
  · intro value bytes _ hwrite
    have hencodes := (u8_codec.encodes _ bytes trivial hwrite).map (fun byte => byte &&& 1 != 0)
    cases value <;> exact hencodes
  · intro input value rest hread
    obtain ⟨byte, mid, hbyte, hpure⟩ := Reader.reads_bind.mp hread
    obtain ⟨rfl, rfl⟩ := Reader.reads_pure.mp hpure
    obtain ⟨-, _, used, rfl, hencodes, hwrite, rfl⟩ := u8_codec.rewrites input byte mid hbyte
    cases hwrite
    refine ⟨trivial, [byte], [byte &&& 1], rfl, hencodes.map (fun byte => byte &&& 1 != 0), ?_, byte, rfl, rfl⟩
    rw [Writer.boolean, ← low_bit, Writer.u8]

theorem u8_size {n : Nat} {size : UInt8} : n ≤ 255 ∧ UInt8.ofNat n = size ↔ n = size.toNat := by
  constructor
  · rintro ⟨hn, rfl⟩
    exact (UInt8.toNat_ofNat_of_lt' (Nat.lt_succ_of_le hn)).symm
  · rintro rfl
    exact ⟨Nat.le_of_lt_succ size.toNat_lt, UInt8.ofNat_toNat⟩

theorem u16_size {n : Nat} {size : UInt16} : n ≤ 65535 ∧ UInt16.ofNat n = size ↔ n = size.toNat := by
  constructor
  · rintro ⟨hn, rfl⟩
    exact (UInt16.toNat_ofNat_of_lt' (Nat.lt_succ_of_le hn)).symm
  · rintro rfl
    exact ⟨Nat.le_of_lt_succ size.toNat_lt, UInt16.ofNat_toNat⟩

theorem string_codec : Total Writer.string Reader.string (fun value => value.length ≤ 255) Eq := by
  apply u8_codec.sized
  intro size
  exact .counted _ fun taken => u8_size

theorem b0_64k_codec : Total Writer.b0_64k Reader.b0_64k (fun value => value.length ≤ 65535) Eq := by
  apply u16_codec.sized
  intro size
  exact .counted _ fun taken => u16_size

theorem b0_32_codec : Total Writer.b0_32 Reader.b0_32 (fun value => value.length ≤ 32) Eq := by
  apply u8_codec.sized
  intro size
  have hlimit : (32 : UInt8) < size ↔ 32 < size.toNat := UInt8.lt_iff_toNat_lt
  split
  · rename_i hsize
    apply Lossless.refused
    rintro value ⟨hlength, hvalue⟩
    have hvalue := u8_size.mp ⟨by omega, hvalue⟩
    have hsize := hlimit.mp hsize
    omega
  · rename_i hsize
    apply Lossless.counted
    intro value
    have hsize := mt hlimit.mpr hsize
    constructor
    · rintro ⟨hlength, hvalue⟩
      exact u8_size.mp ⟨by omega, hvalue⟩
    · intro hvalue
      exact ⟨by omega, (u8_size.mpr hvalue).2⟩

theorem sequence_u256_codec :
    Total Writer.sequence_u256 Reader.sequence_u256 (fun values => values.length ≤ 255) Eq := by
  apply u8_codec.sized
  intro size
  exact .repeated u256_codec fun values => u8_size

theorem option_value_codec (count : UInt8) :
    Lossless (fun value : Option UInt32 => True ∧ (if value.isSome then 1 else 0) = count)
      (fun value => writes (value.toList.map Writer.u32)) (Reader.option_value count) (fun _ => True) Eq := by
  rw [Reader.option_value]
  split
  · rename_i hcount
    subst hcount
    refine (Lossless.done ?_).congr ?_ (fun _ _ => Iff.rfl)
    · intro value
      cases value <;> simp
    · rintro value ⟨-, hvalue⟩
      cases value with
      | none => rfl
      | some value => cases hvalue
  · split
    · rename_i hcount
      subst hcount
      have hvalue : ∀ value, Lossless
          (fun option : Option UInt32 => (True ∧ (if option.isSome then (1 : UInt8) else 0) = 1) ∧ option.getD 0 = value)
          (fun _ => writes []) (pure (some value) : Reader UInt8 String (Option UInt32)) (fun _ => True) Eq := by
        intro value
        apply Lossless.done
        intro option
        cases option <;> simp
      have hcodec := Lossless.exact (fun option : Option UInt32 => option.getD 0) u32_codec hvalue
      refine hcodec.congr ?_ (fun _ _ => by simp)
      rintro option ⟨-, hoption⟩
      cases option with
      | none => cases hoption
      | some value => rfl
    · rename_i hzero hone
      apply Lossless.refused
      rintro value ⟨-, rfl⟩
      cases value with
      | none => exact hzero rfl
      | some value => exact hone rfl

theorem option_u32_codec : Total Writer.option_u32 Reader.option_u32 (fun _ => True) Eq := by
  have hcodec := Lossless.exact (fun value : Option UInt32 => if value.isSome then (1 : UInt8) else 0) u8_codec
    option_value_codec
  exact hcodec.congr (fun _ _ => rfl) (fun _ _ => by simp)

end erikslund.sv2.wire
