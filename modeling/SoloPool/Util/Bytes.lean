import SoloPool.Lib.Radix

namespace erikslund

/-- Owning byte buffers and views alike; nothing modelled depends on the difference. -/
abbrev Bytes := List UInt8

/-- A `std::string`, one `Char` for each of its bytes. -/
abbrev Text := List Char

instance : LawfulBEq Text := inferInstanceAs (LawfulBEq (List Char))

namespace util

/-- `std::array<uint8_t, 32>`. -/
abbrev Hash256 := { bytes : Bytes // bytes.length = 32 }

/-- Thirty-two times one byte. -/
def Hash256.filled (byte : UInt8) : Hash256 := ⟨List.replicate 32 byte, List.length_replicate⟩

/-- `write_le16`, `write_le32` and `write_le64`, as the bytes they store: byte
`i` is the value shifted right by `8 * i` bits. -/
def le16_bytes (v : UInt16) : Bytes := Radix.le 2 v.toNat

def le32_bytes (v : UInt32) : Bytes := Radix.le 4 v.toNat

def le64_bytes (v : UInt64) : Bytes := Radix.le 8 v.toNat

/-- Bitcoin displays hashes in the reverse of their internal serialization. -/
def reversed (b : Bytes) : Bytes := b.reverse

@[simp] theorem le32_bytes_length (v : UInt32) : (le32_bytes v).length = 4 :=
  Radix.le_length 4 _

theorem le32_bytes_injective : Function.Injective le32_bytes := by
  intro a b h
  have hmod := Radix.le_inj h
  have ha := a.toNat_lt
  have hb := b.toNat_lt
  exact UInt32.toNat_inj.mp (by omega)

end util

end erikslund
