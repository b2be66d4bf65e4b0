import SoloPool.Util.Bytes

namespace erikslund.util

open List

/-- Bitcoin's CompactSize. -/
def encode_varint (value : Nat) : Bytes :=
  if value < 0xfd then [UInt8.ofNat value]
  else if value ≤ 0xffff then 0xfd :: Radix.le 2 value
  else if value ≤ 0xffffffff then 0xfe :: Radix.le 4 value
  else 0xff :: Radix.le 8 value

/-- The value and the number of bytes read. -/
def decode_varint (input : Bytes) : Except String (Nat × Nat) :=
  match input with
  | [] => .error "varint: empty input"
  | first :: rest =>
    if first < 0xfd then .ok (first.toNat, 1)
    else if first = 0xfd then
      if input.length < 3 then .error "varint: truncated 2-byte value" else .ok (Radix.value (rest.take 2), 3)
    else if first = 0xfe then
      if input.length < 5 then .error "varint: truncated 4-byte value" else .ok (Radix.value (rest.take 4), 5)
    else if input.length < 9 then .error "varint: truncated 8-byte value" else .ok (Radix.value (rest.take 8), 9)

theorem encode_varint_length_pos (value : Nat) : 0 < (encode_varint value).length := by
  unfold encode_varint
  split_ifs <;> simp

/-- The value is read back, with the length that says it was written in the shortest form. -/
theorem decode_encode_varint {value : Nat} (hvalue : value < 2 ^ 64) (rest : Bytes) :
    decode_varint (encode_varint value ++ rest) = .ok (value, (encode_varint value).length) := by
  have hword (count : Nat) (hcount : value < 256 ^ count) :
      Radix.value ((Radix.le count value ++ rest).take count) = value := by
    rw [take_left' (Radix.le_length count value), Radix.value_le, Nat.mod_eq_of_lt hcount]
  unfold encode_varint
  split
  · rename_i hsmall
    have hbyte : (UInt8.ofNat value).toNat = value := by
      rw [UInt8.toNat_ofNat']
      omega
    have hfirst : UInt8.ofNat value < 0xfd := by
      rw [UInt8.lt_iff_toNat_lt, hbyte]
      exact hsmall
    simp [decode_varint, hfirst, hbyte]
  split
  · have hlength : ¬ (Radix.le 2 value ++ rest).length + 1 < 3 := by simp
    simp only [cons_append, decode_varint, length_cons, hlength, if_false, hword 2 (by omega),
      Radix.le_length]
    rfl
  split
  · have hlength : ¬ (Radix.le 4 value ++ rest).length + 1 < 5 := by simp
    simp only [cons_append, decode_varint, length_cons, hlength, if_false, hword 4 (by omega),
      Radix.le_length]
    rfl
  · have hlength : ¬ (Radix.le 8 value ++ rest).length + 1 < 9 := by simp
    simp only [cons_append, decode_varint, length_cons, hlength, if_false, hword 8 (by omega),
      Radix.le_length]
    rfl

/-- More input does not change what is decoded. -/
theorem decode_varint_append {input : Bytes} {value consumed : Nat} (h : decode_varint input = .ok (value, consumed))
    (more : Bytes) : decode_varint (input ++ more) = .ok (value, consumed) ∧ consumed ≤ input.length := by
  cases input with
  | nil => cases h
  | cons first rest =>
    -- the words of each width lie within the input, so the appended bytes are not read
    have hword (count : Nat) (hcount : ¬ (first :: rest).length < count + 1) :
        (rest ++ more).take count = rest.take count ∧ ¬ (first :: (rest ++ more)).length < count + 1 := by
      simp only [length_cons, length_append] at hcount ⊢
      exact ⟨take_append_of_le_length (by omega), by omega⟩
    simp only [decode_varint, cons_append] at h ⊢
    split at h
    · rename_i hsmall
      rw [if_pos hsmall]
      cases h
      exact ⟨rfl, by simp⟩
    rename_i hlarge
    rw [if_neg hlarge]
    split at h
    · rename_i hfirst
      split at h
      · cases h
      rename_i hlength
      rw [if_pos hfirst, if_neg (hword 2 hlength).2, (hword 2 hlength).1]
      cases h
      exact ⟨rfl, Nat.le_of_not_lt hlength⟩
    rename_i hfd
    rw [if_neg hfd]
    split at h
    · rename_i hfirst
      split at h
      · cases h
      rename_i hlength
      rw [if_pos hfirst, if_neg (hword 4 hlength).2, (hword 4 hlength).1]
      cases h
      exact ⟨rfl, Nat.le_of_not_lt hlength⟩
    rename_i hfe
    rw [if_neg hfe]
    split at h
    · cases h
    rename_i hlength
    rw [if_neg (hword 8 hlength).2, (hword 8 hlength).1]
    cases h
    exact ⟨rfl, Nat.le_of_not_lt hlength⟩

theorem decode_varint_consumed_pos {input : Bytes} {value consumed : Nat}
    (h : decode_varint input = .ok (value, consumed)) : 0 < consumed := by
  unfold decode_varint at h
  split at h
  · cases h
  · split_ifs at h <;> cases h <;> decide

end erikslund.util
