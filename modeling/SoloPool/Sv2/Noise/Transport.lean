import SoloPool.Sv2.FrameStream
import SoloPool.Sv2.Noise.Connection
import SoloPool.Sv2.Noise.Inverse

namespace erikslund.sv2_noise

variable {dir : Direction} {s : Session} {nonce_count length_out : Nat}
  {process : CipherState → CipherState × Except Status Bytes} {cipher : CipherState} {output : Bytes}

/-- Work that takes no more nonces than it was given leave for succeeds as a call. -/
theorem transport_ok (hopen : s.terminal = false)
    (hdone : process (dir.cipher s) = (cipher, .ok output))
    (hnonces : cipher.nonce.toNat = (dir.cipher s).nonce.toNat + nonce_count) :
    transport dir s nonce_count length_out process =
      ⟨.ok, dir.set_cipher s cipher, length_out, output⟩ := by
  have hroom : (dir.cipher s).nonce.toNat + nonce_count ≤ kUint64Max.toNat := by
    have hlt := cipher.nonce.toNat_lt
    have hmax : kUint64Max.toNat = 2 ^ 64 - 1 := rfl
    omega
  simp only [transport, check_nonce_capacity_ok hopen hroom, hdone]

/-- A call that succeeds has done its work. -/
theorem transport_done (hprocess : Disciplined process)
    (hstatus : (transport dir s nonce_count length_out process).status = .ok) :
    s.terminal = false ∧ ∃ cipher output, process (dir.cipher s) = (cipher, .ok output) ∧
      transport dir s nonce_count length_out process =
        ⟨.ok, dir.set_cipher s cipher, length_out, output⟩ := by
  have htransported := transport_transported dir s nonce_count length_out process
  generalize transport dir s nonce_count length_out process = outcome at hstatus htransported
  cases htransported with
  | terminal => cases hstatus
  | exhausted => cases hstatus
  | processed hopen _ cipher output hdone => exact ⟨hopen, cipher, output, hdone, rfl⟩
  | failed _ _ cipher status hdone =>
    have hfatal := (hprocess.done hdone).1
    subst hstatus
    simp [Status.Fatal] at hfatal

theorem buffers_apart {first_length second_length : Nat} (hfirst : first_length ≤ 0x100000000)
    (hsecond : second_length ≤ 0x100000000) :
    ranges_overlap (some 0x100000000) first_length (some 0x200000000) second_length = false := by
  have hmax : kUint64Max.toNat = 2 ^ 64 - 1 := rfl
  have hfits : ¬ (0x100000000 > kUint64Max.toNat - first_length ∨ 0x200000000 > kUint64Max.toNat - second_length) := by
    omega
  have hafter : ¬ 0x200000000 < 0x100000000 + first_length := by omega
  simp only [ranges_overlap, if_neg hfits, decide_eq_false hafter, Bool.and_false, ite_self]

/-- The connection's own buffers are fit for a header. -/
theorem header_call_buffers (dir : Direction) (aead : Aead) (s : Session) {input : Bytes} {capacity : Nat}
    (hinput : input.length = dir.input_length HEADER_SIZE ENCRYPTED_HEADER_SIZE)
    (hcapacity : capacity = dir.output_length HEADER_SIZE ENCRYPTED_HEADER_SIZE) :
    header_call dir aead s (sv2.buffers input capacity) =
      transport dir s 1 capacity (cipher_call dir aead · input) := by
  subst hcapacity
  have hapart : ranges_overlap (some 0x100000000) (dir.input_length HEADER_SIZE ENCRYPTED_HEADER_SIZE)
      (some 0x200000000) (dir.output_length HEADER_SIZE ENCRYPTED_HEADER_SIZE) = false := by
    apply buffers_apart <;> cases dir <;> decide
  exact header_call_accepted dir aead s ⟨rfl, rfl, hinput, rfl, rfl, le_rfl, hapart⟩

theorem payload_ciphertext_size_ok {plaintext_length : Nat} (hlimit : plaintext_length ≤ MAX_FRAME_PAYLOAD_SIZE) :
    payload_ciphertext_size plaintext_length = .ok (Direction.decrypt.payload_input plaintext_length) := by
  rw [payload_ciphertext_size, if_neg (Nat.not_lt.mpr hlimit)]
  rfl

theorem payload_input_le (dir : Direction) {plaintext_length : Nat}
    (hlimit : plaintext_length ≤ MAX_FRAME_PAYLOAD_SIZE) : dir.payload_input plaintext_length ≤ 0x100000000 := by
  have hcount : payload_chunk_count plaintext_length ≤ plaintext_length := by
    unfold payload_chunk_count
    split
    · exact Nat.zero_le _
    · simp only [MAX_PAYLOAD_CHUNK_SIZE]
      omega
  simp only [MAX_FRAME_PAYLOAD_SIZE] at hlimit
  cases dir <;> simp only [Direction.payload_input, Direction.input_length, TAG_SIZE] <;> omega

/-- And for a payload. -/
theorem payload_call_buffers (dir : Direction) (aead : Aead) (s : Session) {plaintext_length : Nat}
    (hlimit : plaintext_length ≤ MAX_FRAME_PAYLOAD_SIZE) {input : Bytes} {capacity : Nat}
    (hinput : input.length = dir.payload_input plaintext_length)
    (hcapacity : capacity = dir.flip.payload_input plaintext_length) :
    payload_call dir aead s plaintext_length (sv2.buffers input capacity) =
      transport dir s (payload_chunk_count plaintext_length) capacity
        (process_chunks dir aead · plaintext_length input) := by
  subst hcapacity
  have hapart := buffers_apart (payload_input_le dir hlimit) (payload_input_le dir.flip hlimit)
  cases dir <;>
    exact payload_call_accepted _ aead s (payload_ciphertext_size_ok hlimit)
      ⟨rfl, rfl, hinput, rfl, rfl, le_rfl, hapart⟩

section Buffers

variable {aead : Aead} {input : Bytes} {capacity : Nat}

theorem header_call_ok (dir : Direction)
    (hinput : input.length = dir.input_length HEADER_SIZE ENCRYPTED_HEADER_SIZE)
    (hcapacity : capacity = dir.output_length HEADER_SIZE ENCRYPTED_HEADER_SIZE)
    (hopen : s.terminal = false)
    (hcall : cipher_call dir aead (dir.cipher s) input = (cipher, .ok output)) :
    header_call dir aead s (sv2.buffers input capacity) =
      ⟨.ok, dir.set_cipher s cipher, capacity, output⟩ := by
  obtain ⟨hlast, -, rfl⟩ := cipher_call_ok.mp hcall
  rw [header_call_buffers dir aead s hinput hcapacity]
  exact transport_ok hopen hcall (CipherState.succ_toNat hlast)

theorem header_call_done (dir : Direction)
    (hinput : input.length = dir.input_length HEADER_SIZE ENCRYPTED_HEADER_SIZE)
    (hcapacity : capacity = dir.output_length HEADER_SIZE ENCRYPTED_HEADER_SIZE)
    (hstatus : (header_call dir aead s (sv2.buffers input capacity)).status = .ok) :
    s.terminal = false ∧ ∃ cipher output,
      cipher_call dir aead (dir.cipher s) input = (cipher, .ok output) ∧
        header_call dir aead s (sv2.buffers input capacity) =
          ⟨.ok, dir.set_cipher s cipher, capacity, output⟩ := by
  rw [header_call_buffers dir aead s hinput hcapacity] at hstatus ⊢
  exact transport_done (cipher_call_disciplined _ _ _) hstatus

variable {plaintext_length : Nat} (hlimit : plaintext_length ≤ MAX_FRAME_PAYLOAD_SIZE)

include hlimit

theorem payload_call_ok (hinverts : aead.Inverts) (dir : Direction)
    (hinput : input.length = dir.payload_input plaintext_length)
    (hcapacity : capacity = dir.flip.payload_input plaintext_length) (hopen : s.terminal = false)
    (hcall : process_chunks dir aead (dir.cipher s) plaintext_length input = (cipher, .ok output)) :
    payload_call dir aead s plaintext_length (sv2.buffers input capacity) =
      ⟨.ok, dir.set_cipher s cipher, capacity, output⟩ := by
  rw [payload_call_buffers dir aead s hlimit hinput hcapacity]
  exact transport_ok hopen hcall (process_chunks_undone hinverts dir hinput hcall).nonces

theorem payload_call_done (dir : Direction)
    (hinput : input.length = dir.payload_input plaintext_length)
    (hcapacity : capacity = dir.flip.payload_input plaintext_length)
    (hstatus : (payload_call dir aead s plaintext_length (sv2.buffers input capacity)).status = .ok) :
    s.terminal = false ∧ ∃ cipher output,
      process_chunks dir aead (dir.cipher s) plaintext_length input = (cipher, .ok output) ∧
        payload_call dir aead s plaintext_length (sv2.buffers input capacity) =
          ⟨.ok, dir.set_cipher s cipher, capacity, output⟩ := by
  rw [payload_call_buffers dir aead s hlimit hinput hcapacity] at hstatus ⊢
  exact transport_done (process_chunks_disciplined _ _ _ _) hstatus

end Buffers

end erikslund.sv2_noise

namespace erikslund.sv2

open sv2_noise

/-- The connection's own formula gives the library's size. -/
theorem payload_ciphertext_size_eq (plaintext_size : Nat) :
    payload_ciphertext_size plaintext_size = Direction.decrypt.payload_input plaintext_size := by
  unfold payload_ciphertext_size Direction.payload_input payload_chunk_count
  split
  · simp [*, Direction.input_length]
  · simp only [Direction.input_length, MAX_PAYLOAD_CHUNK_SIZE, TAG_SIZE]
    omega

section Open

variable {aead : Aead} {limit : Nat} {s : Session}

theorem begin_payload_empty {header : Bytes} (hsize : (read_header header).2 = 0) :
    begin_payload limit s header = (header, .ok (.header s)) := by
  simp [begin_payload, hsize]

theorem begin_payload_some (s : Session) {header : Bytes} (hlimit : (read_header header).2 ≤ limit)
    (hmaximum : limit ≤ MAX_FRAME_PAYLOAD_SIZE) (hsize : (read_header header).2 ≠ 0) :
    ∃ some_payload, begin_payload limit s header =
      ([], .ok (.payload s header (read_header header).2 (payload_ciphertext_size (read_header header).2)
        some_payload)) := by
  have hcalculated := payload_ciphertext_size_ok (hlimit.trans hmaximum)
  rw [← payload_ciphertext_size_eq] at hcalculated
  refine ⟨payload_ciphertext_size_pos hsize hcalculated, ?_⟩
  simp only [begin_payload, gt_iff_lt, Nat.not_lt.mpr hlimit, if_false, dif_neg hsize]
  split
  · rename_i status hfailed
    rw [hcalculated] at hfailed
    cases hfailed
  · rename_i calculated hdone
    rw [hcalculated] at hdone
    cases hdone
    simp

theorem begin_payload_over {header : Bytes} (hlimit : limit < (read_header header).2) :
    begin_payload limit s header = ([], .error .ok) := by
  simp [begin_payload, hlimit]

/-- A header opens, or the connection ends with nothing more to show. -/
theorem open_header_cases {front : Bytes} (hfront : front.length = ENCRYPTED_HEADER_SIZE) :
    (∃ status, open_header aead limit s front = ([], .error status)) ∨
      s.terminal = false ∧ ∃ cipher header,
        cipher_call .decrypt aead s.receive front = (cipher, .ok header) ∧
        open_header aead limit s front =
          begin_payload limit { s with receive := cipher } header := by
  by_cases hstatus : (decrypt_header aead s (buffers front HEADER_SIZE)).status = .ok
  · obtain ⟨hopen, cipher, header, hcall, houtcome⟩ := header_call_done .decrypt hfront rfl hstatus
    have hopened : decrypt_header aead s (buffers front HEADER_SIZE) =
      ⟨.ok, { s with receive := cipher }, HEADER_SIZE, header⟩ := houtcome
    refine .inr ⟨hopen, cipher, header, hcall, ?_⟩
    simp [open_header, hopened]
  · exact .inl ⟨_, if_pos (.inl hstatus)⟩

theorem open_header_ok (hopen : s.terminal = false) {cipher : CipherState} {front header : Bytes}
    (hfront : front.length = ENCRYPTED_HEADER_SIZE)
    (hcall : cipher_call .decrypt aead s.receive front = (cipher, .ok header)) :
    open_header aead limit s front =
      begin_payload limit { s with receive := cipher } header := by
  have hopened : decrypt_header aead s (buffers front HEADER_SIZE) =
      ⟨.ok, { s with receive := cipher }, HEADER_SIZE, header⟩ := header_call_ok .decrypt hfront rfl hopen hcall
  simp [open_header, hopened]

variable {plaintext_header : Bytes} {plaintext_payload_size : Nat} (hlimit : plaintext_payload_size ≤ MAX_FRAME_PAYLOAD_SIZE)
  {back : Bytes} (hback : back.length = payload_ciphertext_size plaintext_payload_size)

include hlimit hback

theorem open_payload_cases :
    (∃ status, open_payload aead s plaintext_header plaintext_payload_size back = ([], .error status)) ∨
      s.terminal = false ∧ ∃ cipher payload,
        process_chunks .decrypt aead s.receive plaintext_payload_size back = (cipher, .ok payload) ∧
        open_payload aead s plaintext_header plaintext_payload_size back =
          (plaintext_header ++ payload, .ok (.header { s with receive := cipher })) := by
  rw [payload_ciphertext_size_eq] at hback
  by_cases hstatus : (decrypt_payload aead s plaintext_payload_size
      (buffers back plaintext_payload_size)).status = .ok
  · obtain ⟨hopen, cipher, payload, hcall, houtcome⟩ := payload_call_done hlimit .decrypt hback rfl hstatus
    have hopened : decrypt_payload aead s plaintext_payload_size (buffers back plaintext_payload_size) =
      ⟨.ok, { s with receive := cipher }, plaintext_payload_size, payload⟩ := houtcome
    refine .inr ⟨hopen, cipher, payload, hcall, ?_⟩
    simp [open_payload, hopened]
  · exact .inl ⟨_, if_pos (.inl hstatus)⟩

theorem open_payload_ok (hinverts : aead.Inverts) (hopen : s.terminal = false) {cipher : CipherState}
    {payload : Bytes}
    (hcall : process_chunks .decrypt aead s.receive plaintext_payload_size back = (cipher, .ok payload)) :
    open_payload aead s plaintext_header plaintext_payload_size back =
      (plaintext_header ++ payload, .ok (.header { s with receive := cipher })) := by
  rw [payload_ciphertext_size_eq] at hback
  have hopened : decrypt_payload aead s plaintext_payload_size (buffers back plaintext_payload_size) =
      ⟨.ok, { s with receive := cipher }, plaintext_payload_size, payload⟩ :=
    payload_call_ok hlimit hinverts .decrypt hback rfl hopen hcall
  simp [open_payload, hopened]

end Open

end erikslund.sv2
