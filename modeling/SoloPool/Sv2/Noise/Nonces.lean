import SoloPool.Lib.Run
import SoloPool.Sv2.Noise.Session

namespace erikslund.sv2_noise

namespace CipherState

/-- The nonces used so far, each once and in order. -/
structure Ordered (cipher : CipherState) : Prop where
  increasing : cipher.used.Pairwise (fun newer older => older < newer)
  never_last : ∀ nonce ∈ cipher.used, nonce ≠ kUint64Max

/-- The next nonce is none of those used. -/
def Fresh (cipher : CipherState) : Prop := ∀ nonce ∈ cipher.used, nonce < cipher.nonce

theorem succ_toNat {nonce : UInt64} (h : nonce ≠ kUint64Max) : (nonce + 1).toNat = nonce.toNat + 1 := by
  have hlt := nonce.toNat_lt
  have hne : nonce.toNat ≠ kUint64Max.toNat := fun heq => h (UInt64.toNat_inj.mp heq)
  have hmax : kUint64Max.toNat = 2 ^ 64 - 1 := rfl
  rw [UInt64.toNat_add]
  change (nonce.toNat + 1) % 2 ^ 64 = _
  omega

theorem lt_succ {nonce : UInt64} (h : nonce ≠ kUint64Max) : nonce < nonce + 1 := by
  rw [UInt64.lt_iff_toNat_lt, succ_toNat h]
  exact Nat.lt_succ_self _

theorem Ordered.use {cipher : CipherState} (h : cipher.Ordered) (hfresh : cipher.Fresh)
    (hlast : cipher.nonce ≠ kUint64Max) {nonce : UInt64} :
    Ordered { cipher with nonce, used := cipher.nonce :: cipher.used } where
  increasing := List.pairwise_cons.mpr ⟨hfresh, h.increasing⟩
  never_last := List.forall_mem_cons.mpr ⟨hlast, h.never_last⟩

theorem Fresh.use {cipher : CipherState} (hfresh : cipher.Fresh) (hlast : cipher.nonce ≠ kUint64Max) :
    Fresh { cipher with nonce := cipher.nonce + 1, used := cipher.nonce :: cipher.used } := by
  intro nonce hmem
  cases hmem with
  | head => exact lt_succ hlast
  | tail _ hmem => exact UInt64.lt_trans (hfresh nonce hmem) (lt_succ hlast)

end CipherState

/-- The results that end a session. -/
def Status.Fatal (status : Status) : Prop :=
  status = .nonce_exhausted ∨ status = .crypto_failure ∨ status = .authentication_failure

theorem Direction.failure_fatal (dir : Direction) : dir.failure.Fatal := by
  cases dir with
  | encrypt => exact .inr (.inl rfl)
  | decrypt => exact .inr (.inr rfl)

/-- What work on a cipher state comes to if it uses the nonces in order, and each at most once. -/
def Kept (cipher : CipherState) : CipherState × Except Status Bytes → Prop
  | (cipher', .ok _) => cipher.Ordered ∧ cipher.Fresh → cipher'.Ordered ∧ cipher'.Fresh
  | (cipher', .error status) => status.Fatal ∧ (cipher.Ordered ∧ cipher.Fresh → cipher'.Ordered)

def Disciplined (process : CipherState → CipherState × Except Status Bytes) : Prop :=
  ∀ cipher, Kept cipher (process cipher)

theorem Disciplined.done {process : CipherState → CipherState × Except Status Bytes} (h : Disciplined process)
    {cipher cipher' : CipherState} {result : Except Status Bytes} (hdone : process cipher = (cipher', result)) :
    Kept cipher (cipher', result) :=
  hdone ▸ h cipher

theorem cipher_call_disciplined (dir : Direction) (aead : Aead) (input : Bytes) :
    Disciplined (cipher_call dir aead · input) := by
  intro cipher
  simp only [cipher_call]
  split
  · exact ⟨.inl rfl, fun h => h.1⟩
  · rename_i hlast
    split
    · exact ⟨dir.failure_fatal, fun h => h.1.use h.2 hlast⟩
    · exact fun h => ⟨h.1.use h.2 hlast, h.2.use hlast⟩

theorem Disciplined.and_then {first second : CipherState → CipherState × Except Status Bytes}
    (hfirst : Disciplined first) (hsecond : Disciplined second) : Disciplined (and_then first second) := by
  intro cipher
  unfold sv2_noise.and_then
  cases hdone : first cipher with
  | mk mid result =>
  have hmid := hfirst.done hdone
  cases result with
  | error status => exact hmid
  | ok output =>
    cases hlast : second mid with
    | mk after result =>
    have hafter := hsecond.done hlast
    simp only [hlast]
    cases result with
    | error status => exact ⟨hafter.1, fun h => hafter.2 (hmid h)⟩
    | ok rest => exact fun h => hafter (hmid h)

theorem process_chunks_disciplined (dir : Direction) (aead : Aead) (remaining : Nat) (input : Bytes) :
    Disciplined (process_chunks dir aead · remaining input) := by
  induction remaining using Nat.strong_induction_on generalizing input with
  | h remaining ih =>
    by_cases hmore : remaining = 0
    · subst hmore
      simp only [process_chunks_zero]
      exact fun cipher h => h
    · have hless : remaining - min remaining MAX_PAYLOAD_CHUNK_SIZE < remaining := by
        simp only [MAX_PAYLOAD_CHUNK_SIZE]
        omega
      have hstep := funext fun cipher =>
        process_chunks_step dir aead cipher hmore input rfl rfl
      rw [hstep]
      exact (cipher_call_disciplined dir aead _).and_then (ih _ hless _)

theorem payload_chunk_count_step {remaining : Nat} (hmore : remaining ≠ 0) :
    payload_chunk_count remaining = 1 + payload_chunk_count (remaining - min remaining MAX_PAYLOAD_CHUNK_SIZE) := by
  rw [payload_chunk_count, if_neg hmore, payload_chunk_count]
  by_cases hlast : remaining - min remaining MAX_PAYLOAD_CHUNK_SIZE = 0
  · rw [if_pos hlast]
    simp only [MAX_PAYLOAD_CHUNK_SIZE] at hlast ⊢
    omega
  · rw [if_neg hlast]
    simp only [MAX_PAYLOAD_CHUNK_SIZE] at hlast ⊢
    omega

/-- The pieces of a payload that the loop puts to the primitive, in order. -/
def chunk_inputs (dir : Direction) (remaining : Nat) (input : Bytes) : List Bytes :=
  if _ : remaining = 0 then []
  else
    let chunk_length := min remaining MAX_PAYLOAD_CHUNK_SIZE
    let read := dir.input_length chunk_length (chunk_length + TAG_SIZE)
    input.take read :: chunk_inputs dir (remaining - chunk_length) (input.drop read)
termination_by remaining
decreasing_by
  simp only [MAX_PAYLOAD_CHUNK_SIZE]
  omega

/-- The primitive fails on one of the pieces, under the nonce whose turn it is there. -/
def Breaks (dir : Direction) (aead : Aead) (cipher : CipherState) (pieces : List Bytes) : Prop :=
  ∃ i piece, pieces[i]? = some piece ∧
    dir.primitive aead cipher.key (cipher.nonce + UInt64.ofNat i) piece = none

section Breaks

variable {dir : Direction} {aead : Aead} {cipher : CipherState} {piece : Bytes}

theorem cipher_call_breaks (hlast : cipher.nonce ≠ kUint64Max)
    (hnone : dir.primitive aead cipher.key cipher.nonce piece = none) :
    ∃ cipher', cipher_call dir aead cipher piece = (cipher', .error dir.failure) := by
  simp only [cipher_call, if_neg hlast, hnone]
  exact ⟨_, rfl⟩

theorem Breaks.head_or_tail {pieces : List Bytes} (h : Breaks dir aead cipher (piece :: pieces)) :
    dir.primitive aead cipher.key cipher.nonce piece = none ∨
      ∀ used, Breaks dir aead { cipher with nonce := cipher.nonce + 1, used } pieces := by
  obtain ⟨i, broken, hpiece, hnone⟩ := h
  cases i with
  | zero =>
    cases hpiece
    exact .inl (by simpa using hnone)
  | succ i =>
    refine .inr fun used => ⟨i, broken, by simpa using hpiece, ?_⟩
    rwa [Nat.succ_eq_add_one, Nat.add_comm, UInt64.ofNat_add, ← UInt64.add_assoc] at hnone

theorem ne_last {count : Nat} (hcount : 0 < count) (hroom : cipher.nonce.toNat + count ≤ kUint64Max.toNat) :
    cipher.nonce ≠ kUint64Max := by
  intro hlast
  rw [hlast] at hroom
  omega

/-- A piece that breaks ends the loop there, with the failure of the direction. -/
theorem process_chunks_breaks {remaining : Nat} {input : Bytes}
    (hroom : cipher.nonce.toNat + payload_chunk_count remaining ≤ kUint64Max.toNat)
    (h : Breaks dir aead cipher (chunk_inputs dir remaining input)) :
    ∃ cipher', process_chunks dir aead cipher remaining input = (cipher', .error dir.failure) := by
  induction remaining using Nat.strong_induction_on generalizing cipher input with
  | h remaining ih =>
    by_cases hmore : remaining = 0
    · obtain ⟨i, piece, hpiece, -⟩ := h
      rw [chunk_inputs, dif_pos hmore] at hpiece
      cases hpiece
    · have hless : remaining - min remaining MAX_PAYLOAD_CHUNK_SIZE < remaining := by
        simp only [MAX_PAYLOAD_CHUNK_SIZE]
        omega
      rw [payload_chunk_count_step hmore] at hroom
      have hlast := ne_last (by omega) hroom
      rw [chunk_inputs, dif_neg hmore] at h
      rw [process_chunks_step dir aead cipher hmore input rfl rfl, and_then]
      cases hfirst : dir.primitive aead cipher.key cipher.nonce
          (input.take (dir.input_length (min remaining MAX_PAYLOAD_CHUNK_SIZE)
            (min remaining MAX_PAYLOAD_CHUNK_SIZE + TAG_SIZE))) with
      | none =>
        obtain ⟨cipher', hcall⟩ := cipher_call_breaks hlast hfirst
        simp only [hcall]
        exact ⟨_, rfl⟩
      | some output =>
        simp only [cipher_call, if_neg hlast, hfirst]
        have hrest := h.head_or_tail.resolve_left (by simp [hfirst]) (cipher.nonce :: cipher.used)
        obtain ⟨cipher', hloop⟩ := ih _ hless (by dsimp only; rw [CipherState.succ_toNat hlast]; omega) hrest
        rw [hloop]
        exact ⟨_, rfl⟩

end Breaks

/-- Buffers that a call may read and write so much of. -/
structure Arguments.Fit (arguments : Arguments) (input_length output_length : Nat) : Prop where
  session : arguments.session = true
  length_out : arguments.length_out = true
  length : arguments.input.data.length = input_length
  input : pointer_for_length_is_valid arguments.input.pointer input_length = true
  output : pointer_for_length_is_valid arguments.output.pointer output_length = true
  capacity : output_length ≤ arguments.output.capacity
  apart : ranges_overlap arguments.input.pointer input_length arguments.output.pointer output_length = false

/-- A transport call with the primitive it finds. -/
inductive Call where
  | encrypt_header (arguments : Arguments)
  | decrypt_header (arguments : Arguments)
  | encrypt_payload (arguments : Arguments)
  | decrypt_payload (plaintext_length : Nat) (arguments : Arguments)

namespace Call

def perform (call : Call) (aead : Aead) (s : Session) : Outcome :=
  match call with
  | .encrypt_header arguments => sv2_noise.encrypt_header aead s arguments
  | .decrypt_header arguments => sv2_noise.decrypt_header aead s arguments
  | .encrypt_payload arguments => sv2_noise.encrypt_payload aead s arguments
  | .decrypt_payload plaintext_length arguments => sv2_noise.decrypt_payload aead s plaintext_length arguments

def direction : Call → Direction
  | .encrypt_header _ | .encrypt_payload _ => .encrypt
  | .decrypt_header _ | .decrypt_payload _ _ => .decrypt

/-- What the call puts to the primitive, in order. -/
def pieces : Call → List Bytes
  | .encrypt_header arguments | .decrypt_header arguments => [arguments.input.data]
  | .encrypt_payload arguments => chunk_inputs .encrypt arguments.input.data.length arguments.input.data
  | .decrypt_payload plaintext_length arguments => chunk_inputs .decrypt plaintext_length arguments.input.data

/-- The arguments pass the checks of the call. -/
def Accepted : Call → Prop
  | .encrypt_header arguments => arguments.Fit HEADER_SIZE ENCRYPTED_HEADER_SIZE
  | .decrypt_header arguments => arguments.Fit ENCRYPTED_HEADER_SIZE HEADER_SIZE
  | .encrypt_payload arguments => ∃ required_length,
      payload_ciphertext_size arguments.input.data.length = .ok required_length ∧
        arguments.Fit arguments.input.data.length required_length
  | .decrypt_payload plaintext_length arguments => ∃ required_length,
      payload_ciphertext_size plaintext_length = .ok required_length ∧
        arguments.Fit required_length plaintext_length

/-- How many nonces the call asks for. -/
def nonce_count : Call → Nat
  | .encrypt_header _ | .decrypt_header _ => 1
  | .encrypt_payload arguments => payload_chunk_count arguments.input.data.length
  | .decrypt_payload plaintext_length _ => payload_chunk_count plaintext_length

end Call

/-- What is left of a call once its arguments are accepted. -/
inductive Transported (dir : Direction) (s : Session) (nonce_count length_out : Nat)
    (process : CipherState → CipherState × Except Status Bytes) : Outcome → Prop
  | terminal (hterminal : s.terminal = true) :
    Transported dir s nonce_count length_out process ⟨.session_terminal, s, 0, []⟩
  | exhausted (hopen : s.terminal = false)
      (hover : kUint64Max.toNat < (dir.cipher s).nonce.toNat + nonce_count) :
    Transported dir s nonce_count length_out process
      ⟨.nonce_exhausted, { s with terminal := true }, 0, []⟩
  | processed (hopen : s.terminal = false)
      (hroom : (dir.cipher s).nonce.toNat + nonce_count ≤ kUint64Max.toNat)
      (cipher : CipherState) (output : Bytes) (hdone : process (dir.cipher s) = (cipher, .ok output)) :
    Transported dir s nonce_count length_out process
      ⟨.ok, dir.set_cipher s cipher, length_out, output⟩
  | failed (hopen : s.terminal = false)
      (hroom : (dir.cipher s).nonce.toNat + nonce_count ≤ kUint64Max.toNat)
      (cipher : CipherState) (status : Status) (hdone : process (dir.cipher s) = (cipher, .error status)) :
    Transported dir s nonce_count length_out process
      ⟨status, { dir.set_cipher s cipher with terminal := true }, 0, []⟩

theorem capacity_iff (nonce : UInt64) (nonce_count : Nat) :
    ((UInt64.ofNat nonce_count).toNat ≠ nonce_count ∨ UInt64.ofNat nonce_count > kUint64Max - nonce) ↔
      kUint64Max.toNat < nonce.toNat + nonce_count := by
  have hmax : kUint64Max.toNat = 2 ^ 64 - 1 := rfl
  have hlt := nonce.toNat_lt
  have hsub : (kUint64Max - nonce).toNat = kUint64Max.toNat - nonce.toNat :=
    UInt64.toNat_sub_of_le _ _ (UInt64.le_iff_toNat_le.mpr (by omega))
  rw [gt_iff_lt, UInt64.lt_iff_toNat_lt, hsub, UInt64.toNat_ofNat']
  omega

variable {s : Session} {call : Call}

theorem check_nonce_capacity_ok {cipher : CipherState} {nonce_count : Nat}
    (hopen : s.terminal = false) (hroom : cipher.nonce.toNat + nonce_count ≤ kUint64Max.toNat) :
    check_nonce_capacity s cipher nonce_count = (s, .ok) := by
  have hnot : ¬ s.terminal = true := by simp [hopen]
  have hover := mt (capacity_iff cipher.nonce nonce_count).mp (Nat.not_lt.mpr hroom)
  simp only [check_nonce_capacity, if_neg hnot, if_neg hover]

theorem check_nonce_capacity_over {cipher : CipherState} {nonce_count : Nat}
    (hopen : s.terminal = false) (hover : kUint64Max.toNat < cipher.nonce.toNat + nonce_count) :
    check_nonce_capacity s cipher nonce_count = ({ s with terminal := true }, .nonce_exhausted) := by
  have hnot : ¬ s.terminal = true := by simp [hopen]
  simp only [check_nonce_capacity, if_neg hnot, if_pos ((capacity_iff _ _).mpr hover)]

theorem transport_transported (dir : Direction) (s : Session) (nonce_count length_out : Nat)
    (process : CipherState → CipherState × Except Status Bytes) :
    Transported dir s nonce_count length_out process
      (transport dir s nonce_count length_out process) := by
  cases hterminal : s.terminal with
  | true =>
    have hcheck : check_nonce_capacity s (dir.cipher s) nonce_count = (s, .session_terminal) := by
      rw [check_nonce_capacity, if_pos hterminal]
    simp only [transport, hcheck]
    exact .terminal hterminal
  | false =>
    by_cases hover : kUint64Max.toNat < (dir.cipher s).nonce.toNat + nonce_count
    · simp only [transport, check_nonce_capacity_over hterminal hover]
      exact .exhausted hterminal hover
    · have hcheck := check_nonce_capacity_ok hterminal (Nat.le_of_not_lt hover)
      cases hdone : process (dir.cipher s) with
      | mk cipher result =>
      simp only [transport, hcheck, hdone]
      cases result with
      | error status => exact .failed hterminal (Nat.le_of_not_lt hover) cipher status hdone
      | ok output => exact .processed hterminal (Nat.le_of_not_lt hover) cipher output hdone

/-- What a call can do. -/
inductive Performed (call : Call) (s : Session) : Outcome → Prop
  | refused (status : Status) (hstatus : status = .invalid_argument ∨ status = .buffer_too_small) (length_out : Nat) :
    Performed call s ⟨status, s, length_out, []⟩
  | transported (length_out : Nat) (process : CipherState → CipherState × Except Status Bytes)
      (hprocess : Disciplined process) (outcome : Outcome)
      (h : Transported call.direction s call.nonce_count length_out process outcome) :
    Performed call s outcome

theorem header_call_performed (call : Call) (aead : Aead) (s : Session) (arguments : Arguments)
    (hcount : call.nonce_count = 1) : Performed call s (header_call call.direction aead s arguments) := by
  simp only [header_call]
  split
  · exact .refused _ (.inl rfl) _
  split
  · exact .refused _ (.inl rfl) _
  split
  · exact .refused _ (.inr rfl) _
  split
  · exact .refused _ (.inl rfl) _
  apply Performed.transported _ _ (cipher_call_disciplined call.direction aead arguments.input.data)
  rw [hcount]
  exact transport_transported _ _ _ _ _

theorem payload_call_performed (call : Call) (aead : Aead) (s : Session) (plaintext_length : Nat)
    (arguments : Arguments) (hcount : call.nonce_count = payload_chunk_count plaintext_length) :
    Performed call s (payload_call call.direction aead s plaintext_length arguments) := by
  simp only [payload_call, payload_ciphertext_size]
  split
  · exact .refused _ (.inl rfl) _
  by_cases hlong : plaintext_length > MAX_FRAME_PAYLOAD_SIZE
  · rw [if_pos hlong]
    exact .refused _ (.inl rfl) _
  rw [if_neg hlong]
  simp only
  split
  · exact .refused _ (.inl rfl) _
  split
  · exact .refused _ (.inr rfl) _
  split
  · exact .refused _ (.inl rfl) _
  apply Performed.transported _ _
    (process_chunks_disciplined call.direction aead plaintext_length arguments.input.data)
  rw [hcount]
  exact transport_transported _ _ _ _ _

theorem Call.performed (call : Call) (aead : Aead) (s : Session) :
    Performed call s (call.perform aead s) := by
  cases call with
  | encrypt_header arguments => exact header_call_performed (.encrypt_header arguments) aead s arguments rfl
  | decrypt_header arguments => exact header_call_performed (.decrypt_header arguments) aead s arguments rfl
  | encrypt_payload arguments =>
    exact payload_call_performed (.encrypt_payload arguments) aead s _ arguments rfl
  | decrypt_payload plaintext_length arguments =>
    exact payload_call_performed (.decrypt_payload plaintext_length arguments) aead s _ arguments rfl

theorem header_call_accepted (dir : Direction) (aead : Aead) (s : Session) {arguments : Arguments}
    (h : arguments.Fit (dir.input_length HEADER_SIZE ENCRYPTED_HEADER_SIZE)
      (dir.output_length HEADER_SIZE ENCRYPTED_HEADER_SIZE)) :
    header_call dir aead s arguments =
      transport dir s 1 (dir.output_length HEADER_SIZE ENCRYPTED_HEADER_SIZE)
        (cipher_call dir aead · arguments.input.data) := by
  obtain ⟨hsession, hlength_out, hlength, hinput, houtput, hcapacity, hapart⟩ := h
  have hread : dir.input_length HEADER_SIZE ENCRYPTED_HEADER_SIZE ≠ 0 := by cases dir <;> decide
  have hwritten : dir.output_length HEADER_SIZE ENCRYPTED_HEADER_SIZE ≠ 0 := by cases dir <;> decide
  simp only [pointer_for_length_is_valid, Bool.or_eq_true, beq_iff_eq, hread, hwritten, or_false] at hinput houtput
  simp [header_call, hsession, hlength_out, hlength, Option.ne_none_iff_isSome.mpr hinput,
    Option.ne_none_iff_isSome.mpr houtput, Nat.not_lt.mpr hcapacity, hapart]

theorem payload_call_accepted (dir : Direction) (aead : Aead) (s : Session) {arguments : Arguments}
    {plaintext_length required_length : Nat} (hrequired : payload_ciphertext_size plaintext_length = .ok required_length)
    (h : arguments.Fit (dir.input_length plaintext_length required_length)
      (dir.output_length plaintext_length required_length)) :
    payload_call dir aead s plaintext_length arguments =
      transport dir s (payload_chunk_count plaintext_length)
        (dir.output_length plaintext_length required_length)
        (process_chunks dir aead · plaintext_length arguments.input.data) := by
  simp [payload_call, hrequired, h.session, h.length_out, h.length, h.input, h.output, Nat.not_lt.mpr h.capacity, h.apart]

/-- Arguments that pass leave the call to `transport`, where a piece that breaks fails it. -/
theorem Call.perform_accepted (h : call.Accepted) (aead : Aead) (s : Session) :
    ∃ length_out process, call.perform aead s =
        transport call.direction s call.nonce_count length_out process ∧
      ∀ cipher : CipherState, cipher.nonce.toNat + call.nonce_count ≤ kUint64Max.toNat →
        Breaks call.direction aead cipher call.pieces →
        ∃ cipher', process cipher = (cipher', .error call.direction.failure) := by
  have hheader (dir : Direction) (arguments : Arguments) (cipher : CipherState)
      (hroom : cipher.nonce.toNat + 1 ≤ kUint64Max.toNat) (hbreaks : Breaks dir aead cipher [arguments.input.data]) :=
    cipher_call_breaks (ne_last Nat.one_pos hroom)
      (hbreaks.head_or_tail.resolve_right fun h => by simpa [Breaks] using h [])
  cases call with
  | encrypt_header arguments =>
    exact ⟨_, _, header_call_accepted .encrypt aead s h, hheader .encrypt arguments⟩
  | decrypt_header arguments =>
    exact ⟨_, _, header_call_accepted .decrypt aead s h, hheader .decrypt arguments⟩
  | encrypt_payload arguments =>
    obtain ⟨required_length, hrequired, hfit⟩ := h
    exact ⟨_, _, payload_call_accepted .encrypt aead s hrequired hfit, fun _ => process_chunks_breaks⟩
  | decrypt_payload plaintext_length arguments =>
    obtain ⟨required_length, hrequired, hfit⟩ := h
    exact ⟨_, _, payload_call_accepted .decrypt aead s hrequired hfit, fun _ => process_chunks_breaks⟩

theorem Call.exhausted (h : call.Accepted) (aead : Aead)
    (hopen : s.terminal = false)
    (hover : kUint64Max.toNat < (call.direction.cipher s).nonce.toNat + call.nonce_count) :
    (call.perform aead s).status = .nonce_exhausted ∧ (call.perform aead s).session.terminal = true := by
  obtain ⟨length_out, process, hcall, -⟩ := call.perform_accepted h aead s
  rw [hcall]
  simp only [transport, check_nonce_capacity_over hopen hover, and_self]

theorem Call.broken (h : call.Accepted) {aead : Aead}
    (hopen : s.terminal = false)
    (hroom : (call.direction.cipher s).nonce.toNat + call.nonce_count ≤ kUint64Max.toNat)
    (hbreaks : Breaks call.direction aead (call.direction.cipher s) call.pieces) :
    (call.perform aead s).status = call.direction.failure ∧
      (call.perform aead s).session.terminal = true := by
  obtain ⟨length_out, process, hcall, hfails⟩ := call.perform_accepted h aead s
  obtain ⟨cipher', hprocess⟩ := hfails _ hroom hbreaks
  rw [hcall]
  simp only [transport, check_nonce_capacity_ok hopen hroom, hprocess, and_self]

namespace Performed

variable {call : Call} {s : Session} {outcome : Outcome}

theorem exhausting (h : Performed call s outcome)
    (hover : kUint64Max.toNat < (call.direction.cipher s).nonce.toNat + call.nonce_count) :
    outcome.status ≠ .ok ∧ outcome.session.send = s.send ∧ outcome.session.receive = s.receive := by
  cases h with
  | refused status hstatus =>
    refine ⟨fun hok => ?_, rfl, rfl⟩
    cases hok
    cases hstatus <;> contradiction
  | transported _ process hprocess _ h =>
    cases h with
    | terminal => exact ⟨nofun, rfl, rfl⟩
    | exhausted => exact ⟨nofun, rfl, rfl⟩
    | processed _ hroom => omega
    | failed _ hroom => omega

theorem unchanged (h : Performed call s outcome)
    (hstatus : outcome.status = .invalid_argument ∨ outcome.status = .buffer_too_small) :
    outcome.session = s := by
  cases h with
  | refused => rfl
  | transported _ process hprocess _ h =>
    cases h with
    | terminal => rfl
    | exhausted => cases hstatus <;> contradiction
    | processed => cases hstatus <;> contradiction
    | failed _ _ cipher status hdone =>
      have hfatal := (hprocess.done hdone).1
      cases hstatus with
      | inl h => subst h; simp [Status.Fatal] at hfatal
      | inr h => subst h; simp [Status.Fatal] at hfatal

theorem ended (h : Performed call s outcome) (hstatus : outcome.status.Fatal) :
    outcome.session.terminal = true := by
  cases h with
  | refused status hrefused =>
    cases hrefused with
    | inl h => subst h; simp [Status.Fatal] at hstatus
    | inr h => subst h; simp [Status.Fatal] at hstatus
  | transported _ process hprocess _ h =>
    cases h with
    | terminal hterminal => exact hterminal
    | exhausted => rfl
    | processed => simp [Status.Fatal] at hstatus
    | failed => rfl

theorem after_end (h : Performed call s outcome) (hterminal : s.terminal = true) :
    outcome.status ≠ .ok ∧ outcome.session = s := by
  cases h with
  | refused status hstatus =>
    refine ⟨fun hok => ?_, rfl⟩
    cases hok
    cases hstatus <;> contradiction
  | transported _ process hprocess _ h =>
    cases h with
    | terminal => exact ⟨nofun, rfl⟩
    | exhausted hopen => simp [hterminal] at hopen
    | processed hopen => simp [hterminal] at hopen
    | failed hopen => simp [hterminal] at hopen

end Performed

namespace Session

/-- Both directions in order, and able to go on while the session is. -/
structure Sound (s : Session) : Prop where
  ordered : ∀ dir : Direction, (dir.cipher s).Ordered
  fresh : s.terminal = false → ∀ dir : Direction, (dir.cipher s).Fresh

theorem new_sound (receive_key send_key : Bytes) : (new receive_key send_key).Sound := by
  refine ⟨fun dir => ?_, fun _ dir => ?_⟩
  · cases dir <;> exact ⟨.nil, fun _ h => nomatch h⟩
  · cases dir <;> exact fun _ h => nomatch h

theorem forall_set_cipher {p : CipherState → Prop} {s : Session} {cipher : CipherState}
    (h : ∀ dir : Direction, p (dir.cipher s)) (hcipher : p cipher) (dir other : Direction) :
    p (other.cipher (dir.set_cipher s cipher)) := by
  cases dir <;> cases other
  · exact hcipher
  · exact h .decrypt
  · exact h .encrypt
  · exact hcipher

theorem Sound.perform {s : Session} (h : s.Sound) {call : Call} {outcome : Outcome}
    (hperformed : Performed call s outcome) : outcome.session.Sound := by
  cases hperformed with
  | refused => exact h
  | transported _ process hprocess _ htransported =>
    cases htransported with
    | terminal => exact h
    | exhausted => exact ⟨h.ordered, fun hopen => nomatch hopen⟩
    | processed hopen _ cipher output hdone =>
      have hkept := hprocess.done hdone ⟨h.ordered call.direction, h.fresh hopen call.direction⟩
      exact ⟨forall_set_cipher h.ordered hkept.1 _, fun _ => forall_set_cipher (h.fresh hopen) hkept.2 _⟩
    | failed hopen _ cipher status hdone =>
      have hordered := (hprocess.done hdone).2 ⟨h.ordered call.direction, h.fresh hopen call.direction⟩
      exact ⟨forall_set_cipher h.ordered hordered _, fun hopen => nomatch hopen⟩

def step (s : Session) (event : Aead × Call) : Session := (event.2.perform event.1 s).session

/-- The session after some calls, each with a primitive that may fail as it will. -/
def reached (receive_key send_key : Bytes) (events : List (Aead × Call)) : Session :=
  Transition.run step (new receive_key send_key) events

theorem reached_sound (receive_key send_key : Bytes) (events : List (Aead × Call)) :
    (reached receive_key send_key events).Sound :=
  Transition.run_invariant_always (fun s event h => h.perform (event.2.performed event.1 s)) events
    (new_sound receive_key send_key)

/-- The nonces a session has used, and what every further call does to it. -/
structure Careful (s : Session) : Prop where
  send_increasing : s.send.used.Pairwise (fun newer older => older < newer)
  never_last : ∀ nonce ∈ s.send.used ++ s.receive.used, nonce ≠ kUint64Max
  exhausting : ∀ aead (call : Call),
    kUint64Max.toNat < (call.direction.cipher s).nonce.toNat + call.nonce_count →
      (call.perform aead s).status ≠ .ok ∧
        (call.perform aead s).session.send = s.send ∧
        (call.perform aead s).session.receive = s.receive
  exhausted : s.terminal = false → ∀ aead (call : Call), call.Accepted →
    kUint64Max.toNat < (call.direction.cipher s).nonce.toNat + call.nonce_count →
      (call.perform aead s).status = .nonce_exhausted ∧ (call.perform aead s).session.terminal = true
  broken : s.terminal = false → ∀ aead (call : Call), call.Accepted →
    (call.direction.cipher s).nonce.toNat + call.nonce_count ≤ kUint64Max.toNat →
    Breaks call.direction aead (call.direction.cipher s) call.pieces →
      (call.perform aead s).status = call.direction.failure ∧
        (call.perform aead s).session.terminal = true
  refused : ∀ aead (call : Call), (call.perform aead s).status = .invalid_argument ∨
    (call.perform aead s).status = .buffer_too_small → (call.perform aead s).session = s
  failed : ∀ aead (call : Call), (call.perform aead s).status.Fatal →
    (call.perform aead s).session.terminal = true
  terminal : s.terminal = true → ∀ aead (call : Call),
    (call.perform aead s).status ≠ .ok ∧ (call.perform aead s).session = s

/-- However a session is called and whenever the primitive fails, no nonce is used
twice with the send key, the last nonce is never used, and what ends the session
ends it for good. -/
theorem reached_careful (receive_key send_key : Bytes) (events : List (Aead × Call)) :
    (reached receive_key send_key events).Careful := by
  have hsound := reached_sound receive_key send_key events
  generalize reached receive_key send_key events = s at hsound
  refine ⟨(hsound.ordered .encrypt).increasing, fun nonce hmem => ?_, fun aead call hover => ?_,
    fun hopen aead call haccepted => call.exhausted haccepted aead hopen,
    fun hopen aead call haccepted => call.broken haccepted hopen, fun aead call hstatus => ?_, fun aead call hstatus => ?_, fun hterminal aead call => ?_⟩
  · cases List.mem_append.mp hmem with
    | inl hsend => exact (hsound.ordered .encrypt).never_last nonce hsend
    | inr hreceive => exact (hsound.ordered .decrypt).never_last nonce hreceive
  · exact (call.performed aead s).exhausting hover
  · exact (call.performed aead s).unchanged hstatus
  · exact (call.performed aead s).ended hstatus
  · exact (call.performed aead s).after_end hterminal

end Session

end erikslund.sv2_noise
