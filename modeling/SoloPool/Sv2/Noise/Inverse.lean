import SoloPool.Sv2.Noise.Nonces

namespace erikslund.sv2_noise

open List

/-- With the same key and nonce, decryption gives back what was encrypted and fails on
everything else. -/
def Aead.Inverts (aead : Aead) : Prop :=
  ∀ key nonce plaintext ciphertext,
    aead.decrypt key nonce ciphertext = some plaintext ↔ aead.encrypt key nonce plaintext = some ciphertext

namespace Direction

def flip : Direction → Direction
  | .encrypt => .decrypt
  | .decrypt => .encrypt

theorem flip_input_length (dir : Direction) (plaintext_length ciphertext_length : Nat) :
    dir.flip.input_length plaintext_length ciphertext_length =
      dir.output_length plaintext_length ciphertext_length := by
  cases dir <;> rfl

theorem primitive_flip {aead : Aead} (hinverts : aead.Inverts) (dir : Direction) {key : Bytes} {nonce : UInt64}
    {input output : Bytes} (h : dir.primitive aead key nonce input = some output) :
    dir.flip.primitive aead key nonce output = some input := by
  cases dir with
  | encrypt => exact (hinverts _ _ _ _).mpr h
  | decrypt => exact (hinverts _ _ _ _).mp h

theorem primitive_length {aead : Aead} (dir : Direction) {key : Bytes} {nonce : UInt64} {input output : Bytes}
    (h : dir.primitive aead key nonce input = some output) {plaintext_length : Nat}
    (hinput : input.length = dir.input_length plaintext_length (plaintext_length + TAG_SIZE)) :
    output.length = dir.output_length plaintext_length (plaintext_length + TAG_SIZE) := by
  cases dir with
  | encrypt =>
    have hlength := aead.encrypt_length h
    simp only [input_length, output_length] at hinput ⊢
    omega
  | decrypt =>
    have hlength := aead.decrypt_length h
    simp only [input_length, output_length] at hinput ⊢
    omega

end Direction

/-- The two ends of one direction. -/
structure Mirror (cipher other : CipherState) : Prop where
  key : cipher.key = other.key
  nonce : cipher.nonce = other.nonce

theorem cipher_call_ok {dir : Direction} {aead : Aead} {cipher cipher' : CipherState} {input output : Bytes} :
    cipher_call dir aead cipher input = (cipher', .ok output) ↔
      cipher.nonce ≠ kUint64Max ∧ dir.primitive aead cipher.key cipher.nonce input = some output ∧
        cipher' = { cipher with nonce := cipher.nonce + 1, used := cipher.nonce :: cipher.used } := by
  unfold cipher_call
  split
  · simp [*]
  · rename_i hlast
    cases dir.primitive aead cipher.key cipher.nonce input with
    | none => simp
    | some result =>
      simp only [Prod.mk.injEq, Except.ok.injEq, Option.some.injEq]
      constructor
      · rintro ⟨rfl, rfl⟩
        exact ⟨hlast, rfl, rfl⟩
      · rintro ⟨-, rfl, rfl⟩
        exact ⟨rfl, rfl⟩

theorem and_then_ok {first second : CipherState → CipherState × Except Status Bytes} {cipher cipher' : CipherState}
    {output : Bytes} : and_then first second cipher = (cipher', .ok output) ↔
      ∃ mid front back, first cipher = (mid, .ok front) ∧ second mid = (cipher', .ok back) ∧ output = front ++ back := by
  unfold and_then
  constructor
  · intro h
    split at h
    · cases h
    · rename_i mid front hfirst
      split at h
      · cases h
      · rename_i after back hsecond
        cases h
        exact ⟨mid, front, back, hfirst, hsecond, rfl⟩
  · rintro ⟨mid, front, back, hfirst, hsecond, rfl⟩
    simp only [hfirst, hsecond]

/-- Work that turned `input` into `output`, and that the other end can undo: `output` has
the length it should, and as many nonces were taken as were to be. -/
structure Undone (undo : Bytes → CipherState → CipherState × Except Status Bytes) (input : Bytes)
    (cipher cipher' : CipherState) (output : Bytes) (output_length nonce_count : Nat) : Prop where
  length : output.length = output_length
  nonces : cipher'.nonce.toNat = cipher.nonce.toNat + nonce_count
  undo : ∀ other, Mirror cipher other → ∃ other', undo output other = (other', .ok input) ∧ Mirror cipher' other'

theorem Undone.and_then {undo_first undo_second : Bytes → CipherState → CipherState × Except Status Bytes}
    {input more : Bytes} {cipher mid cipher' : CipherState} {front back : Bytes} {front_length back_length : Nat}
    {front_nonces back_nonces : Nat} (hfirst : Undone undo_first input cipher mid front front_length front_nonces)
    (hsecond : Undone undo_second more mid cipher' back back_length back_nonces) :
    Undone (fun output => sv2_noise.and_then (undo_first (output.take front_length)) (undo_second (output.drop front_length)))
      (input ++ more) cipher cipher' (front ++ back) (front_length + back_length) (front_nonces + back_nonces) := by
  refine ⟨?_, ?_, fun other hmirror => ?_⟩
  · rw [length_append, hfirst.length, hsecond.length]
  · rw [hsecond.nonces, hfirst.nonces, Nat.add_assoc]
  · obtain ⟨middle, hundo, hmiddle⟩ := hfirst.undo other hmirror
    obtain ⟨other', hundo', hmirror'⟩ := hsecond.undo middle hmiddle
    refine ⟨other', and_then_ok.mpr ⟨middle, input, more, ?_, ?_, rfl⟩, hmirror'⟩
    · rw [take_left' hfirst.length, hundo]
    · rw [drop_left' hfirst.length, hundo']

namespace Direction

/-- What a call reads for a payload, and what it writes. -/
def payload_input (dir : Direction) (plaintext_length : Nat) : Nat :=
  dir.input_length plaintext_length (plaintext_length + payload_chunk_count plaintext_length * TAG_SIZE)

theorem payload_input_zero (dir : Direction) : dir.payload_input 0 = 0 := by
  cases dir <;> rfl

/-- The length of a payload is that of its first chunk and of the rest. -/
theorem payload_input_step (dir : Direction) {remaining chunk_length : Nat} (hmore : remaining ≠ 0)
    (hchunk : chunk_length = min remaining MAX_PAYLOAD_CHUNK_SIZE) :
    dir.payload_input remaining =
      dir.input_length chunk_length (chunk_length + TAG_SIZE) +
        dir.payload_input (remaining - chunk_length) := by
  have hcount := payload_chunk_count_step hmore
  rw [← hchunk] at hcount
  have hfits : chunk_length ≤ remaining := by omega
  cases dir with
  | encrypt =>
    simp only [payload_input, input_length]
    omega
  | decrypt =>
    simp only [payload_input, input_length, hcount, Nat.add_mul, Nat.one_mul]
    omega

end Direction

section Inverts

variable {aead : Aead} (hinverts : aead.Inverts) (dir : Direction)

include hinverts

theorem cipher_call_undone (plaintext_length : Nat) {cipher cipher' : CipherState} {input output : Bytes}
    (hinput : input.length = dir.input_length plaintext_length (plaintext_length + TAG_SIZE))
    (h : cipher_call dir aead cipher input = (cipher', .ok output)) :
    Undone (fun output other => cipher_call dir.flip aead other output) input cipher cipher' output
      (dir.output_length plaintext_length (plaintext_length + TAG_SIZE)) 1 := by
  obtain ⟨hlast, hprimitive, rfl⟩ := cipher_call_ok.mp h
  refine ⟨dir.primitive_length hprimitive hinput, CipherState.succ_toNat hlast, fun other hmirror => ?_⟩
  refine ⟨_, cipher_call_ok.mpr ⟨hmirror.nonce ▸ hlast, ?_, rfl⟩, hmirror.key, ?_⟩
  · rw [← hmirror.key, ← hmirror.nonce]
    exact dir.primitive_flip hinverts hprimitive
  · change cipher.nonce + 1 = other.nonce + 1
    rw [hmirror.nonce]

/-- The loop over the chunks is undone by the loop of the other end. -/
theorem process_chunks_undone {cipher cipher' : CipherState} {remaining : Nat} {input output : Bytes}
    (hinput : input.length = dir.payload_input remaining)
    (h : process_chunks dir aead cipher remaining input = (cipher', .ok output)) :
    Undone (fun output other => process_chunks dir.flip aead other remaining output) input cipher cipher' output
      (dir.flip.payload_input remaining) (payload_chunk_count remaining) := by
  induction remaining using Nat.strong_induction_on generalizing cipher input output with
  | h remaining ih =>
    by_cases hmore : remaining = 0
    · subst hmore
      rw [process_chunks_zero] at h
      cases h
      rw [dir.payload_input_zero, length_eq_zero_iff] at hinput
      subst hinput
      refine ⟨dir.flip.payload_input_zero.symm, rfl, fun other hmirror => ⟨other, ?_, hmirror⟩⟩
      exact process_chunks_zero _ _ _ _
    · have hless : remaining - min remaining MAX_PAYLOAD_CHUNK_SIZE < remaining := by
        simp only [MAX_PAYLOAD_CHUNK_SIZE]
        omega
      rw [process_chunks_step dir aead cipher hmore input rfl rfl] at h
      obtain ⟨mid, front, back, hfirst, hrest, rfl⟩ := and_then_ok.mp h
      rw [dir.payload_input_step hmore rfl] at hinput
      have htake := length_take_of_le (hinput ▸ Nat.le_add_right _ _)
      have hchunk := cipher_call_undone hinverts dir _ htake hfirst
      have hothers := ih _ hless (by rw [length_drop, hinput, Nat.add_sub_cancel_left]) hrest
      have hboth := hchunk.and_then hothers
      rw [take_append_drop, ← dir.flip_input_length, ← dir.flip.payload_input_step hmore rfl,
        ← payload_chunk_count_step hmore] at hboth
      refine ⟨hboth.length, hboth.nonces, fun other hmirror => ?_⟩
      obtain ⟨other', hundo, hmirror'⟩ := hboth.undo other hmirror
      refine ⟨other', ?_, hmirror'⟩
      rw [process_chunks_step dir.flip aead other hmore _ rfl rfl]
      exact hundo

end Inverts

end erikslund.sv2_noise
