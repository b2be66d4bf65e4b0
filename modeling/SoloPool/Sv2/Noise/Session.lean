import SoloPool.Util.Bytes

namespace erikslund.sv2_noise

def ACT1_SIZE : Nat := 64

def HEADER_SIZE : Nat := 6

def ENCRYPTED_HEADER_SIZE : Nat := 22

def TAG_SIZE : Nat := 16

def MAX_PAYLOAD_CHUNK_SIZE : Nat := 65519

def MAX_FRAME_PAYLOAD_SIZE : Nat := 16777215

def kUint64Max : UInt64 := 18446744073709551615

inductive Status where
  | ok
  | invalid_argument
  | buffer_too_small
  | out_of_memory
  | invalid_static_secret
  | invalid_authority_key
  | unsupported_certificate_version
  | invalid_certificate
  | certificate_not_yet_valid
  | certificate_expired
  | random_failure
  | crypto_failure
  | authentication_failure
  | nonce_exhausted
  | session_terminal
deriving DecidableEq

/-- `aead_encrypt` and `aead_decrypt` without associated data, which the transport never
passes: key, nonce and input give the output, or a failure. -/
structure Aead where
  encrypt : Bytes → UInt64 → Bytes → Option Bytes
  decrypt : Bytes → UInt64 → Bytes → Option Bytes
  encrypt_length : ∀ {key nonce plaintext ciphertext},
    encrypt key nonce plaintext = some ciphertext → ciphertext.length = plaintext.length + TAG_SIZE
  decrypt_length : ∀ {key nonce ciphertext plaintext},
    decrypt key nonce ciphertext = some plaintext → ciphertext.length = plaintext.length + TAG_SIZE

/-- `used` is not in the code: the nonces the primitive was called with, newest first. -/
structure CipherState where
  key : Bytes
  nonce : UInt64
  used : List UInt64
deriving DecidableEq

structure Session where
  receive : CipherState
  send : CipherState
  terminal : Bool
deriving DecidableEq

def Session.new (receive_key send_key : Bytes) : Session := ⟨⟨receive_key, 0, []⟩, ⟨send_key, 0, []⟩, false⟩

/-- What a transport call does: encrypt with the send key or decrypt with the receive key. -/
inductive Direction where
  | encrypt
  | decrypt
deriving DecidableEq

namespace Direction

variable (direction : Direction) (session : Session)

def cipher : CipherState :=
  match direction with
  | .encrypt => session.send
  | .decrypt => session.receive

def set_cipher (cipher : CipherState) : Session :=
  match direction with
  | .encrypt => { session with send := cipher }
  | .decrypt => { session with receive := cipher }

def primitive (aead : Aead) : Bytes → UInt64 → Bytes → Option Bytes :=
  match direction with
  | .encrypt => aead.encrypt
  | .decrypt => aead.decrypt

def failure : Direction → Status
  | .encrypt => .crypto_failure
  | .decrypt => .authentication_failure

/-- The length of what a call reads, and of what it writes, for that of the plaintext and
of the ciphertext. -/
def input_length (plaintext_length ciphertext_length : Nat) : Nat :=
  match direction with
  | .encrypt => plaintext_length
  | .decrypt => ciphertext_length

def output_length (plaintext_length ciphertext_length : Nat) : Nat :=
  match direction with
  | .encrypt => ciphertext_length
  | .decrypt => plaintext_length

end Direction

variable (direction : Direction) (aead : Aead) (session : Session)

/-- `cipher_encrypt` and `cipher_decrypt`. -/
def cipher_call (cipher : CipherState) (input : Bytes) :
    CipherState × Except Status Bytes :=
  if cipher.nonce = kUint64Max then (cipher, .error .nonce_exhausted)
  else
    match direction.primitive aead cipher.key cipher.nonce input with
    | none => ({ cipher with used := cipher.nonce :: cipher.used }, .error direction.failure)
    | some output =>
      ({ cipher with nonce := cipher.nonce + 1, used := cipher.nonce :: cipher.used }, .ok output)

def check_nonce_capacity (cipher : CipherState) (nonce_count : Nat) : Session × Status :=
  if session.terminal then (session, .session_terminal)
  else
    let requested_nonces := UInt64.ofNat nonce_count
    if requested_nonces.toNat ≠ nonce_count ∨ requested_nonces > kUint64Max - cipher.nonce then
      ({ session with terminal := true }, .nonce_exhausted)
    else (session, .ok)

def payload_chunk_count (plaintext_length : Nat) : Nat :=
  if plaintext_length = 0 then 0 else 1 + (plaintext_length - 1) / MAX_PAYLOAD_CHUNK_SIZE

def payload_ciphertext_size (plaintext_length : Nat) : Except Status Nat :=
  if plaintext_length > MAX_FRAME_PAYLOAD_SIZE then .error .invalid_argument
  else .ok (plaintext_length + payload_chunk_count plaintext_length * TAG_SIZE)

/-- The loop over the chunks of a payload: `remaining` is the plaintext still to go
and `input` what has not been read. -/
def process_chunks (direction : Direction) (aead : Aead) (cipher : CipherState) (remaining : Nat) (input : Bytes) :
    CipherState × Except Status Bytes :=
  if _ : remaining = 0 then (cipher, .ok [])
  else
    let chunk_length := min remaining MAX_PAYLOAD_CHUNK_SIZE
    let read := direction.input_length chunk_length (chunk_length + TAG_SIZE)
    match cipher_call direction aead cipher (input.take read) with
    | (cipher, .error status) => (cipher, .error status)
    | (cipher, .ok output) =>
      match process_chunks direction aead cipher (remaining - chunk_length) (input.drop read) with
      | (cipher, .error status) => (cipher, .error status)
      | (cipher, .ok rest) => (cipher, .ok (output ++ rest))
termination_by remaining
decreasing_by
  simp only [MAX_PAYLOAD_CHUNK_SIZE]
  omega

theorem process_chunks_zero (cipher : CipherState) (input : Bytes) :
    process_chunks direction aead cipher 0 input = (cipher, .ok []) := by
  rw [process_chunks, dif_pos rfl]

/-- One piece of work after another, the outputs one after the other. -/
def and_then (first second : CipherState → CipherState × Except Status Bytes) (cipher : CipherState) :
    CipherState × Except Status Bytes :=
  match first cipher with
  | (cipher, .error status) => (cipher, .error status)
  | (cipher, .ok output) =>
    match second cipher with
    | (cipher, .error status) => (cipher, .error status)
    | (cipher, .ok rest) => (cipher, .ok (output ++ rest))

/-- The loop takes a chunk and goes on with the rest. -/
theorem process_chunks_step (cipher : CipherState) {remaining : Nat}
    (hmore : remaining ≠ 0) (input : Bytes) {chunk_length read : Nat}
    (hchunk : chunk_length = min remaining MAX_PAYLOAD_CHUNK_SIZE)
    (hread : read = direction.input_length chunk_length (chunk_length + TAG_SIZE)) :
    process_chunks direction aead cipher remaining input =
      and_then (cipher_call direction aead · (input.take read))
        (process_chunks direction aead · (remaining - chunk_length) (input.drop read)) cipher := by
  subst hchunk hread
  rw [process_chunks, dif_neg hmore]
  rfl

/-- A buffer that is read: the pointer, if not null, and the bytes behind it. The length
passed with it is theirs. -/
structure Input where
  pointer : Option Nat
  data : Bytes

/-- A buffer that is written. -/
structure Output where
  pointer : Option Nat
  capacity : Nat

/-- The arguments of a transport call. `session` and `length_out` say whether those
pointers are given. -/
structure Arguments where
  session : Bool
  input : Input
  output : Output
  length_out : Bool

def pointer_for_length_is_valid (pointer : Option Nat) (length : Nat) : Bool := pointer.isSome || length == 0

def ranges_overlap (first : Option Nat) (first_length : Nat) (second : Option Nat) (second_length : Nat) : Bool :=
  if first_length = 0 ∨ second_length = 0 then false
  else
    match first, second with
    | some first_start, some second_start =>
      if first_start > kUint64Max.toNat - first_length ∨ second_start > kUint64Max.toNat - second_length then true
      else decide (first_start < second_start + second_length) && decide (second_start < first_start + first_length)
    | _, _ => false

/-- The result of a transport call: `length_out` is what is stored through the pointer,
0 where nothing is. -/
structure Outcome where
  status : Status
  session : Session
  length_out : Nat
  output : Bytes

/-- What all transport calls end with: claim the nonces, process the input, and give the
session up if that fails. -/
def transport (nonce_count length_out : Nat)
    (process : CipherState → CipherState × Except Status Bytes) : Outcome :=
  match check_nonce_capacity session (direction.cipher session) nonce_count with
  | (session, .ok) =>
    match process (direction.cipher session) with
    | (cipher, .ok output) => ⟨.ok, direction.set_cipher session cipher, length_out, output⟩
    | (cipher, .error status) => ⟨status, { direction.set_cipher session cipher with terminal := true }, 0, []⟩
  | (session, status) => ⟨status, session, 0, []⟩

/-- `encrypt_header` and `decrypt_header`. -/
def header_call (arguments : Arguments) : Outcome :=
  let ⟨session_given, input, output, length_out⟩ := arguments
  let input_length := direction.input_length HEADER_SIZE ENCRYPTED_HEADER_SIZE
  let output_length := direction.output_length HEADER_SIZE ENCRYPTED_HEADER_SIZE
  if !length_out then ⟨.invalid_argument, session, 0, []⟩
  else if !session_given || input.pointer.isNone || input.data.length != input_length || output.pointer.isNone then
    ⟨.invalid_argument, session, output_length, []⟩
  else if output.capacity < output_length then ⟨.buffer_too_small, session, output_length, []⟩
  else if ranges_overlap input.pointer input.data.length output.pointer output_length then
    ⟨.invalid_argument, session, output_length, []⟩
  else transport direction session 1 output_length (cipher_call direction aead · input.data)

def encrypt_header := header_call .encrypt

def decrypt_header := header_call .decrypt

/-- `encrypt_payload` and `decrypt_payload`. -/
def payload_call (plaintext_length : Nat)
    (arguments : Arguments) : Outcome :=
  let ⟨session_given, input, output, length_out⟩ := arguments
  if !length_out then ⟨.invalid_argument, session, 0, []⟩
  else
    match payload_ciphertext_size plaintext_length with
    | .error status => ⟨status, session, 0, []⟩
    | .ok required_length =>
      let input_length := direction.input_length plaintext_length required_length
      let output_length := direction.output_length plaintext_length required_length
      if !session_given || input.data.length != input_length ||
          !pointer_for_length_is_valid input.pointer input_length ||
          !pointer_for_length_is_valid output.pointer output_length then
        ⟨.invalid_argument, session, output_length, []⟩
      else if output.capacity < output_length then ⟨.buffer_too_small, session, output_length, []⟩
      else if ranges_overlap input.pointer input_length output.pointer output_length then
        ⟨.invalid_argument, session, output_length, []⟩
      else
        transport direction session (payload_chunk_count plaintext_length) output_length
          (process_chunks direction aead · plaintext_length input.data)

/-- The plaintext is the input, so its length is the one passed. -/
def encrypt_payload (arguments : Arguments) : Outcome :=
  payload_call .encrypt aead session arguments.input.data.length arguments

def decrypt_payload := payload_call .decrypt

end erikslund.sv2_noise
