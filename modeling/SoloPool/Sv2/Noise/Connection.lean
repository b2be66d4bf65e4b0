import SoloPool.Lib.Collector
import SoloPool.Sv2.Codec
import SoloPool.Sv2.Noise.Session

namespace erikslund.sv2

open sv2_noise

def crypto_failure (status : Status) : Status := if status = .ok then .crypto_failure else status

/-- The size `send_bytes` and `decrypt_transport_locked` compute themselves. -/
def payload_ciphertext_size (plaintext_size : Nat) : Nat :=
  if plaintext_size = 0 then 0
  else
    let chunk_count := (plaintext_size + MAX_PAYLOAD_CHUNK_SIZE - 1) / MAX_PAYLOAD_CHUNK_SIZE
    plaintext_size + chunk_count * TAG_SIZE

/-- The arguments of the connection's transport calls: its session, and two of its own
buffers. Where those lie does not matter, only that they are apart. -/
def buffers (input : Bytes) (capacity : Nat) : Arguments :=
  ⟨true, ⟨some 0x100000000, input⟩, ⟨some 0x200000000, capacity⟩, true⟩

def ACT2_SIZE : Nat := 234

structure Handshake where
  status : Status
  session : Option Session
  act2_size : Nat

/-- What `establish_transport` finds: the clock, the handshake with the connection's
credentials, and whether the transport takes Act2. -/
structure Responder where
  current_unix_time : Option UInt32
  responder_handshake : UInt32 → Bytes → Handshake
  act2_sent : Bool

variable (responder : Responder) (aead : Aead) (maximum_payload_size : Nat) (session : Session)

/-- The session, or the status the connection is terminated with. -/
def establish_transport (act1 : Bytes) : Except Status Session :=
  match responder.current_unix_time with
  | none => .error .ok
  | some current_time =>
    let handshake := responder.responder_handshake current_time act1
    match handshake.status, handshake.session with
    | .ok, some session =>
      if handshake.act2_size ≠ ACT2_SIZE then .error (crypto_failure .ok)
      else if !responder.act2_sent then .error .ok
      else .ok session
    | status, _ => .error (crypto_failure status)

/-- What the connection is reading. `Act1Ready` and `SendingAct2` last no longer than
the call that enters them. -/
inductive Phase where
  | awaiting_act1
  | header (session : Session)
  | payload (session : Session) (plaintext_header : Bytes)
      (plaintext_payload_size expected_encrypted_payload_size : Nat) (some_payload : 0 < expected_encrypted_payload_size)

namespace Phase

/-- The size of the buffer the phase fills. -/
def need : Phase → Nat
  | .awaiting_act1 => ACT1_SIZE
  | .header _ => ENCRYPTED_HEADER_SIZE
  | .payload _ _ _ expected_encrypted_payload_size _ => expected_encrypted_payload_size

theorem need_pos (phase : Phase) : 0 < phase.need := by
  cases phase with
  | awaiting_act1 => exact Nat.zero_lt_succ _
  | header => exact Nat.zero_lt_succ _
  | payload session plaintext_header size expected some_payload => exact some_payload

/-- `state_ == StreamState::Transport`, with the session. -/
def session? : Phase → Option Session
  | .awaiting_act1 => none
  | .header session | .payload session _ _ _ _ => some session

def with_session (phase : Phase) (session : Session) : Phase :=
  match phase with
  | .awaiting_act1 => .awaiting_act1
  | .header _ => .header session
  | .payload _ plaintext_header size expected some_payload => .payload session plaintext_header size expected some_payload

theorem need_with_session (phase : Phase) (session : Session) : (phase.with_session session).need = phase.need := by
  cases phase <;> rfl

end Phase

theorem payload_ciphertext_size_pos {plaintext_length ciphertext_length : Nat} (hsome : plaintext_length ≠ 0)
    (h : sv2_noise.payload_ciphertext_size plaintext_length = .ok ciphertext_length) : 0 < ciphertext_length := by
  unfold sv2_noise.payload_ciphertext_size at h
  split at h
  · cases h
  · cases h
    omega

/-- What an authentic header leads to. -/
def begin_payload (plaintext_header : Bytes) :
    Bytes × Except Status Phase :=
  let plaintext_payload_size := (read_header plaintext_header).2
  if plaintext_payload_size > maximum_payload_size then ([], .error .ok)
  else if hsome : plaintext_payload_size = 0 then (plaintext_header, .ok (.header session))
  else
    match hsize : sv2_noise.payload_ciphertext_size plaintext_payload_size with
    | .error status => ([], .error (crypto_failure status))
    | .ok calculated_ciphertext_size =>
      if calculated_ciphertext_size ≠ payload_ciphertext_size plaintext_payload_size then
        ([], .error (crypto_failure .ok))
      else
        ([], .ok (.payload session plaintext_header plaintext_payload_size calculated_ciphertext_size
          (payload_ciphertext_size_pos hsome hsize)))

/-- The encrypted header is complete. -/
def open_header (encrypted_header : Bytes) :
    Bytes × Except Status Phase :=
  let outcome := decrypt_header aead session (buffers encrypted_header HEADER_SIZE)
  if outcome.status ≠ .ok ∨ outcome.length_out ≠ HEADER_SIZE then ([], .error (crypto_failure outcome.status))
  else begin_payload maximum_payload_size outcome.session outcome.output

/-- The encrypted payload is complete. -/
def open_payload (plaintext_header : Bytes) (plaintext_payload_size : Nat)
    (encrypted_payload : Bytes) : Bytes × Except Status Phase :=
  let outcome := decrypt_payload aead session plaintext_payload_size (buffers encrypted_payload plaintext_payload_size)
  if outcome.status ≠ .ok ∨ outcome.length_out ≠ plaintext_payload_size then
    ([], .error (crypto_failure outcome.status))
  else (plaintext_header ++ outcome.output, .ok (.header outcome.session))

/-- What a full buffer leads to: the plaintext appended, and the next phase or the status
the connection is terminated with. -/
def complete (phase : Phase) (collected : Bytes) :
    Bytes × Except Status Phase :=
  match phase with
  | .awaiting_act1 => ([], (establish_transport responder collected).map Phase.header)
  | .header session => open_header aead maximum_payload_size session collected
  | .payload session plaintext_header plaintext_payload_size _ _ =>
    open_payload aead session plaintext_header plaintext_payload_size collected

/-- `incoming` is nothing once `terminal_` is set. -/
structure NoiseConnection where
  maximum_payload_size : Nat
  maximum_fits : maximum_payload_size ≤ kMaximumFramePayloadSize
  incoming : Option (Collector.State UInt8 Phase.need)
  failure_status : Status

namespace NoiseConnection

def new (maximum_payload_size : Nat) : NoiseConnection :=
  ⟨min maximum_payload_size kMaximumFramePayloadSize, Nat.min_le_right _ _,
    some (Collector.start Phase.need_pos .awaiting_act1), .ok⟩

variable (aead : Aead) (connection : NoiseConnection)

def terminal : Bool := connection.incoming.isNone

/-- `terminate_locked`: only the first failure is kept. -/
def terminate (status : Status) : NoiseConnection :=
  { connection with
    incoming := none
    failure_status := if connection.failure_status = .ok then status else connection.failure_status }

/-- `receive`: Act1, then the loop of `decrypt_transport_locked`. All three buffers are
filled the same way, with as much of the input as they still need. -/
def receive (responder : Responder) (aead : Aead) (connection : NoiseConnection) (bytes : Bytes) :
    NoiseConnection × Bytes :=
  match connection.incoming with
  | none => (connection, [])
  | some incoming =>
    match Collector.consume Phase.need_pos (complete responder aead connection.maximum_payload_size) incoming bytes [] with
    | (plaintext_frames, .ok incoming) => ({ connection with incoming := some incoming }, plaintext_frames)
    | (plaintext_frames, .error status) => (connection.terminate status, plaintext_frames)

/-- `std::numeric_limits<std::size_t>::max()`. -/
def kSizeMax : Nat := 2 ^ 64 - 1

/-- The size of the ciphertext of all frames, if it can be represented. -/
def total_ciphertext_size (frames : List WireFrame) : Option Nat :=
  frames.foldlM (fun total_ciphertext_size frame =>
    let encrypted_frame_size := ENCRYPTED_HEADER_SIZE + payload_ciphertext_size frame.payload.length
    if encrypted_frame_size > kSizeMax - total_ciphertext_size then none
    else some (total_ciphertext_size + encrypted_frame_size)) 0

/-- One frame in the loop of `send_bytes`. -/
def encrypt_frame (session : Session) (header payload : Bytes) : Except Status (Session × Bytes) :=
  let sealed_header := encrypt_header aead session (buffers header ENCRYPTED_HEADER_SIZE)
  if sealed_header.status ≠ .ok ∨ sealed_header.length_out ≠ ENCRYPTED_HEADER_SIZE then
    .error (crypto_failure sealed_header.status)
  else if payload.length = 0 then .ok (sealed_header.session, sealed_header.output)
  else
    let expected_payload_ciphertext_size := payload_ciphertext_size payload.length
    let sealed_payload := encrypt_payload aead sealed_header.session (buffers payload expected_payload_ciphertext_size)
    if sealed_payload.status ≠ .ok ∨ sealed_payload.length_out ≠ expected_payload_ciphertext_size then
      .error (crypto_failure sealed_payload.status)
    else .ok (sealed_payload.session, sealed_header.output ++ sealed_payload.output)

/-- The loop over the frames of `send_bytes`: `bytes` is what follows `plaintext_offset`. -/
def encrypt_frames (aead : Aead) (session : Session) (bytes ciphertext : Bytes) :
    List WireFrame → Except Status (Session × Bytes)
  | [] => .ok (session, ciphertext)
  | frame :: frames =>
    let payload_size := frame.payload.length
    match encrypt_frame aead session (bytes.take HEADER_SIZE) ((bytes.drop HEADER_SIZE).take payload_size) with
    | .error status => .error status
    | .ok (session, encrypted_frame) =>
      encrypt_frames aead session ((bytes.drop HEADER_SIZE).drop payload_size) (ciphertext ++ encrypted_frame) frames

/-- `send_bytes`, with the ciphertext handed to the transport; `taken` says whether the
transport takes it or throws. -/
def send_bytes (taken : Bool) (connection : NoiseConnection) (bytes : Bytes) :
    NoiseConnection × Option Bytes :=
  match (FrameDecoder.new kMaximumFramePayloadSize).push bytes with
  | (_, .error _) => (connection.terminate .ok, none)
  | (decoder, .ok frames) =>
    if decoder.finish.isOk = false ∨ frames = [] ∨ total_ciphertext_size frames = none then
      (connection.terminate .ok, none)
    else
      match connection.incoming with
      | none => (connection, none)
      | some incoming =>
        match incoming.phase.session? with
        | none => (connection.terminate .ok, none)
        | some session =>
          match encrypt_frames aead session bytes [] frames with
          | .error status => (connection.terminate status, none)
          | .ok (session, ciphertext) =>
            if taken then
              ({ connection with
                  incoming := some ⟨incoming.phase.with_session session, incoming.collected, by
                    rw [Phase.need_with_session]
                    exact incoming.room⟩ }, some ciphertext)
            else (connection.terminate .ok, none)

/-- Whether the stream ended with a frame. -/
def finish : NoiseConnection × Bool :=
  let clean :=
    match connection.incoming with
    | some ⟨.header _, [], _⟩ => true
    | _ => false
  (connection.terminate .ok, clean)

end NoiseConnection

end erikslund.sv2
