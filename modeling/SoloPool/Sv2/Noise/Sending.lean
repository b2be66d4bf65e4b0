import SoloPool.Sv2.Noise.Stream

namespace erikslund.sv2

open sv2_noise List

/-- Whole frames are pushed whole. -/
theorem push_framed {frames : List WireFrame} {bytes : Bytes} {limit : Nat}
    (hframed : Framed limit frames bytes) :
    (FrameDecoder.new limit).push bytes = (FrameDecoder.new limit, .ok frames) := by
  simp only [FrameDecoder.push, FrameDecoder.new, push_loop_eq, run_framed hframed, outcome, nil_append]

theorem Framed.mono {frames : List WireFrame} {bytes : Bytes} {limit limit' : Nat}
    (h : Framed limit frames bytes) (hlimit : limit ≤ limit') : Framed limit' frames bytes :=
  ⟨fun frame hmem => (h.within frame hmem).trans hlimit, h.encoded⟩

section Encrypt

variable {aead : Aead} {limit : Nat}

variable {s : Session} {header ciphertext : Bytes}

theorem encrypt_header_done (hheader : header.length = HEADER_SIZE)
    (hstatus : (encrypt_header aead s (buffers header ENCRYPTED_HEADER_SIZE)).status = .ok) :
    s.terminal = false ∧ ∃ cipher front,
      cipher_call .encrypt aead s.send header = (cipher, .ok front) ∧
        encrypt_header aead s (buffers header ENCRYPTED_HEADER_SIZE) =
          ⟨.ok, { s with send := cipher }, ENCRYPTED_HEADER_SIZE, front⟩ :=
  header_call_done .encrypt hheader rfl hstatus

theorem encrypt_payload_done {payload : Bytes} (hlimit : payload.length ≤ MAX_FRAME_PAYLOAD_SIZE)
    (hstatus : (encrypt_payload aead s (buffers payload (payload_ciphertext_size payload.length))).status = .ok) :
    s.terminal = false ∧ ∃ cipher back,
      process_chunks .encrypt aead s.send payload.length payload = (cipher, .ok back) ∧
        encrypt_payload aead s (buffers payload (payload_ciphertext_size payload.length)) =
          ⟨.ok, { s with send := cipher }, payload_ciphertext_size payload.length, back⟩ :=
  payload_call_done hlimit .encrypt rfl (payload_ciphertext_size_eq _) hstatus

open NoiseConnection

/-- A frame that is encrypted is sealed: its header, then its payload. -/
theorem encrypt_frame_done {s' : Session} {payload : Bytes}
    (hheader : header.length = HEADER_SIZE) (hlimit : payload.length ≤ MAX_FRAME_PAYLOAD_SIZE)
    (h : encrypt_frame aead s header payload = .ok (s', ciphertext)) :
    ∃ mid front back, cipher_call .encrypt aead s.send header = (mid, .ok front) ∧
      process_chunks .encrypt aead mid payload.length payload = (s'.send, .ok back) ∧
      ciphertext = front ++ back := by
  simp only [encrypt_frame] at h
  split at h
  · cases h
  rename_i hstatus
  obtain ⟨-, mid, front, hfront, hencrypted⟩ := encrypt_header_done hheader (not_not.mp (not_or.mp hstatus).1)
  rw [hencrypted] at h
  split at h
  · rename_i hempty
    cases h
    refine ⟨mid, front, [], hfront, ?_, (append_nil _).symm⟩
    rw [hempty, process_chunks_zero]
  · split at h
    · cases h
    · rename_i hstatus'
      obtain ⟨-, next, back, hback, hencrypted'⟩ := encrypt_payload_done hlimit (not_not.mp (not_or.mp hstatus').1)
      rw [hencrypted'] at h
      cases h
      exact ⟨mid, front, back, hfront, hback, rfl⟩

theorem encrypt_frames_cons {rest : Bytes} {frame : WireFrame}
    {frames : List WireFrame} {result : Session × Bytes} (hheader : header.length = HEADER_SIZE) :
    NoiseConnection.encrypt_frames aead s (header ++ frame.payload ++ rest) ciphertext (frame :: frames) =
        .ok result ↔
      ∃ s' encrypted_frame,
        encrypt_frame aead s header frame.payload = .ok (s', encrypted_frame) ∧
        NoiseConnection.encrypt_frames aead s' rest (ciphertext ++ encrypted_frame) frames = .ok result := by
  have htake : (header ++ (frame.payload ++ rest)).take HEADER_SIZE = header := take_left' hheader
  have hdrop : (header ++ (frame.payload ++ rest)).drop HEADER_SIZE = frame.payload ++ rest := drop_left' hheader
  rw [append_assoc, NoiseConnection.encrypt_frames]
  simp only [htake, hdrop, take_left, drop_left]
  constructor
  · intro h
    split at h
    · cases h
    · rename_i s' encrypted_frame hencrypted
      exact ⟨s', encrypted_frame, hencrypted, h⟩
  · rintro ⟨s', encrypted_frame, hencrypted, h⟩
    rw [hencrypted]
    exact h

/-- What the loop of `send_bytes` makes of whole frames is their ciphertext. -/
theorem encrypt_frames_sealed (hmaximum : limit ≤ MAX_FRAME_PAYLOAD_SIZE) {frames : List WireFrame}
    {s' : Session} {bytes result : Bytes} (hframed : Framed limit frames bytes)
    (h : NoiseConnection.encrypt_frames aead s bytes ciphertext frames = .ok (s', result)) :
    ∃ pieces, Sealed aead limit s.send pieces s'.send ∧ plaintext_of pieces = bytes ∧
      result = ciphertext ++ ciphertext_of pieces := by
  induction frames generalizing s bytes ciphertext with
  | nil =>
    have hbytes : bytes = [] := (Except.ok.inj hframed.encoded).symm
    cases h
    exact ⟨[], .nil _, hbytes.symm, (append_nil _).symm⟩
  | cons frame frames ih =>
    obtain ⟨piece, rest, hlimit, hpiece, hrest, rfl⟩ := framed_cons.mp hframed
    obtain ⟨header, hlength, hheader, rfl⟩ := encode_frame_header hpiece
    obtain ⟨next, encrypted_frame, hencrypted, h⟩ := (encrypt_frames_cons hlength).mp h
    obtain ⟨mid, front, back, hfront, hback, rfl⟩ := encrypt_frame_done hlength (hlimit.trans hmaximum) hencrypted
    obtain ⟨pieces, hsealed, hplain, rfl⟩ := ih hrest h
    have hsize : (read_header header).2 = frame.payload.length := congrArg Prod.snd hheader
    refine ⟨_ :: pieces, .cons hlength hsize hlimit hfront hback hsealed, ?_, ?_⟩
    · rw [← hplain]
      rfl
    · simp only [ciphertext_of, map_cons, flatten_cons, append_assoc]

/-- How many nonces the frames take. -/
def nonces_of (frames : List WireFrame) : Nat :=
  (frames.map fun frame => 1 + payload_chunk_count frame.payload.length).sum

section Total

variable (htotal : ∀ key nonce plaintext, (aead.encrypt key nonce plaintext).isSome)

include htotal

theorem cipher_call_total (cipher : CipherState) (hroom : cipher.nonce.toNat + 1 ≤ kUint64Max.toNat) (input : Bytes) :
    ∃ cipher' output, cipher_call .encrypt aead cipher input = (cipher', .ok output) ∧
      cipher'.nonce.toNat = cipher.nonce.toNat + 1 := by
  have hlast : cipher.nonce ≠ kUint64Max := by
    intro heq
    rw [heq] at hroom
    omega
  obtain ⟨output, houtput⟩ := Option.isSome_iff_exists.mp (htotal cipher.key cipher.nonce input)
  exact ⟨_, output, cipher_call_ok.mpr ⟨hlast, houtput, rfl⟩, CipherState.succ_toNat hlast⟩

theorem process_chunks_total (cipher : CipherState) (remaining : Nat)
    (hroom : cipher.nonce.toNat + payload_chunk_count remaining ≤ kUint64Max.toNat) (input : Bytes) :
    ∃ cipher' output, process_chunks .encrypt aead cipher remaining input = (cipher', .ok output) ∧
      cipher'.nonce.toNat = cipher.nonce.toNat + payload_chunk_count remaining := by
  induction remaining using Nat.strong_induction_on generalizing cipher input with
  | h remaining ih =>
    by_cases hmore : remaining = 0
    · subst hmore
      exact ⟨cipher, [], process_chunks_zero _ _ _ _, rfl⟩
    · have hless : remaining - min remaining MAX_PAYLOAD_CHUNK_SIZE < remaining := by
        simp only [MAX_PAYLOAD_CHUNK_SIZE]
        omega
      rw [payload_chunk_count_step hmore] at hroom ⊢
      obtain ⟨mid, front, hfront, hmid⟩ := cipher_call_total htotal cipher (by omega)
        (input.take (min remaining MAX_PAYLOAD_CHUNK_SIZE))
      obtain ⟨cipher', back, hback, hcipher⟩ := ih _ hless mid (by omega)
        (input.drop (min remaining MAX_PAYLOAD_CHUNK_SIZE))
      refine ⟨cipher', front ++ back, ?_, by omega⟩
      rw [process_chunks_step .encrypt aead cipher hmore input rfl rfl]
      exact and_then_ok.mpr ⟨mid, front, back, hfront, hback, rfl⟩

variable (hinverts : aead.Inverts)

include hinverts

theorem encrypt_frame_total {s : Session} (hopen : s.terminal = false) {header payload : Bytes}
    (hheader : header.length = HEADER_SIZE) (hlimit : payload.length ≤ MAX_FRAME_PAYLOAD_SIZE)
    (hroom : s.send.nonce.toNat + (1 + payload_chunk_count payload.length) ≤ kUint64Max.toNat) :
    ∃ next ciphertext,
      encrypt_frame aead s header payload = .ok ({ s with send := next }, ciphertext) ∧
        next.nonce.toNat = s.send.nonce.toNat + (1 + payload_chunk_count payload.length) := by
  obtain ⟨mid, front, hfront, hmid⟩ := cipher_call_total htotal s.send (by omega) header
  have hsealed : encrypt_header aead s (buffers header ENCRYPTED_HEADER_SIZE) =
      ⟨.ok, { s with send := mid }, ENCRYPTED_HEADER_SIZE, front⟩ := header_call_ok .encrypt hheader rfl hopen hfront
  by_cases hempty : payload.length = 0
  · refine ⟨mid, front, by simp [encrypt_frame, hsealed, hempty], ?_⟩
    rw [hempty]
    exact hmid
  · obtain ⟨next, back, hback, hnext⟩ := process_chunks_total htotal mid payload.length (by omega) payload
    have hstill : ({ s with send := mid } : Session).terminal = false := hopen
    have hpayload : encrypt_payload aead { s with send := mid }
        (buffers payload (payload_ciphertext_size payload.length)) =
          ⟨.ok, { s with send := next }, payload_ciphertext_size payload.length, back⟩ :=
      payload_call_ok hlimit hinverts .encrypt rfl (payload_ciphertext_size_eq _) hstill hback
    refine ⟨next, front ++ back, ?_, by omega⟩
    simp [encrypt_frame, hsealed, hempty, hpayload]

theorem encrypt_frames_total {s : Session} (hopen : s.terminal = false) {frames : List WireFrame}
    {bytes : Bytes} (ciphertext : Bytes) (hframed : Framed kMaximumFramePayloadSize frames bytes)
    (hroom : s.send.nonce.toNat + nonces_of frames ≤ kUint64Max.toNat) :
    ∃ next result, NoiseConnection.encrypt_frames aead s bytes ciphertext frames =
        .ok ({ s with send := next }, result) ∧
      next.nonce.toNat = s.send.nonce.toNat + nonces_of frames := by
  induction frames generalizing s bytes ciphertext with
  | nil => exact ⟨s.send, ciphertext, rfl, rfl⟩
  | cons frame frames ih =>
    obtain ⟨piece, rest, hlimit, hpiece, hrest, rfl⟩ := framed_cons.mp hframed
    obtain ⟨header, hlength, hheader, rfl⟩ := encode_frame_header hpiece
    simp only [nonces_of, map_cons, sum_cons] at hroom ⊢
    obtain ⟨mid, encrypted_frame, hframe, hmid⟩ := encrypt_frame_total htotal hinverts hopen hlength hlimit (by omega)
    obtain ⟨next, result, hothers, hnext⟩ := @ih { s with send := mid } hopen rest (ciphertext ++ encrypted_frame)
      hrest (by simp only [nonces_of]; omega)
    simp only [nonces_of] at hnext
    exact ⟨next, result, (encrypt_frames_cons hlength).mpr ⟨_, encrypted_frame, hframe, hothers⟩, by omega⟩

end Total

end Encrypt

namespace NoiseConnection

/-- Send call after call, each taken by the transport or not: what was sent, as the
plaintext of the call and the ciphertext. -/
def send_all (aead : Aead) (conn : NoiseConnection) : List (Bool × Bytes) → NoiseConnection × List (Bytes × Bytes)
  | [] => (conn, [])
  | (taken, bytes) :: calls =>
    match conn.send_bytes aead taken bytes with
    | (conn, none) => conn.send_all aead calls
    | (conn, some ciphertext) =>
      let (conn, sent) := conn.send_all aead calls
      (conn, (bytes, ciphertext) :: sent)

section Send

variable {aead : Aead} {conn : NoiseConnection}

theorem send_all_cons (conn : NoiseConnection) (taken : Bool) (bytes : Bytes) (calls : List (Bool × Bytes)) :
    (conn.send_all aead ((taken, bytes) :: calls)).2 =
      (conn.send_bytes aead taken bytes).2.toList.map (Prod.mk bytes) ++
        ((conn.send_bytes aead taken bytes).1.send_all aead calls).2 := by
  rw [send_all]
  cases conn.send_bytes aead taken bytes with
  | mk after ciphertext => cases ciphertext <;> rfl

theorem send_bytes_terminal (taken : Bool) (h : conn.incoming = none) (bytes : Bytes) :
    (conn.send_bytes aead taken bytes).1.incoming = none ∧ (conn.send_bytes aead taken bytes).2 = none := by
  simp only [send_bytes]
  split
  · exact ⟨rfl, rfl⟩
  · split
    · exact ⟨rfl, rfl⟩
    · simp only [h, and_self]

theorem send_all_terminal (h : conn.incoming = none) (calls : List (Bool × Bytes)) :
    (conn.send_all aead calls).2 = [] := by
  induction calls generalizing conn with
  | nil => rfl
  | cons call calls ih =>
    obtain ⟨taken, bytes⟩ := call
    obtain ⟨hended, hnothing⟩ := send_bytes_terminal taken h bytes
    rw [send_all_cons, hnothing, ih hended]
    rfl

variable {s : Session} {state : Collector.State UInt8 Phase.need} {frames : List WireFrame}
  {bytes : Bytes}

theorem session?_with_session {phase : Phase} (h : phase.session? = some s) (other : Session) :
    (phase.with_session other).session? = some other := by
  cases phase with
  | awaiting_act1 => cases h
  | header => rfl
  | payload => rfl

/-- The ciphertext of a call of whole frames is sent, or nothing is and the connection
has ended. -/
theorem send_bytes_cases (taken : Bool) (hstate : conn.incoming = some state)
    (hsession : state.phase.session? = some s)
    (hframed : Framed kMaximumFramePayloadSize frames bytes) :
    (conn.send_bytes aead taken bytes).1.incoming = none ∧ (conn.send_bytes aead taken bytes).2 = none ∨
      ∃ s' ciphertext state', encrypt_frames aead s bytes [] frames = .ok (s', ciphertext) ∧
        (conn.send_bytes aead taken bytes).2 = some ciphertext ∧
        (conn.send_bytes aead taken bytes).1.incoming = some state' ∧ state'.phase.session? = some s' := by
  simp only [send_bytes, push_framed hframed]
  split
  · exact .inl ⟨rfl, rfl⟩
  · simp only [hstate, hsession]
    split
    · exact .inl ⟨rfl, rfl⟩
    · rename_i s' ciphertext hencrypted
      split
      · exact .inr ⟨s', ciphertext, _, hencrypted, rfl, rfl, session?_with_session hsession s'⟩
      · exact .inl ⟨rfl, rfl⟩

/-- What a run of calls of whole frames sends is the ciphertext of their frames. -/
theorem send_all_sealed {limit : Nat} (hmaximum : limit ≤ kMaximumFramePayloadSize)
    (hstate : conn.incoming = some state)
    (hsession : state.phase.session? = some s) {calls : List (Bool × Bytes)}
    (hcalls : ∀ call ∈ calls, ∃ frames, Framed limit frames call.2) :
    ∃ frames last, Sealed aead limit s.send frames last ∧
      plaintext_of frames = plaintext_of (conn.send_all aead calls).2 ∧
      ciphertext_of frames = ciphertext_of (conn.send_all aead calls).2 := by
  induction calls generalizing conn state s with
  | nil => exact ⟨[], s.send, .nil _, rfl, rfl⟩
  | cons call calls ih =>
    obtain ⟨taken, bytes⟩ := call
    obtain ⟨hcall, hothers⟩ := forall_mem_cons.mp hcalls
    obtain ⟨wire, hframed⟩ := hcall
    rw [send_all_cons]
    obtain ⟨hended, hnothing⟩ | ⟨s', ciphertext, state', hencrypted, hsent, hstate', hsession'⟩ :=
      send_bytes_cases taken hstate hsession (hframed.mono hmaximum)
    · rw [hnothing, send_all_terminal hended]
      exact ⟨[], s.send, .nil _, rfl, rfl⟩
    · obtain ⟨frames, hsealed, hplain, rfl⟩ := encrypt_frames_sealed hmaximum hframed hencrypted
      obtain ⟨more, last, hmore, hmore_plain, hmore_cipher⟩ := ih hstate' hsession' hothers
      refine ⟨frames ++ more, last, hsealed.append hmore, ?_, ?_⟩
      · rw [hsent, plaintext_of, map_append, flatten_append, ← plaintext_of, ← plaintext_of, hplain, hmore_plain]
        rfl
      · rw [hsent, ciphertext_of, map_append, flatten_append, ← ciphertext_of, ← ciphertext_of, hmore_cipher]
        rfl

/-- The nonces a call takes. -/
def call_nonces (bytes : Bytes) : Nat := nonces_of (parse_stream kMaximumFramePayloadSize bytes).1

theorem parse_framed (hframed : Framed kMaximumFramePayloadSize frames bytes) :
    (parse_stream kMaximumFramePayloadSize bytes).1 = frames := by
  rw [parse_stream_eq, run_framed hframed]

theorem send_bytes_sent (hstate : conn.incoming = some state)
    {s' : Session} (hsession : state.phase.session? = some s)
    {ciphertext : Bytes} (hframed : Framed kMaximumFramePayloadSize frames bytes) (hsome : frames ≠ [])
    (hsize : total_ciphertext_size frames ≠ none)
    (hencrypted : encrypt_frames aead s bytes [] frames = .ok (s', ciphertext)) :
    ∃ state', conn.send_bytes aead true bytes = ({ conn with incoming := some state' }, some ciphertext) ∧
      state'.phase.session? = some s' := by
  have hfinish : (FrameDecoder.new kMaximumFramePayloadSize).finish.isOk = true := rfl
  refine ⟨⟨state.phase.with_session s', state.collected, ?_⟩, ?_, session?_with_session hsession s'⟩
  · rw [Phase.need_with_session]
    exact state.room
  · simp [send_bytes, push_framed hframed, hfinish, hsome, hsize, hstate, hsession, hencrypted]

/-- With a primitive that does not fail and nonces enough, every call that holds a
frame is sent, unless the transport throws or the size of the ciphertext overflows. -/
theorem send_all_total (hinverts : aead.Inverts)
    (htotal : ∀ key nonce plaintext, (aead.encrypt key nonce plaintext).isSome)
    (hstate : conn.incoming = some state)
    (hsession : state.phase.session? = some s) (hopen : s.terminal = false) {calls : List (Bool × Bytes)}
    (hcalls : ∀ call ∈ calls, ∃ frames, Framed kMaximumFramePayloadSize frames call.2)
    (hsendable : ∀ call ∈ calls, call.1 = true ∧ call.2 ≠ [] ∧
      total_ciphertext_size (parse_stream kMaximumFramePayloadSize call.2).1 ≠ none)
    (hroom : s.send.nonce.toNat + (calls.map fun call => call_nonces call.2).sum ≤ kUint64Max.toNat) :
    (conn.send_all aead calls).2.map Prod.fst = calls.map Prod.snd := by
  induction calls generalizing conn state s with
  | nil => rfl
  | cons call calls ih =>
    obtain ⟨taken, bytes⟩ := call
    obtain ⟨⟨frames, hframed⟩, hothers⟩ := forall_mem_cons.mp hcalls
    obtain ⟨⟨htaken, hsome, hsize⟩, hsendable'⟩ := forall_mem_cons.mp hsendable
    simp only at htaken hsome hsize hframed
    subst htaken
    rw [parse_framed hframed] at hsize
    simp only [map_cons, sum_cons, call_nonces, parse_framed hframed] at hroom
    have hframes : frames ≠ [] := by
      rintro rfl
      exact hsome (Except.ok.inj hframed.encoded).symm
    obtain ⟨next, ciphertext, hencrypted, hnext⟩ := encrypt_frames_total htotal hinverts hopen [] hframed (by omega)
    obtain ⟨state', hsent, hsession'⟩ := send_bytes_sent hstate hsession hframed hframes hsize hencrypted
    have hrest := @ih { conn with incoming := some state' } { s with send := next } state' rfl hsession' hopen
      hothers hsendable' (by simp only [hnext, call_nonces]; omega)
    rw [send_all_cons, hsent]
    simp only [Option.toList_some, map_cons, map_nil, cons_append, nil_append, hrest]

end Send

variable (conn : NoiseConnection)

theorem finish_clean :
    conn.finish.2 = true ↔ ∃ s, conn.incoming = some (at_frame s) := by
  simp only [finish]
  constructor
  · intro h
    split at h
    · rename_i s room hincoming
      exact ⟨s, hincoming⟩
    · cases h
  · rintro ⟨s, hincoming⟩
    rw [hincoming]
    rfl

/-- After the handshake. -/
def established (s : Session) : NoiseConnection :=
  { conn with incoming := some (at_frame s) }

/-- What a Noise connection makes of the bytes it is given and the frames it sends. -/
structure Faithful (responder : Responder) (aead : Aead) : Prop where
  /-- Chunks are received as the stream they are cut from. -/
  chunks : ∀ (conn : NoiseConnection) chunks,
    conn.receive_all responder aead chunks = conn.receive responder aead chunks.flatten
  /-- A new connection returns nothing, or what a connection with the session of its
  handshake returns for what follows Act1. -/
  handshake : ∀ limit stream,
    ((new limit).receive responder aead stream).2 = [] ∨
      ∃ s, establish_transport responder (stream.take ACT1_SIZE) = .ok s ∧
        (new limit).receive responder aead stream =
          ((new limit).established s).receive responder aead (stream.drop ACT1_SIZE)
  /-- Whatever arrives, what is returned are whole frames, sealed with the key and the
  nonces of the session. -/
  authentic : ∀ (conn : NoiseConnection) s stream, conn.incoming = some (at_frame s) →
    ∃ frames last rest wire, Sealed aead conn.maximum_payload_size s.receive frames last ∧
      stream = ciphertext_of frames ++ rest ∧
      (conn.receive responder aead stream).2 = plaintext_of frames ∧
      Framed conn.maximum_payload_size wire (plaintext_of frames)
  /-- The end is clean where the stream ends with a frame. -/
  boundary : ∀ (conn : NoiseConnection) s stream, conn.incoming = some (at_frame s) →
    s.terminal = false →
      ((conn.receive responder aead stream).1.finish.2 = true ↔
        ∃ frames last, Sealed aead conn.maximum_payload_size s.receive frames last ∧
          stream = ciphertext_of frames)
  /-- A mirrored receiver returns what was sent. -/
  delivered : ∀ (sender receiver : NoiseConnection) state s s' calls,
    sender.incoming = some state → state.phase.session? = some s →
    receiver.incoming = some (at_frame s') → s'.terminal = false → Mirror s.send s'.receive →
    (∀ call ∈ calls, ∃ frames, Framed receiver.maximum_payload_size frames call.2) →
    ∀ chunks, chunks.flatten = ciphertext_of (sender.send_all aead calls).2 →
      (receiver.receive_all responder aead chunks).2 = plaintext_of (sender.send_all aead calls).2 ∧
        (receiver.receive_all responder aead chunks).1.finish.2 = true
  /-- Every call is sent as long as the primitive does not fail and there are nonces. -/
  sent : ∀ (sender : NoiseConnection) state s calls,
    (∀ key nonce plaintext, (aead.encrypt key nonce plaintext).isSome) →
    sender.incoming = some state → state.phase.session? = some s → s.terminal = false →
    (∀ call ∈ calls, ∃ frames, Framed kMaximumFramePayloadSize frames call.2) →
    (∀ call ∈ calls, call.1 = true ∧ call.2 ≠ [] ∧
      total_ciphertext_size (parse_stream kMaximumFramePayloadSize call.2).1 ≠ none) →
    s.send.nonce.toNat + (calls.map fun call => call_nonces call.2).sum ≤ kUint64Max.toNat →
    (sender.send_all aead calls).2.map Prod.fst = calls.map Prod.snd

theorem received_out
    (result : Bytes × Except Status (Collector.State UInt8 Phase.need)) : (conn.received result).2 = result.1 := by
  obtain ⟨plaintext_frames, status | incoming⟩ := result
  · rfl
  · rfl

theorem received_clean (result : Bytes × Except Status (Collector.State UInt8 Phase.need)) :
    (conn.received result).1.finish.2 = true ↔ ∃ s, result.2 = .ok (at_frame s) := by
  rw [finish_clean]
  obtain ⟨plaintext_frames, status | incoming⟩ := result
  · simp [received, terminate]
  · simp [received]

section Faithful

variable (responder : Responder) {aead : Aead} (hinverts : aead.Inverts)

theorem receive_new (limit : Nat) (stream : Bytes) :
    ((new limit).receive responder aead stream).2 = [] ∨
      ∃ s, establish_transport responder (stream.take ACT1_SIZE) = .ok s ∧
        (new limit).receive responder aead stream =
          ((new limit).established s).receive responder aead (stream.drop ACT1_SIZE) := by
  have hnew : (new limit).incoming = some (Collector.start Phase.need_pos .awaiting_act1) := rfl
  rw [receive_eq responder aead hnew]
  by_cases hshort : stream.length < ACT1_SIZE
  · have hrun := Collector.run_short Phase.need_pos
      (complete responder aead (new limit).maximum_payload_size)
      (Collector.start Phase.need_pos .awaiting_act1) hshort
    left
    rw [hrun, received_out]
  · have htake := length_take_of_le (Nat.le_of_not_lt hshort)
    have hrun := Collector.run_whole Phase.need_pos
      (complete responder aead (new limit).maximum_payload_size)
      (Collector.start Phase.need_pos .awaiting_act1) htake
    rw [Transducer.run_cut _ _ ACT1_SIZE, hrun]
    simp only [Collector.advance, complete, Collector.start, nil_append]
    cases establish_transport responder (stream.take ACT1_SIZE) with
    | error status => exact .inl rfl
    | ok s =>
      refine .inr ⟨s, rfl, ?_⟩
      have hestablished : ((new limit).established s).incoming = some (at_frame s) := rfl
      rw [receive_eq responder aead hestablished]
      simp only [Except.map, Transducer.resume_ok, nil_append, established]
      cases Transducer.run (feed responder aead (new limit).maximum_payload_size) (at_frame s)
        (stream.drop ACT1_SIZE) with
      | mk plaintext_frames result => cases result <;> rfl

include hinverts

theorem receive_authentic {conn : NoiseConnection} {s : Session} (stream : Bytes)
    (h : conn.incoming = some (at_frame s)) :
    ∃ frames last rest, Sealed aead conn.maximum_payload_size s.receive frames last ∧
      stream = ciphertext_of frames ++ rest ∧
      (conn.receive responder aead stream).2 = plaintext_of frames ∧
      ((conn.receive responder aead stream).1.finish.2 = true → rest = []) := by
  have hmirror : Mirror s.receive s.receive := ⟨rfl, rfl⟩
  obtain ⟨frames, last, rest, hsealed, hstream, hout, hpending⟩ :=
    run_authentic responder hinverts conn.maximum_fits stream hmirror
  rw [receive_eq responder aead h, received_out, received_clean]
  exact ⟨frames, last, rest, hsealed, hstream, hout, hpending⟩

theorem receive_sealed {conn : NoiseConnection} {s : Session}
    (h : conn.incoming = some (at_frame s)) (hopen : s.terminal = false) {cipher last : CipherState}
    (hmirror : Mirror cipher s.receive) {frames : List (Bytes × Bytes)}
    (hsealed : Sealed aead conn.maximum_payload_size cipher frames last) :
    (conn.receive responder aead (ciphertext_of frames)).2 = plaintext_of frames ∧
      (conn.receive responder aead (ciphertext_of frames)).1.finish.2 = true := by
  obtain ⟨cipher', hrun, -⟩ := run_sealed responder hinverts conn.maximum_fits hopen hmirror hsealed
  rw [receive_eq responder aead h, received_out, received_clean, hrun]
  exact ⟨rfl, _, rfl⟩

/-- Where decryption inverts encryption and else fails, a Noise connection is a
faithful transport of frames. -/
theorem transport_faithful : Faithful responder aead where
  chunks := receive_all_eq responder aead
  handshake := receive_new responder
  authentic conn s stream h := by
    obtain ⟨frames, last, rest, hsealed, hstream, hout, -⟩ := receive_authentic responder hinverts stream h
    obtain ⟨wire, hframed⟩ := hsealed.framed
    exact ⟨frames, last, rest, wire, hsealed, hstream, hout, hframed⟩
  boundary conn s stream h hopen := by
    constructor
    · intro hclean
      obtain ⟨frames, last, rest, hsealed, hstream, -, hpending⟩ := receive_authentic responder hinverts stream h
      rw [hpending hclean, append_nil] at hstream
      exact ⟨frames, last, hsealed, hstream⟩
    · rintro ⟨frames, last, hsealed, rfl⟩
      exact (receive_sealed responder hinverts h hopen ⟨rfl, rfl⟩ hsealed).2
  delivered sender receiver state s s' calls hstate hsession hreceiver hopen hmirror hcalls chunks hchunks := by
    obtain ⟨frames, last, hsealed, hplain, hcipher⟩ :=
      send_all_sealed receiver.maximum_fits hstate hsession hcalls
    have hreceived := receive_sealed responder hinverts hreceiver hopen hmirror hsealed
    rw [receive_all_eq, hchunks, ← hcipher, ← hplain]
    exact hreceived
  sent sender state s calls htotal hstate hsession hopen hcalls hsendable hroom :=
    send_all_total hinverts htotal hstate hsession hopen hcalls hsendable hroom

end Faithful

/-- A primitive that appends sixteen zeros, and takes nothing else off. -/
def tagged : Aead where
  encrypt _ _ plaintext := some (plaintext ++ replicate TAG_SIZE 0)
  decrypt _ _ ciphertext :=
    if ciphertext = ciphertext.take (ciphertext.length - TAG_SIZE) ++ replicate TAG_SIZE 0 then
      some (ciphertext.take (ciphertext.length - TAG_SIZE))
    else none
  encrypt_length h := by
    cases h
    simp
  decrypt_length {key nonce ciphertext plaintext} h := by
    split at h
    · rename_i htag
      cases h
      have hlength := congrArg List.length htag
      simpa using hlength
    · cases h

theorem tagged_inverts : tagged.Inverts := by
  intro key nonce plaintext ciphertext
  simp only [tagged, Option.some.injEq]
  constructor
  · intro h
    split at h
    · rename_i htag
      cases h
      exact htag.symm
    · cases h
  · rintro rfl
    simp

theorem transport_faithful_tagged :
    Faithful ⟨some 0, fun _ _ => ⟨.ok, some (.new [1] [2]), ACT2_SIZE⟩, true⟩ tagged :=
  transport_faithful _ tagged_inverts

end NoiseConnection

end erikslund.sv2
