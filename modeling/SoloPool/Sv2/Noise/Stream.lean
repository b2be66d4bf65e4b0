import SoloPool.Sv2.Noise.Transport

namespace erikslund.sv2

open sv2_noise List

/-- Whole frames of at most `maximum_payload_size`, each as its plaintext and the
ciphertext it has when sent from `cipher` on. -/
inductive Sealed (aead : Aead) (limit : Nat) : CipherState → List (Bytes × Bytes) → CipherState → Prop
  | nil (cipher : CipherState) : Sealed aead limit cipher [] cipher
  | cons {cipher mid next last : CipherState} {header payload front back : Bytes} {frames : List (Bytes × Bytes)}
      (hheader : header.length = HEADER_SIZE) (hsize : (read_header header).2 = payload.length)
      (hlimit : payload.length ≤ limit)
      (hfront : cipher_call .encrypt aead cipher header = (mid, .ok front))
      (hback : process_chunks .encrypt aead mid payload.length payload = (next, .ok back))
      (hrest : Sealed aead limit next frames last) :
    Sealed aead limit cipher ((header ++ payload, front ++ back) :: frames) last

theorem Sealed.append {aead : Aead} {limit : Nat} {cipher mid last : CipherState}
    {frames more : List (Bytes × Bytes)} (h : Sealed aead limit cipher frames mid)
    (hmore : Sealed aead limit mid more last) :
    Sealed aead limit cipher (frames ++ more) last := by
  induction h with
  | nil => exact hmore
  | cons hheader hsize hlimit hfront hback _ ih => exact .cons hheader hsize hlimit hfront hback (ih hmore)

/-- The frames' plaintexts, and their ciphertexts, one after the other. -/
def plaintext_of (frames : List (Bytes × Bytes)) : Bytes := (frames.map Prod.fst).flatten

def ciphertext_of (frames : List (Bytes × Bytes)) : Bytes := (frames.map Prod.snd).flatten

theorem Sealed.framed {aead : Aead} {limit : Nat} {cipher last : CipherState}
    {frames : List (Bytes × Bytes)} (h : Sealed aead limit cipher frames last) :
    ∃ wire, Framed limit wire (plaintext_of frames) := by
  induction h with
  | nil => exact ⟨[], framed_nil⟩
  | @cons _ _ _ _ header payload _ _ _ hheader hsize hlimit _ _ _ ih =>
    obtain ⟨wire, hframed⟩ := ih
    have hread : read_header header = ((read_header header).1, payload.length) := by rw [← hsize]
    have hencoded := encode_frame_read hheader hread
    exact ⟨_ :: wire, framed_cons.mpr ⟨_, _, hlimit, hencoded, hframed, rfl⟩⟩

section Run

variable (responder : Responder) {aead : Aead} (hinverts : aead.Inverts) {limit : Nat}
  (hmaximum : limit ≤ MAX_FRAME_PAYLOAD_SIZE)

open Collector

open Phase

/-- The connection as a machine that takes one byte at a time. -/
abbrev feed (responder : Responder) (aead : Aead) (limit : Nat) :
    State UInt8 need → UInt8 → Bytes × Except Status (State UInt8 need) :=
  Collector.feed need_pos (complete responder aead limit)

/-- Between two frames. -/
abbrev at_frame (s : Session) : State UInt8 need := start need_pos (.header s)

open Transducer

theorem run_front (s : Session) {front : Bytes} (hfront : front.length = ENCRYPTED_HEADER_SIZE) :
    run (feed responder aead limit) (at_frame s) front =
      advance need_pos (open_header aead limit s front) :=
  run_whole need_pos (complete responder aead limit) (at_frame s) hfront

theorem run_back {s : Session} {header : Bytes} {size expected : Nat} (some_payload : 0 < expected) {back : Bytes}
    (hback : back.length = expected) :
    run (feed responder aead limit)
        (start need_pos (.payload s header size expected some_payload)) back =
      advance need_pos (open_payload aead s header size back) :=
  run_whole need_pos (complete responder aead limit)
    (start need_pos (.payload s header size expected some_payload)) hback

include hinverts hmaximum

/-- A mirrored receiver gives each frame back and is ready for the next. -/
theorem run_frame_sealed {s : Session} (hopen : s.terminal = false) {cipher mid next : CipherState}
    (hmirror : Mirror cipher s.receive) {header payload front back : Bytes}
    (hheader : header.length = HEADER_SIZE) (hsize : (read_header header).2 = payload.length)
    (hlimit : payload.length ≤ limit)
    (hfront : cipher_call .encrypt aead cipher header = (mid, .ok front))
    (hback : process_chunks .encrypt aead mid payload.length payload = (next, .ok back)) :
    ∃ cipher', run (feed responder aead limit) (at_frame s) (front ++ back) =
        (header ++ payload, .ok (at_frame { s with receive := cipher' })) ∧ Mirror next cipher' := by
  have hfirst := cipher_call_undone hinverts .encrypt HEADER_SIZE hheader hfront
  have hlength : payload.length = Direction.encrypt.payload_input payload.length := rfl
  have hsecond := process_chunks_undone hinverts .encrypt hlength hback
  obtain ⟨middle, hopened, hmiddle⟩ := hfirst.undo s.receive hmirror
  obtain ⟨cipher', hpayload, hmirror'⟩ := hsecond.undo middle hmiddle
  refine ⟨cipher', ?_, hmirror'⟩
  rw [run_append, run_front responder s hfirst.length, open_header_ok hopen hfirst.length hopened]
  by_cases hempty : payload.length = 0
  · rw [hempty, process_chunks_zero] at hback hpayload
    cases hback
    cases hpayload
    rw [begin_payload_empty (hsize.trans hempty), resume_nil, append_nil]
    rfl
  · obtain ⟨some_payload, hbegin⟩ := begin_payload_some { s with receive := middle } (hsize ▸ hlimit) hmaximum
      (hsize ▸ hempty)
    have hcollected : back.length = payload_ciphertext_size (read_header header).2 := by
      rw [payload_ciphertext_size_eq, hsize]
      exact hsecond.length
    have hfits : (read_header header).2 ≤ MAX_FRAME_PAYLOAD_SIZE := hsize ▸ hlimit.trans hmaximum
    have hstill : ({ s with receive := middle } : Session).terminal = false := hopen
    rw [← hsize] at hpayload
    rw [hbegin, advance, Except.map, resume_ok, nil_append,
      run_back responder some_payload hcollected, open_payload_ok hfits hcollected hinverts hstill hpayload]
    rfl

/-- And so for a list of frames. -/
theorem run_sealed {s : Session} (hopen : s.terminal = false) {cipher last : CipherState}
    (hmirror : Mirror cipher s.receive) {frames : List (Bytes × Bytes)}
    (hsealed : Sealed aead limit cipher frames last) :
    ∃ cipher', run (feed responder aead limit) (at_frame s) (ciphertext_of frames) =
        (plaintext_of frames, .ok (at_frame { s with receive := cipher' })) ∧ Mirror last cipher' := by
  induction hsealed generalizing s with
  | nil cipher => exact ⟨s.receive, rfl, hmirror⟩
  | cons hheader hsize hlimit hfront hback hrest ih =>
    obtain ⟨next', hrun, hnext⟩ := run_frame_sealed responder hinverts hmaximum hopen hmirror hheader hsize hlimit hfront
      hback
    obtain ⟨cipher', hothers, hmirror'⟩ := @ih { s with receive := next' } hopen hnext
    refine ⟨cipher', ?_, hmirror'⟩
    rw [ciphertext_of, map_cons, flatten_cons, run_append, hrun, resume_ok]
    rw [ciphertext_of] at hothers
    rw [hothers]
    rfl

/-- What came out of a stream: the plaintexts of whole frames at its front, sealed with
the key and the nonces of the connection, and where nothing is pending, of all of it. -/
def Authentic (aead : Aead) (limit : Nat) (cipher : CipherState) (stream : Bytes)
    (result : Bytes × Except Status (State UInt8 need)) : Prop :=
  ∃ frames last rest, Sealed aead limit cipher frames last ∧ stream = ciphertext_of frames ++ rest ∧
    result.1 = plaintext_of frames ∧ ((∃ s, result.2 = .ok (at_frame s)) → rest = [])

omit hinverts hmaximum in
theorem authentic_none {cipher : CipherState} {stream : Bytes}
    {result : Except Status (State UInt8 need)}
    (hpending : (∃ s, result = .ok (at_frame s)) → stream = []) :
    Authentic aead limit cipher stream ([], result) :=
  ⟨[], cipher, stream, .nil cipher, rfl, rfl, hpending⟩

omit hinverts hmaximum in
theorem Authentic.cons {cipher mid next : CipherState} {header payload front back : Bytes}
    (hheader : header.length = HEADER_SIZE) (hsize : (read_header header).2 = payload.length)
    (hlimit : payload.length ≤ limit)
    (hfront : cipher_call .encrypt aead cipher header = (mid, .ok front))
    (hback : process_chunks .encrypt aead mid payload.length payload = (next, .ok back)) {stream : Bytes}
    {result : Bytes × Except Status (State UInt8 need)}
    (h : Authentic aead limit next stream result) :
    Authentic aead limit cipher (front ++ back ++ stream) (header ++ payload ++ result.1, result.2) := by
  obtain ⟨frames, last, rest, hsealed, rfl, hout, hpending⟩ := h
  refine ⟨_ :: frames, last, rest, .cons hheader hsize hlimit hfront hback hsealed, ?_, ?_, hpending⟩
  · simp only [ciphertext_of, map_cons, flatten_cons, append_assoc]
  · simp only [hout, plaintext_of, map_cons, flatten_cons, append_assoc]

/-- The payload of a header that opened: it is not all there, it does not open, or it is
the rest of a frame and more follows. -/
theorem run_payload_authentic (s : Session) {cipher mid : CipherState} {header front : Bytes}
    (hheader : header.length = HEADER_SIZE) (hlimit : (read_header header).2 ≤ limit)
    (hfront : cipher_call .encrypt aead cipher header = (mid, .ok front)) (hmirror : Mirror s.receive mid)
    {expected : Nat} (hexpected : expected = payload_ciphertext_size (read_header header).2) (some_payload : 0 < expected)
    (stream : Bytes)
    (hnext : ∀ receive next, Mirror receive next → Authentic aead limit next (stream.drop expected)
      (run (feed responder aead limit) (at_frame { s with receive })
        (stream.drop expected))) :
    Authentic aead limit cipher (front ++ stream)
      (run (feed responder aead limit)
        (start need_pos (.payload s header (read_header header).2 expected some_payload)) stream) := by
  by_cases hpartial : stream.length < expected
  · have hrun := run_short need_pos (complete responder aead limit)
      (start need_pos (.payload s header (read_header header).2 expected some_payload)) hpartial
    rw [hrun]
    apply authentic_none
    rintro ⟨s', heq⟩
    have hphase := congrArg Collector.State.phase (Except.ok.inj heq)
    cases hphase
  · have htake := length_take_of_le (Nat.le_of_not_lt hpartial)
    have hlength := htake.trans (hexpected.trans (payload_ciphertext_size_eq _))
    rw [run_cut _ _ expected, run_back responder some_payload htake]
    obtain ⟨status, hfailed⟩ | ⟨hopen, receive, payload, hopened, hout⟩ :=
      open_payload_cases (hlimit.trans hmaximum) (htake.trans hexpected)
    · rw [hfailed]
      apply authentic_none
      rintro ⟨s', heq⟩
      cases heq
    · have hundone := process_chunks_undone hinverts .decrypt hlength hopened
      obtain ⟨next, hback, hmirror'⟩ := hundone.undo mid hmirror
      have hsize : (read_header header).2 = payload.length := hundone.length.symm
      rw [hsize] at hback
      have hframe := (hnext receive next hmirror').cons hheader hsize (hsize ▸ hlimit) hfront hback
      rw [append_assoc, take_append_drop] at hframe
      rw [hout]
      exact hframe

/-- Whatever arrives, what comes out is authentic. -/
theorem run_authentic (stream : Bytes) {s : Session} {cipher : CipherState}
    (hmirror : Mirror s.receive cipher) :
    Authentic aead limit cipher stream
      (run (feed responder aead limit) (at_frame s) stream) := by
  induction hlength : stream.length using Nat.strong_induction_on generalizing stream s cipher with
  | h length ih =>
    subst hlength
    by_cases hshort : stream.length < ENCRYPTED_HEADER_SIZE
    · rw [run_short need_pos _ (at_frame s) hshort]
      apply authentic_none
      rintro ⟨s', heq⟩
      exact congrArg Collector.State.collected (Except.ok.inj heq)
    · have hlong := Nat.le_of_not_lt hshort
      have htake := length_take_of_le hlong
      have hless : (stream.drop ENCRYPTED_HEADER_SIZE).length < stream.length := by
        rw [length_drop]
        simp only [ENCRYPTED_HEADER_SIZE] at hlong ⊢
        omega
      rw [run_cut _ _ ENCRYPTED_HEADER_SIZE, run_front responder s htake]
      obtain ⟨status, hfailed⟩ | ⟨hopen, receive, header, hopened, hbegin⟩ := open_header_cases htake
      · rw [hfailed]
        apply authentic_none
        rintro ⟨s', heq⟩
        cases heq
      · have hundone := cipher_call_undone hinverts .decrypt HEADER_SIZE htake hopened
        obtain ⟨mid, hfront, hmid⟩ := hundone.undo cipher hmirror
        rw [hbegin]
        by_cases hlimit : limit < (read_header header).2
        · rw [begin_payload_over hlimit]
          apply authentic_none
          rintro ⟨s', heq⟩
          cases heq
        · by_cases hempty : (read_header header).2 = 0
          · have hback : process_chunks .encrypt aead mid ([] : Bytes).length [] = (mid, .ok []) := process_chunks_zero _ _ _ _
            have hnone : (read_header header).2 = ([] : Bytes).length := hempty
            have hrest := @ih _ hless (stream.drop ENCRYPTED_HEADER_SIZE) { s with receive } mid hmid rfl
            have hframe := hrest.cons hundone.length hnone (Nat.zero_le _) hfront hback
            rw [append_nil, append_nil, take_append_drop] at hframe
            rw [begin_payload_empty hempty]
            exact hframe
          · obtain ⟨some_payload, hpayload⟩ := begin_payload_some { s with receive } (Nat.le_of_not_lt hlimit)
              hmaximum hempty
            have hframe := run_payload_authentic responder hinverts hmaximum { s with receive } hundone.length
              (Nat.le_of_not_lt hlimit) hfront hmid rfl some_payload (stream.drop ENCRYPTED_HEADER_SIZE)
              (fun after next hafter => @ih _ (by rw [length_drop]; omega) _ _ next hafter rfl)
            rw [take_append_drop] at hframe
            rw [hpayload]
            exact hframe

end Run

namespace NoiseConnection

/-- Receive chunk after chunk: the connection at the end, and all it returned. -/
def receive_all (responder : Responder) (aead : Aead) (conn : NoiseConnection) :
    List Bytes → NoiseConnection × Bytes
  | [] => (conn, [])
  | chunk :: chunks =>
    let (conn, plaintext_frames) := conn.receive responder aead chunk
    let (conn, more) := conn.receive_all responder aead chunks
    (conn, plaintext_frames ++ more)

/-- What `receive` makes of a run of the machine. -/
def received (conn : NoiseConnection) (result : Bytes × Except Status (Collector.State UInt8 Phase.need)) :
    NoiseConnection × Bytes :=
  match result with
  | (plaintext_frames, .ok incoming) => ({ conn with incoming := some incoming }, plaintext_frames)
  | (plaintext_frames, .error status) => (conn.terminate status, plaintext_frames)

variable (responder : Responder) (aead : Aead)

theorem receive_eq {conn : NoiseConnection} {incoming : Collector.State UInt8 Phase.need}
    (h : conn.incoming = some incoming) (bytes : Bytes) :
    conn.receive responder aead bytes =
      conn.received (Transducer.run (feed responder aead conn.maximum_payload_size) incoming bytes) := by
  rw [receive, h]
  simp only [Collector.consume_eq, nil_append]
  cases Transducer.run (feed responder aead conn.maximum_payload_size) incoming bytes with
  | mk plaintext_frames result => cases result <;> rfl

theorem receive_terminal {conn : NoiseConnection} (h : conn.incoming = none) (bytes : Bytes) :
    conn.receive responder aead bytes = (conn, []) := by
  rw [receive, h]

theorem receive_nil (conn : NoiseConnection) : conn.receive responder aead [] = (conn, []) := by
  cases h : conn.incoming with
  | none => exact receive_terminal responder aead h []
  | some incoming =>
    rw [receive_eq responder aead h, Transducer.run_nil, received, ← h]

/-- Two chunks are received as one. -/
theorem receive_append (conn : NoiseConnection) (bytes more : Bytes) :
    conn.receive responder aead (bytes ++ more) =
      (((conn.receive responder aead bytes).1.receive responder aead more).1,
        (conn.receive responder aead bytes).2 ++
          ((conn.receive responder aead bytes).1.receive responder aead more).2) := by
  cases h : conn.incoming with
  | none =>
    simp only [receive_terminal responder aead h, nil_append]
  | some incoming =>
    rw [receive_eq responder aead h, receive_eq responder aead h, Transducer.run_append]
    cases Transducer.run (feed responder aead conn.maximum_payload_size) incoming bytes with
    | mk plaintext_frames result =>
    cases result with
    | error status =>
      have hended : (conn.terminate status).receive responder aead more = (conn.terminate status, []) :=
        receive_terminal responder aead rfl more
      simp only [received, Transducer.resume, hended, append_nil]
    | ok state =>
      have hnext : NoiseConnection.receive responder aead { conn with incoming := some state } more = _ :=
        receive_eq responder aead rfl more
      simp only [received, Transducer.resume_ok] at hnext ⊢
      rw [hnext]
      cases Transducer.run (feed responder aead conn.maximum_payload_size) state more with
      | mk more result => cases result <;> rfl

/-- However a stream is cut into chunks, the connection and what it returned are the same. -/
theorem receive_all_eq (conn : NoiseConnection) (chunks : List Bytes) :
    conn.receive_all responder aead chunks = conn.receive responder aead chunks.flatten := by
  induction chunks generalizing conn with
  | nil => rw [receive_all, flatten_nil, receive_nil]
  | cons chunk chunks ih => simp only [flatten_cons, receive_append, receive_all, ih]

end NoiseConnection

end erikslund.sv2
