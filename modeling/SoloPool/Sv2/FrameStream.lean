import SoloPool.Lib.Result
import SoloPool.Sv2.Codec

namespace erikslund.sv2

open util List

open FrameDecoder

/-- What a complete header leads to. -/
def header_end (limit : Nat) (header : Bytes) : List WireFrame × Except String FramePhase :=
  match FrameDecoder.begin_payload limit header with
  | .error message => ([], .error message)
  | .ok (frame, payload_size) =>
    ((settle frame payload_size).1, .ok (settle frame payload_size).2)

/-- The decoder as a machine that takes one byte at a time. -/
def FrameDecoder.feed (limit : Nat) : FramePhase → UInt8 → List WireFrame × Except String FramePhase
  | .header header _, byte =>
    if h : (header ++ [byte]).length < kFrameHeaderSize then ([], .ok (.header (header ++ [byte]) h))
    else header_end limit (header ++ [byte])
  | .payload frame payload_size _, byte =>
    let settled := settle { frame with payload := frame.payload ++ [byte] } payload_size
    (settled.1, .ok settled.2)

section Feed

variable {limit : Nat}

variable {header bytes : Bytes} {frame : WireFrame} {payload_size : Nat}

open Transducer

theorem run_header (room : header.length < kFrameHeaderSize)
    (hshort : (header ++ bytes).length < kFrameHeaderSize) :
    run (FrameDecoder.feed limit) (.header header room) bytes =
      ([], .ok (.header (header ++ bytes) hshort)) := by
  induction bytes generalizing header with
  | nil => simp only [append_nil, run_nil]
  | cons byte bytes ih =>
    have hsplit : header ++ byte :: bytes = header ++ [byte] ++ bytes := by simp
    have hnext : (header ++ [byte]).length < kFrameHeaderSize := by
      simp only [length_append, length_cons, length_nil] at hshort ⊢
      omega
    rw [run_cons, FrameDecoder.feed, dif_pos hnext, resume_ok, ih hnext (hsplit ▸ hshort)]
    simp only [nil_append, append_assoc, singleton_append]

theorem run_whole_header (room : header.length < kFrameHeaderSize)
    (hwhole : (header ++ bytes).length = kFrameHeaderSize) :
    run (FrameDecoder.feed limit) (.header header room) bytes =
      header_end limit (header ++ bytes) := by
  obtain rfl | ⟨before, last, rfl⟩ := eq_nil_or_concat bytes
  · rw [append_nil] at hwhole
    omega
  · have hshort : (header ++ before).length < kFrameHeaderSize := by
      simp only [concat_eq_append, length_append, length_cons, length_nil] at hwhole ⊢
      omega
    have hlast : ¬ (header ++ before ++ [last]).length < kFrameHeaderSize := by
      simp only [concat_eq_append, ← append_assoc] at hwhole
      omega
    rw [concat_eq_append, run_append, run_header room hshort, resume_ok,
      run_singleton, FrameDecoder.feed, dif_neg hlast, nil_append, append_assoc]

theorem settle_short (hshort : frame.payload.length < payload_size) :
    settle frame payload_size = ([], .payload frame payload_size hshort) :=
  dif_pos hshort

theorem settle_whole (hwhole : payload_size ≤ frame.payload.length) :
    settle frame payload_size = ([frame], .start) :=
  dif_neg (Nat.not_lt.mpr hwhole)

theorem run_payload (room : frame.payload.length < payload_size)
    (hsome : bytes ≠ []) (hfits : frame.payload.length + bytes.length ≤ payload_size) :
    run (FrameDecoder.feed limit) (.payload frame payload_size room) bytes =
      let settled := settle { frame with payload := frame.payload ++ bytes } payload_size
      (settled.1, .ok settled.2) := by
  induction bytes generalizing frame with
  | nil => exact absurd rfl hsome
  | cons byte bytes ih =>
    rw [run_cons, FrameDecoder.feed]
    simp only [length_cons] at hfits
    obtain rfl | hmore := eq_or_ne bytes []
    · rw [resume_nil]
    · have hpositive := length_pos_iff.mpr hmore
      have hnext : (frame.payload ++ [byte]).length < payload_size := by
        simp only [length_append, length_cons, length_nil]
        omega
      have hrest : (frame.payload ++ [byte]).length + bytes.length ≤ payload_size := by
        simp only [length_append, length_cons, length_nil]
        omega
      have hkept : settle { frame with payload := frame.payload ++ [byte] } payload_size =
          ([], .payload _ payload_size hnext) := settle_short _
      simp only [hkept]
      rw [resume_ok, ih hnext hmore hrest]
      simp only [nil_append, append_assoc, singleton_append]

/-- What `push` makes of a run of the machine. -/
def outcome (completed_frames : List WireFrame) (fed : List WireFrame × Except String FramePhase) :
    FramePhase × Except CodecError (List WireFrame) :=
  match fed with
  | (frames, .ok phase) => (phase, .ok (completed_frames ++ frames))
  | (frames, .error message) => (.start, .error ⟨message, completed_frames ++ frames⟩)

theorem outcome_resume (completed_frames frames : List WireFrame) (phase : FramePhase) (bytes : Bytes) :
    outcome completed_frames
        (resume (FrameDecoder.feed limit) bytes (frames, .ok phase)) =
      outcome (completed_frames ++ frames)
        (run (FrameDecoder.feed limit) phase bytes) := by
  rw [resume_ok]
  obtain ⟨more, _ | phase'⟩ := run (FrameDecoder.feed limit) phase bytes
  · simp only [outcome, append_assoc]
  · simp only [outcome, append_assoc]

theorem filled_header (room : header.length < kFrameHeaderSize)
    (hfull : ¬ (header ++ bytes.take (min (kFrameHeaderSize - header.length) bytes.length)).length <
      kFrameHeaderSize) :
    (header ++ bytes.take (min (kFrameHeaderSize - header.length) bytes.length)).length = kFrameHeaderSize := by
  simp only [length_append, length_take] at hfull ⊢
  omega

/-- Copying as much as fits at once is feeding byte by byte. -/
theorem push_loop_eq (phase : FramePhase) (bytes : Bytes) (completed_frames : List WireFrame) :
    push_loop limit phase bytes completed_frames =
      outcome completed_frames (run (FrameDecoder.feed limit) phase bytes) := by
  fun_induction push_loop limit phase bytes completed_frames with
  | case1 phase completed_frames => simp only [run_nil, outcome, append_nil]
  | case2 bytes completed_frames hsome header room bytes_to_copy filled hshort ih =>
    rw [ih, run_cut _ (FramePhase.header header room) bytes_to_copy, run_header room hshort, outcome_resume, append_nil]
  | case3 bytes completed_frames hsome header room bytes_to_copy filled hfull message hbegin =>
    have hwhole : (header ++ bytes.take bytes_to_copy).length = kFrameHeaderSize := filled_header room hfull
    rw [run_cut _ _ bytes_to_copy, run_whole_header room hwhole, header_end]
    simp only [filled] at hbegin
    simp only [hbegin, resume, outcome, append_nil]
  | case4 bytes completed_frames hsome header room bytes_to_copy filled hfull frame payload_size hbegin completed
      phase hsettle ih =>
    have hwhole : (header ++ bytes.take bytes_to_copy).length = kFrameHeaderSize := filled_header room hfull
    rw [ih, run_cut _ (FramePhase.header header room) bytes_to_copy, run_whole_header room hwhole, header_end]
    simp only [filled] at hbegin
    simp only [hbegin, hsettle, outcome_resume]
  | case5 bytes completed_frames hsome frame payload_size room bytes_to_copy completed phase hsettle ih =>
    have hpositive := length_pos_iff.mpr hsome
    have hcopied : (bytes.take bytes_to_copy).length = bytes_to_copy := by
      rw [length_take]
      omega
    have hcopies : bytes.take bytes_to_copy ≠ [] := by
      apply ne_nil_of_length_pos
      omega
    have hfits : frame.payload.length + (bytes.take bytes_to_copy).length ≤ payload_size := by omega
    rw [ih, run_cut _ (FramePhase.payload frame payload_size room) bytes_to_copy, run_payload room hcopies hfits]
    simp only [hsettle, outcome_resume]

section Header

variable {header : Bytes} {frame : WireFrame} {payload_size : Nat} (hlength : header.length = kFrameHeaderSize)
  (hheader : read_header header = (frame, payload_size))

include hlength hheader

theorem run_oversized (hlimit : limit < payload_size) (bytes : Bytes) :
    run (FrameDecoder.feed limit) .start (header ++ bytes) =
      ([], .error "SV2 frame payload exceeds the configured limit") := by
  rw [run_append, FramePhase.start, run_whole_header _ (by simpa using hlength), nil_append, header_end,
    FrameDecoder.begin_payload]
  simp only [hheader, gt_iff_lt, hlimit, if_true, resume]

/-- A header within the limit and no more than its payload. -/
theorem run_frame (hlimit : payload_size ≤ limit) {bytes : Bytes}
    (hfits : bytes.length ≤ payload_size) :
    run (FrameDecoder.feed limit) .start (header ++ bytes) =
      let settled := settle { frame with payload := bytes } payload_size
      (settled.1, .ok settled.2) := by
  have hempty : frame.payload = [] := by
    rw [read_header, Prod.mk.injEq] at hheader
    rw [← hheader.1]
  rw [run_append, FramePhase.start, run_whole_header _ (by simpa using hlength), nil_append, header_end,
    FrameDecoder.begin_payload]
  simp only [hheader, gt_iff_lt, Nat.not_lt.mpr hlimit, if_false]
  obtain rfl | hsome := eq_or_ne bytes []
  · rw [resume_nil, ← hempty]
  · have hpositive := length_pos_iff.mpr hsome
    have hroom : frame.payload.length < payload_size := by
      rw [hempty, length_nil]
      omega
    have hrest : frame.payload.length + bytes.length ≤ payload_size := by
      rw [hempty, length_nil]
      omega
    rw [settle_short hroom, resume_ok, run_payload hroom hsome hrest, hempty]
    simp only [nil_append]

end Header

/-- How the machine tells where its input ended. -/
def ending : Except String FramePhase → StreamEnd
  | .error _ => .oversized
  | .ok phase => if phase = .start then .boundary else .truncated

theorem not_start (room : frame.payload.length < payload_size) :
    FramePhase.payload frame payload_size room ≠ .start := by
  intro h
  cases h

/-- The frames of the one-shot parse are those the machine returns byte by byte. -/
theorem parse_stream_eq (stream : Bytes) :
    parse_stream limit stream =
      ((run (FrameDecoder.feed limit) .start stream).1,
        ending (run (FrameDecoder.feed limit) .start stream).2) := by
  fun_induction parse_stream limit stream with
  | case1 => rfl
  | case2 stream hsome hshort =>
    rw [FramePhase.start, run_header _ (by simpa using hshort)]
    simp only [ending, nil_append, FramePhase.start, FramePhase.header.injEq, hsome, if_false]
  | case3 stream hsome hlong frame payload_size hheader hlimit =>
    have hlength := length_take_of_le (Nat.le_of_not_lt hlong)
    have hrun := run_oversized hlength hheader hlimit (stream.drop kFrameHeaderSize)
    rw [take_append_drop] at hrun
    rw [hrun]
    rfl
  | case4 stream hsome hlong frame payload_size hheader rest hlimit hshort =>
    have hlength := length_take_of_le (Nat.le_of_not_lt hlong)
    have hrun := run_frame hlength hheader (Nat.le_of_not_lt hlimit) hshort.le
    rw [take_append_drop] at hrun
    have hkept : settle { frame with payload := rest } payload_size = ([], .payload _ payload_size hshort) :=
      settle_short _
    simp only [hrun, hkept, ending]
    rw [if_neg (not_start _)]
  | case5 stream hsome hlong frame payload_size hheader rest hlimit hwhole frames ending' hparse ih =>
    have hlength := length_take_of_le (Nat.le_of_not_lt hlong)
    have hpayload := length_take_of_le (Nat.le_of_not_lt hwhole)
    have hrun := run_frame hlength hheader (Nat.le_of_not_lt hlimit) hpayload.le
    have hstream : stream = stream.take kFrameHeaderSize ++ rest.take payload_size ++ rest.drop payload_size := by
      rw [append_assoc, take_append_drop, take_append_drop]
    rw [hparse, Prod.mk.injEq] at ih
    rw [hstream, run_append, hrun, settle_whole hpayload.ge, resume_ok, ← ih.1, ← ih.2,
      singleton_append]

/-- Pushing chunk after chunk is feeding the whole stream. -/
theorem push_all_eq (phase : FramePhase) (chunks : List Bytes) :
    push_all ⟨limit, phase⟩ chunks =
      ((run (FrameDecoder.feed limit) phase chunks.flatten).1,
        (run (FrameDecoder.feed limit) phase chunks.flatten).2.map
          (FrameDecoder.mk limit)) := by
  induction chunks generalizing phase with
  | nil => rfl
  | cons chunk chunks ih =>
    rw [push_all, push, flatten_cons, run_append]
    simp only [push_loop_eq]
    obtain ⟨frames, message | phase'⟩ := run (FrameDecoder.feed limit) phase chunk
    · rfl
    · simp only [outcome, nil_append, resume_ok, ih]

/-- Whole frames of a stream, each within the limit. -/
structure Framed (limit : Nat) (frames : List WireFrame) (bytes : Bytes) : Prop where
  within : ∀ frame ∈ frames, frame.payload.length ≤ limit
  encoded : encode_frames frames = .ok bytes

theorem framed_nil : Framed limit [] [] := ⟨by simp, rfl⟩

theorem framed_cons {frames : List WireFrame} :
    Framed limit (frame :: frames) bytes ↔
      ∃ piece rest, frame.payload.length ≤ limit ∧ encode_frame frame = .ok piece ∧
        Framed limit frames rest ∧ bytes = piece ++ rest := by
  constructor
  · rintro ⟨hwithin, hencoded⟩
    obtain ⟨pieces, hpieces, hbytes⟩ := Result.bind_eq_ok.mp hencoded
    obtain ⟨piece, others, hpiece, hothers, rfl⟩ := forall₂_cons_left_iff.mp (Result.mapM_eq_ok.mp hpieces)
    rw [Result.pure_eq_ok, flatten_cons] at hbytes
    refine ⟨piece, others.flatten, hwithin frame mem_cons_self, hpiece, ⟨?_, ?_⟩, hbytes.symm⟩
    · intro other hother
      exact hwithin other (mem_cons_of_mem _ hother)
    · exact Result.bind_eq_ok.mpr ⟨others, Result.mapM_eq_ok.mpr hothers, rfl⟩
  · rintro ⟨piece, rest, hlimit, hpiece, ⟨hwithin, hencoded⟩, rfl⟩
    obtain ⟨others, hothers, hrest⟩ := Result.bind_eq_ok.mp hencoded
    refine ⟨forall_mem_cons.mpr ⟨hlimit, hwithin⟩, ?_⟩
    apply Result.bind_eq_ok.mpr
    refine ⟨piece :: others, Result.mapM_eq_ok.mpr (.cons hpiece (Result.mapM_eq_ok.mp hothers)), ?_⟩
    rw [Result.pure_eq_ok] at hrest ⊢
    rw [flatten_cons, hrest]

open Radix

theorem read_header_parts {extension : Bytes} (hextension : extension.length = 2) (message_type : UInt8)
    (size : Bytes) :
    read_header (extension ++ message_type :: size) =
      (⟨UInt16.ofNat (value extension), message_type, []⟩, value size) := by
  have hdrop : (extension ++ message_type :: size).drop 3 = size := by
    rw [append_cons]
    apply drop_left'
    simp [hextension]
  rw [read_header, take_left' hextension, hdrop]
  simp [hextension]

/-- An encoded frame is a header that announces it, and its payload. -/
theorem encode_frame_header (hencode : encode_frame frame = .ok bytes) :
    ∃ header : Bytes, header.length = kFrameHeaderSize ∧
      read_header header = ({ frame with payload := [] }, frame.payload.length) ∧ bytes = header ++ frame.payload := by
  rw [encode_frame] at hencode
  split at hencode
  · cases hencode
  · rename_i hsize
    cases hencode
    refine ⟨le16_bytes frame.extension_type ++ frame.message_type :: Radix.le 3 frame.payload.length, ?_, ?_, ?_⟩
    · simp [le16_bytes, kFrameHeaderSize]
    · have hpayload : frame.payload.length % 256 ^ 3 = frame.payload.length := by
        apply Nat.mod_eq_of_lt
        simp only [kMaximumFramePayloadSize] at hsize
        omega
      have htype : frame.extension_type.toNat % 256 ^ 2 = frame.extension_type.toNat :=
        Nat.mod_eq_of_lt frame.extension_type.toNat_lt
      rw [le16_bytes, read_header_parts (le_length _ _), value_le, value_le, hpayload, htype,
        UInt16.ofNat_toNat]
    · simp

/-- A payload of the announced size makes the header an encoded frame. -/
theorem encode_frame_read {payload : Bytes} (hlength : header.length = kFrameHeaderSize)
    (hheader : read_header header = (frame, payload.length)) :
    encode_frame { frame with payload } = .ok (header ++ payload) := by
  obtain ⟨extension, hextension, message_type, size, hsize, rfl⟩ : ∃ extension : Bytes, extension.length = 2 ∧
      ∃ message_type, ∃ size : Bytes, size.length = 3 ∧ header = extension ++ message_type :: size := by
    match header, hlength with
    | [a, b, c, d, e, f], _ => exact ⟨[a, b], rfl, c, [d, e, f], rfl, rfl⟩
  rw [read_header_parts hextension, Prod.mk.injEq] at hheader
  obtain ⟨rfl, hpayload⟩ := hheader
  have hbound := value_lt size
  have hfits : ¬ payload.length > kMaximumFramePayloadSize := by
    rw [hsize, hpayload] at hbound
    simp only [kMaximumFramePayloadSize]
    omega
  have htype : (UInt16.ofNat (value extension)).toNat = value extension := by
    have hextension_bound := value_lt extension
    rw [hextension] at hextension_bound
    exact UInt16.toNat_ofNat_of_lt' hextension_bound
  have hle_type := le_value extension
  have hle_size := le_value size
  rw [hextension] at hle_type
  rw [hsize] at hle_size
  rw [encode_frame, if_neg hfits]
  simp only [le16_bytes, htype, ← hpayload, hle_type, hle_size, append_assoc,
    singleton_append]

theorem run_encoded (hlimit : frame.payload.length ≤ limit)
    (hencode : encode_frame frame = .ok bytes) :
    run (FrameDecoder.feed limit) .start bytes = ([frame], .ok .start) := by
  obtain ⟨header, hlength, hheader, rfl⟩ := encode_frame_header hencode
  rw [run_frame hlength hheader hlimit le_rfl, settle_whole le_rfl]

theorem run_framed {frames : List WireFrame} (hframed : Framed limit frames bytes) :
    run (FrameDecoder.feed limit) .start bytes = (frames, .ok .start) := by
  induction frames generalizing bytes with
  | nil =>
    have hbytes : bytes = [] := (Except.ok.inj hframed.encoded).symm
    rw [hbytes, run_nil]
  | cons frame frames ih =>
    obtain ⟨piece, rest, hlimit, hpiece, hrest, rfl⟩ := framed_cons.mp hframed
    rw [run_append, run_encoded hlimit hpiece, resume_ok, ih hrest, singleton_append]

/-- What is left of a stream after its whole frames. -/
def StreamEnd.Leaves (limit : Nat) (tail : Bytes) : StreamEnd → Prop
  | .boundary => tail = []
  | .truncated => tail ≠ []
  | .oversized =>
    kFrameHeaderSize ≤ tail.length ∧ limit < (read_header (tail.take kFrameHeaderSize)).2

theorem parse_stream_framed (limit : Nat) (stream : Bytes) :
    ∃ whole tail, stream = whole ++ tail ∧
      Framed limit (parse_stream limit stream).1 whole ∧
      (parse_stream limit stream).2.Leaves limit tail := by
  fun_induction parse_stream limit stream with
  | case1 => exact ⟨[], [], rfl, framed_nil, rfl⟩
  | case2 stream hsome hshort => exact ⟨[], stream, rfl, framed_nil, hsome⟩
  | case3 stream hsome hlong frame payload_size hheader hlimit =>
    refine ⟨[], stream, rfl, framed_nil, Nat.le_of_not_lt hlong, ?_⟩
    rw [hheader]
    exact hlimit
  | case4 stream hsome hlong frame payload_size hheader rest hlimit hshort =>
    exact ⟨[], stream, rfl, framed_nil, hsome⟩
  | case5 stream hsome hlong frame payload_size hheader rest hlimit hwhole frames ending' hparse ih =>
    have hpayload := length_take_of_le (Nat.le_of_not_lt hwhole)
    obtain ⟨whole, tail, hrest, hframed, hleaves⟩ := ih
    rw [hparse] at hframed hleaves
    have hencode := encode_frame_read (length_take_of_le (Nat.le_of_not_lt hlong)) (hpayload ▸ hheader)
    refine ⟨stream.take kFrameHeaderSize ++ rest.take payload_size ++ whole, tail, ?_, ?_, hleaves⟩
    · rw [append_assoc, ← hrest, append_assoc, take_append_drop, take_append_drop]
    · exact framed_cons.mpr ⟨_, whole, hpayload.le.trans (Nat.le_of_not_lt hlimit), hencode, hframed, rfl⟩

theorem run_error_iff (stream : Bytes) (message : String) :
    (run (FrameDecoder.feed limit) .start stream).2 = .error message ↔
      message = "SV2 frame payload exceeds the configured limit" ∧
        ∃ frames whole tail, stream = whole ++ tail ∧ Framed limit frames whole ∧
          StreamEnd.oversized.Leaves limit tail := by
  have hover : ∀ {frames whole tail}, Framed limit frames whole →
      StreamEnd.oversized.Leaves limit tail →
      (run (FrameDecoder.feed limit) .start (whole ++ tail)).2 =
        .error "SV2 frame payload exceeds the configured limit" := by
    intro frames whole tail hframed ⟨hlong, hlimit⟩
    have hrun := run_oversized (length_take_of_le hlong) rfl hlimit (tail.drop kFrameHeaderSize)
    rw [take_append_drop] at hrun
    rw [run_append, run_framed hframed, resume_ok, hrun]
  constructor
  · intro herror
    obtain ⟨whole, tail, rfl, hframed, hleaves⟩ := parse_stream_framed limit stream
    rw [parse_stream_eq, herror] at hleaves
    have hsame := herror.symm.trans (hover hframed hleaves)
    exact ⟨Except.error.inj hsame, _, whole, tail, rfl, hframed, hleaves⟩
  · rintro ⟨rfl, frames, whole, tail, rfl, hframed, hleaves⟩
    exact hover hframed hleaves

theorem run_start_iff (stream : Bytes) :
    (run (FrameDecoder.feed limit) .start stream).2 = .ok .start ↔
      ∃ frames, Framed limit frames stream := by
  constructor
  · intro hstart
    obtain ⟨whole, tail, rfl, hframed, hleaves⟩ := parse_stream_framed limit stream
    rw [parse_stream_eq, hstart] at hleaves
    have htail : tail = [] := hleaves
    rw [htail, append_nil] at hframed ⊢
    exact ⟨_, hframed⟩
  · rintro ⟨frames, hframed⟩
    rw [run_framed hframed]

end Feed

theorem finish_eq_ok (decoder : FrameDecoder) : decoder.finish = .ok () ↔ decoder.phase = .start := by
  obtain ⟨limit, phase⟩ := decoder
  rw [finish, FramePhase.start]
  cases phase with
  | header header room => cases header <;> simp
  | payload frame payload_size room => simp

/-- However a stream is cut into chunks, `push` returns the frames of its one-shot parse. It throws with
the chunk that brings the last byte of the first header over the limit, and with no other. Encoded frames
come back as they were, and `finish` accepts exactly the streams that end with a frame. -/
theorem FrameDecoder.chunks_decode_as_one_stream (limit : Nat) (chunks : List Bytes) :
    let pushed := (new limit).push_all chunks
    pushed.1 = (parse_stream limit chunks.flatten).1 ∧
    (∀ message, pushed.2 = .error message ↔
      message = "SV2 frame payload exceeds the configured limit" ∧
        ∃ frames whole tail, chunks.flatten = whole ++ tail ∧ Framed limit frames whole ∧
          kFrameHeaderSize ≤ tail.length ∧ limit < (read_header (tail.take kFrameHeaderSize)).2) ∧
    (∀ frames, Framed limit frames chunks.flatten →
      pushed = (frames, .ok (new limit))) ∧
    (∀ decoder, pushed.2 = .ok decoder →
      (decoder.finish = .ok () ↔ ∃ frames, Framed limit frames chunks.flatten)) := by
  intro pushed
  have hpushed : pushed = _ := push_all_eq .start chunks
  refine ⟨?_, ?_, ?_, ?_⟩
  · rw [hpushed, parse_stream_eq]
  · intro message
    rw [hpushed]
    refine Iff.trans ?_ (run_error_iff chunks.flatten message)
    cases (Transducer.run (FrameDecoder.feed limit) .start chunks.flatten).2 <;> simp [Except.map]
  · intro frames hframed
    rw [hpushed, run_framed hframed]
    rfl
  · intro decoder hdecoder
    rw [hpushed] at hdecoder
    rw [finish_eq_ok, ← run_start_iff]
    cases hrun : (Transducer.run (FrameDecoder.feed limit) .start chunks.flatten).2 with
    | error message =>
      rw [hrun] at hdecoder
      cases hdecoder
    | ok phase =>
      rw [hrun] at hdecoder
      cases hdecoder
      simp

/-- Two frames in three chunks, cut inside the first header and inside the second. -/
theorem FrameDecoder.chunks_decode_as_one_stream_cut :
    (new 4).push_all [[0, 0x80, 7, 2], [0, 0, 0xaa, 0xbb, 1], [0, 9, 0, 0, 0]] =
      ([⟨0x8000, 7, [0xaa, 0xbb]⟩, ⟨1, 9, []⟩], .ok (new 4)) :=
  (chunks_decode_as_one_stream 4 _).2.2.1 _ ⟨by decide, by decide⟩

end erikslund.sv2
