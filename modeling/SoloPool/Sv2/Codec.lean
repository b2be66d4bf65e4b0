import SoloPool.Lib.Transducer
import SoloPool.Util.Bytes

namespace erikslund.sv2

open util

def kFrameHeaderSize : Nat := 6

def kMaximumFramePayloadSize : Nat := 0x00ffffff

/-- A `Frame` on the wire, its payload not decoded yet. -/
structure WireFrame where
  extension_type : UInt16
  message_type : UInt8
  payload : Bytes
deriving DecidableEq

structure CodecError where
  message : String
  completed_frames : List WireFrame
deriving DecidableEq

def encode_frame (frame : WireFrame) : Except String Bytes :=
  if frame.payload.length > kMaximumFramePayloadSize then .error "SV2 frame payload exceeds the U24 wire limit"
  else .ok (le16_bytes frame.extension_type ++ [frame.message_type] ++ Radix.le 3 frame.payload.length ++ frame.payload)

/-- What a peer puts on the wire for these frames. -/
def encode_frames (frames : List WireFrame) : Except String Bytes := do
  let pieces ← frames.mapM encode_frame
  return pieces.flatten

/-- The frame a header announces, without its payload, and the size of that payload. -/
def read_header (header : Bytes) : WireFrame × Nat :=
  (⟨UInt16.ofNat (Radix.value (header.take 2)), header.getD 2 0, []⟩, Radix.value (header.drop 3))

/-- What a decoder has of the frame it is reading; `reading_payload_` tells the two apart. A
header or payload that is complete is never kept. -/
inductive FramePhase where
  | header (header : Bytes) (room : header.length < kFrameHeaderSize)
  | payload (frame : WireFrame) (payload_size : Nat) (room : frame.payload.length < payload_size)
deriving DecidableEq

/-- After `reset_frame`. -/
def FramePhase.start : FramePhase := .header [] (by decide)

structure FrameDecoder where
  maximum_payload_size : Nat
  phase : FramePhase
deriving DecidableEq

namespace FrameDecoder

def new (maximum_payload_size : Nat) : FrameDecoder := ⟨maximum_payload_size, .start⟩

def begin_payload (maximum_payload_size : Nat) (header : Bytes) : Except String (WireFrame × Nat) :=
  let (frame, payload_size) := read_header header
  if payload_size > maximum_payload_size then .error "SV2 frame payload exceeds the configured limit"
  else .ok (frame, payload_size)

/-- The end of the loop body: a frame whose payload is complete is handed over. -/
def settle (frame : WireFrame) (payload_size : Nat) : List WireFrame × FramePhase :=
  if h : frame.payload.length < payload_size then ([], .payload frame payload_size h) else ([frame], .start)

/-- The loop of `push`. -/
def push_loop (maximum_payload_size : Nat) (phase : FramePhase) (bytes : Bytes) (completed_frames : List WireFrame) :
    FramePhase × Except CodecError (List WireFrame) :=
  if hempty : bytes = [] then (phase, .ok completed_frames)
  else
    match phase with
    | .header header _ =>
      let bytes_to_copy := min (kFrameHeaderSize - header.length) bytes.length
      let header := header ++ bytes.take bytes_to_copy
      if hshort : header.length < kFrameHeaderSize then
        push_loop maximum_payload_size (.header header hshort) (bytes.drop bytes_to_copy) completed_frames
      else
        match begin_payload maximum_payload_size header with
        | .error message => (.start, .error ⟨message, completed_frames⟩)
        | .ok (frame, payload_size) =>
          let (completed, phase) := settle frame payload_size
          push_loop maximum_payload_size phase (bytes.drop bytes_to_copy) (completed_frames ++ completed)
    | .payload frame payload_size _ =>
      let bytes_to_copy := min (payload_size - frame.payload.length) bytes.length
      let (completed, phase) := settle { frame with payload := frame.payload ++ bytes.take bytes_to_copy } payload_size
      push_loop maximum_payload_size phase (bytes.drop bytes_to_copy) (completed_frames ++ completed)
termination_by bytes.length
decreasing_by
  all_goals
    have hpositive : 0 < bytes.length := List.length_pos_iff.mpr hempty
    simp only [List.length_drop]
    omega

def push (decoder : FrameDecoder) (bytes : Bytes) : FrameDecoder × Except CodecError (List WireFrame) :=
  let (phase, result) := push_loop decoder.maximum_payload_size decoder.phase bytes []
  ({ decoder with phase }, result)

def finish (decoder : FrameDecoder) : Except String Unit :=
  match decoder.phase with
  | .header [] _ => .ok ()
  | _ => .error "truncated SV2 frame"

/-- Push chunk after chunk until one of them throws: the frames returned, with those the exception
carries, and the decoder or the text of the exception. -/
def push_all (decoder : FrameDecoder) : List Bytes → List WireFrame × Except String FrameDecoder
  | [] => ([], .ok decoder)
  | chunk :: chunks =>
    match decoder.push chunk with
    | (decoder, .ok frames) =>
      let (more, result) := decoder.push_all chunks
      (frames ++ more, result)
    | (_, .error error) => (error.completed_frames, .error error.message)

end FrameDecoder

/-- Where a stream of frames ends. -/
inductive StreamEnd where
  | boundary
  | truncated
  | oversized
deriving DecidableEq

/-- The frames of a whole stream at once. -/
def parse_stream (maximum_payload_size : Nat) (stream : Bytes) : List WireFrame × StreamEnd :=
  if stream = [] then ([], .boundary)
  else if hheader : stream.length < kFrameHeaderSize then ([], .truncated)
  else
    let (frame, payload_size) := read_header (stream.take kFrameHeaderSize)
    let rest := stream.drop kFrameHeaderSize
    if payload_size > maximum_payload_size then ([], .oversized)
    else if rest.length < payload_size then ([], .truncated)
    else
      let (frames, ending) := parse_stream maximum_payload_size (rest.drop payload_size)
      ({ frame with payload := rest.take payload_size } :: frames, ending)
termination_by stream.length
decreasing_by
  simp only [kFrameHeaderSize, List.length_drop] at hheader ⊢
  omega

end erikslund.sv2
