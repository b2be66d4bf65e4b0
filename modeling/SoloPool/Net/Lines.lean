import Mathlib.Data.List.Induction
import SoloPool.Util.Bytes

/-! How an SV1 connection cuts what it reads into lines. -/

namespace erikslund.net

open List Option

def kReadChunkBytes : Nat := 4096

def kMaxReadBytesPerEvent : Nat := 32 * 1024

def newline : UInt8 := 10

def carriage_return : UInt8 := 13

/-- The complete lines of a text after the bytes that wait, and the bytes that wait after them. -/
def scan (residue : Bytes) : Bytes → List Bytes × Bytes
  | [] => ([], residue)
  | byte :: rest =>
    if byte = newline then (residue :: (scan [] rest).1, (scan [] rest).2) else scan (residue ++ [byte]) rest

/-- The line without one carriage return at its end. -/
def strip_line (line : Bytes) : Bytes := if line.getLast? = some carriage_return then line.dropLast else line

/-- The lines that `handle_line` is called with. -/
def dispatched (lines : List Bytes) : List Bytes := (lines.map strip_line).filter (fun line => ¬ line.isEmpty)

/-- A connection that reads lines; `lines` records those given to the session, oldest first. -/
structure LineReader where
  buffer : Bytes
  lines : List Bytes
  removed : Bool
deriving DecidableEq

namespace LineReader

def init : LineReader := ⟨[], [], false⟩

/-- One `recv`, of a session that does not close the connection. -/
def receive (max_line_bytes : Nat) (reader : LineReader) (chunk : Bytes) : LineReader :=
  let cut := scan [] (reader.buffer ++ chunk)
  { buffer := cut.2, lines := reader.lines ++ dispatched cut.1, removed := decide (cut.2.length > max_line_bytes) }

/-- The loop over what `recv` returns, until the socket is drained, the connection is removed or
the event has used up its budget. -/
def handle_readable (max_line_bytes : Nat) : Nat → LineReader → List Bytes → LineReader
  | _, reader, [] => reader
  | consumed_this_event, reader, chunk :: chunks =>
    let reader := reader.receive max_line_bytes chunk
    if reader.removed then reader
    else if consumed_this_event + chunk.length ≥ kMaxReadBytesPerEvent then reader
    else handle_readable max_line_bytes (consumed_this_event + chunk.length) reader chunks

/-- Events of a connection that has not been removed. -/
def run (max_line_bytes : Nat) : LineReader → List (List Bytes) → LineReader
  | reader, [] => reader
  | reader, event :: events =>
    let reader := reader.handle_readable max_line_bytes 0 event
    if reader.removed then reader else run max_line_bytes reader events

/-- The chunks of one event: each fits the read buffer, and only the last may use up the budget. -/
def Received : Nat → List Bytes → Prop
  | _, [] => True
  | consumed_this_event, chunk :: chunks =>
    0 < chunk.length ∧ chunk.length ≤ kReadChunkBytes ∧
      (consumed_this_event + chunk.length ≥ kMaxReadBytesPerEvent → chunks = []) ∧
      Received (consumed_this_event + chunk.length) chunks

end LineReader

/-- A line too long to be given to the session. -/
def Overlong (max_line_bytes : Nat) (line : Bytes) : Prop := max_line_bytes < (strip_line line).length

instance (max_line_bytes : Nat) (line : Bytes) : Decidable (Overlong max_line_bytes line) :=
  inferInstanceAs (Decidable (_ < _))

/-- Which line of a stream is the first that is too long, the last one perhaps unfinished. -/
def first_overlong (max_line_bytes : Nat) (stream : Bytes) : Option Nat :=
  ((scan [] stream).1 ++ [(scan [] stream).2]).findIdx? (fun line => Overlong max_line_bytes line)

/-- The positions of a stream at which its chunks end, the first chunk being read from `position` on. -/
def chunk_ends (position : Nat) : List Bytes → List Nat
  | [] => []
  | chunk :: chunks => (position + chunk.length) :: chunk_ends (position + chunk.length) chunks

/-- Which line of a stream a position is in. -/
def line_at (stream : Bytes) (position : Nat) : Nat := (stream.take position).count newline

/-- How much of that line is in front of the position. -/
def waiting (stream : Bytes) (position : Nat) : Nat :=
  ((stream.take position).reverse.takeWhile (· ≠ newline)).length

/-- Which line is the first that more than `max_line_bytes` of are in front of one of the positions. -/
def first_shown (max_line_bytes : Nat) (stream : Bytes) (positions : List Nat) : Option Nat :=
  (positions.find? (fun position => max_line_bytes < waiting stream position)).map (line_at stream)

/-- The lines of a stream before the given one. -/
def lines_before (stream : Bytes) (index : Option Nat) : List Bytes :=
  dispatched ((scan [] stream).1.take (index.getD (scan [] stream).1.length))

section Scan

variable {residue : Bytes}

theorem scan_append (residue bytes more : Bytes) : scan residue (bytes ++ more) =
    ((scan residue bytes).1 ++ (scan (scan residue bytes).2 more).1, (scan (scan residue bytes).2 more).2) := by
  induction bytes generalizing residue with
  | nil => rfl
  | cons byte bytes ih =>
    rw [cons_append, scan, scan]
    split
    · rw [ih, cons_append]
    · exact ih _

/-- What waits has no line in it. -/
theorem scan_residue (bytes : Bytes) (h : newline ∉ residue) : newline ∉ (scan residue bytes).2 := by
  induction bytes generalizing residue with
  | nil => exact h
  | cons byte bytes ih =>
    rw [scan]
    split
    · exact ih not_mem_nil
    · rename_i hbyte
      apply ih
      rw [mem_append, mem_singleton]
      exact fun hmem => hmem.elim h (fun heq => hbyte heq.symm)

theorem scan_free (residue : Bytes) {bytes : Bytes} (h : newline ∉ bytes) : scan residue bytes = ([], residue ++ bytes) := by
  induction bytes generalizing residue with
  | nil => rw [scan, append_nil]
  | cons byte bytes ih =>
    rw [mem_cons, not_or] at h
    rw [scan, if_neg (fun heq => h.1 heq.symm), ih _ h.2, append_assoc, singleton_append]

/-- What waits is the beginning of the next line. -/
theorem scan_begins (residue bytes : Bytes) : ∀ line ∈ (scan residue bytes).1.head?, residue <+: line := by
  induction bytes generalizing residue with
  | nil => exact fun line hmem => absurd hmem (by simp [scan])
  | cons byte bytes ih =>
    rw [scan]
    split
    · intro line hmem
      rw [head?_cons, mem_some_iff] at hmem
      exact hmem ▸ prefix_rfl
    · intro line hmem
      exact (prefix_append _ _).trans (ih _ line hmem)

/-- The buffer is all that has to be kept of what was read. -/
theorem scan_buffer (before chunk : Bytes) : scan [] ((scan [] before).2 ++ chunk) =
    scan (scan [] before).2 chunk := by
  rw [scan_append, scan_free [] (scan_residue before not_mem_nil), nil_append]
  rfl

theorem scan_lines_length (bytes : Bytes) : (scan residue bytes).1.length = bytes.count newline := by
  induction bytes generalizing residue with
  | nil => rfl
  | cons byte bytes ih =>
    rw [scan, count_cons]
    split
    · rename_i hbyte
      rw [length_cons, ih, hbyte, beq_self_eq_true, if_pos rfl]
    · rename_i hbyte
      rw [ih, if_neg (by simpa using hbyte), Nat.add_zero]

theorem scan_residue_length (bytes : Bytes) :
    (scan [] bytes).2.length = (bytes.reverse.takeWhile (· ≠ newline)).length := by
  induction bytes using reverseRecOn with
  | nil => rfl
  | append_singleton bytes byte ih =>
    rw [scan_append, reverse_concat, takeWhile_cons, scan]
    by_cases hbyte : byte = newline
    · simp [hbyte, scan]
    · simp [hbyte, scan, ih]

/-- The next chunk shows too much, of the line it ends in, or a later one does. -/
theorem first_shown_cons (max_line_bytes : Nat) (before chunk : Bytes) (chunks : List Bytes) :
    first_shown max_line_bytes (before ++ (chunk :: chunks).flatten) (chunk_ends before.length (chunk :: chunks)) =
      if max_line_bytes < (scan [] (before ++ chunk)).2.length then some (scan [] (before ++ chunk)).1.length
      else first_shown max_line_bytes (before ++ chunk ++ chunks.flatten)
        (chunk_ends (before ++ chunk).length chunks) := by
  have htake : (before ++ chunk ++ chunks.flatten).take (before.length + chunk.length) = before ++ chunk := by
    rw [← length_append, take_left]
  rw [flatten_cons, ← append_assoc, first_shown, chunk_ends, find?_cons, waiting, htake,
    ← scan_residue_length]
  split
  · rename_i hshown
    rw [if_pos (of_decide_eq_true hshown), map_some, line_at, htake, scan_lines_length]
  · rename_i hshown
    rw [if_neg (of_decide_eq_false hshown), length_append]
    rfl

end Scan

namespace LineReader

variable {max_line_bytes : Nat}

/-- All the chunks one after the other, until the connection is removed. -/
def receive_all (max_line_bytes : Nat) : LineReader → List Bytes → LineReader
  | reader, [] => reader
  | reader, chunk :: chunks =>
    let reader := reader.receive max_line_bytes chunk
    if reader.removed then reader else receive_all max_line_bytes reader chunks

variable {reader : LineReader} {before : Bytes}

theorem receive_all_append (hkept : reader.removed = false) (chunks more : List Bytes) :
    receive_all max_line_bytes reader (chunks ++ more) =
      if (receive_all max_line_bytes reader chunks).removed then receive_all max_line_bytes reader chunks
      else receive_all max_line_bytes (receive_all max_line_bytes reader chunks) more := by
  induction chunks generalizing reader with
  | nil => rw [nil_append, receive_all, if_neg (by rw [hkept]; exact Bool.false_ne_true)]
  | cons chunk chunks ih =>
    rw [cons_append, receive_all, receive_all]
    split
    · rfl
    · rename_i hnext
      exact ih (Bool.eq_false_iff.mpr hnext)

/-- The budget of an event only decides when the next chunk is read. -/
theorem handle_readable_eq {consumed : Nat} {chunks : List Bytes} (h : Received consumed chunks) :
    handle_readable max_line_bytes consumed reader chunks = receive_all max_line_bytes reader chunks := by
  induction chunks generalizing consumed reader with
  | nil => rfl
  | cons chunk chunks ih =>
    obtain ⟨-, -, hbudget, hrest⟩ := h
    rw [handle_readable, receive_all]
    split
    · rfl
    · split
      · rename_i hspent
        rw [hbudget hspent]
        rfl
      · exact ih hrest

theorem run_eq (hkept : reader.removed = false) {events : List (List Bytes)}
    (hevents : ∀ event ∈ events, Received 0 event) :
    run max_line_bytes reader events = receive_all max_line_bytes reader events.flatten := by
  induction events generalizing reader with
  | nil => rfl
  | cons event events ih =>
    obtain ⟨hevent, hrest⟩ := forall_mem_cons.mp hevents
    rw [run, flatten_cons, receive_all_append hkept, handle_readable_eq hevent]
    split
    · rfl
    · rename_i hnext
      exact ih (Bool.eq_false_iff.mpr hnext) hrest

/-- What has been read of a stream, while the connection is kept. -/
structure Reads (reader : LineReader) (before : Bytes) : Prop where
  buffer : reader.buffer = (scan [] before).2
  lines : reader.lines = dispatched (scan [] before).1

theorem dispatched_append (lines lines' : List Bytes) :
    dispatched (lines ++ lines') = dispatched lines ++ dispatched lines' := by
  rw [dispatched, map_append, filter_append]
  rfl

theorem Reads.receive (h : reader.Reads before) (chunk : Bytes) :
    (reader.receive max_line_bytes chunk).Reads (before ++ chunk) := by
  have hcut : scan [] (reader.buffer ++ chunk) = scan (scan [] before).2 chunk := by rw [h.buffer, scan_buffer]
  constructor
  · rw [LineReader.receive, hcut, scan_append]
  · rw [LineReader.receive, hcut, scan_append, dispatched_append, h.lines]

theorem receive_removed (h : reader.Reads before) (chunk : Bytes) :
    (reader.receive max_line_bytes chunk).removed = decide ((scan [] (before ++ chunk)).2.length > max_line_bytes) := by
  have hbuffer : (reader.receive max_line_bytes chunk).buffer = _ := (h.receive chunk).buffer
  rw [← hbuffer]
  rfl

/-- A run ends at the first chunk that leaves too much waiting, with the lines before that one. -/
theorem receive_all_spec (max_line_bytes : Nat) (h : reader.Reads before)
    (hkept : reader.removed = false) (chunks : List Bytes) :
    (receive_all max_line_bytes reader chunks).removed =
        (first_shown max_line_bytes (before ++ chunks.flatten) (chunk_ends before.length chunks)).isSome ∧
      (receive_all max_line_bytes reader chunks).lines = lines_before (before ++ chunks.flatten)
        (first_shown max_line_bytes (before ++ chunks.flatten) (chunk_ends before.length chunks)) := by
  induction chunks generalizing reader before with
  | nil =>
    refine ⟨hkept, ?_⟩
    rw [receive_all, h.lines, lines_before, flatten_nil, append_nil, first_shown, chunk_ends, find?_nil,
      map_none, getD_none, take_length]
  | cons chunk chunks ih =>
    have hnext : (reader.receive max_line_bytes chunk).Reads (before ++ chunk) := h.receive chunk
    have hremoved : (reader.receive max_line_bytes chunk).removed = _ := receive_removed h chunk
    rw [receive_all, first_shown_cons, flatten_cons, ← append_assoc]
    by_cases hshown : (scan [] (before ++ chunk)).2.length > max_line_bytes
    · rw [decide_eq_true hshown] at hremoved
      rw [if_pos hremoved, if_pos hshown]
      refine ⟨hremoved, ?_⟩
      rw [hnext.lines, lines_before, getD_some, scan_append [] (before ++ chunk), take_left]
    · rw [decide_eq_false hshown] at hremoved
      rw [if_neg (by rw [hremoved]; exact Bool.false_ne_true), if_neg hshown]
      exact ih hnext hremoved

end LineReader

section Cut

variable {max_line_bytes : Nat}

/-- A line that is given to the session lengthens what was given before it. -/
theorem dispatched_take_lt {lines : List Bytes} {index index' : Nat} (hlt : index < index') (hindex : index < lines.length)
    (hline : strip_line lines[index] ≠ []) :
    (dispatched (lines.take index)).length < (dispatched (lines.take index')).length := by
  have hsplit : lines.take index' = lines.take index ++ lines[index] :: (lines.take index').drop (index + 1) := by
    have hinside : index < (lines.take index').length := by
      rw [length_take]
      omega
    have hfront : (lines.take index').take index = lines.take index := by
      rw [take_take, min_eq_left hlt.le]
    have hhead := drop_eq_getElem_cons hinside
    rw [getElem_take] at hhead
    rw [← hhead, ← hfront, take_append_drop]
  rw [hsplit, LineReader.dispatched_append, length_append]
  have hkept : dispatched (lines[index] :: (lines.take index').drop (index + 1)) =
      strip_line lines[index] :: dispatched ((lines.take index').drop (index + 1)) := by
    rw [dispatched, map_cons, filter_cons_of_pos (by simpa using hline)]
    rfl
  rw [hkept, length_cons]
  omega

theorem strip_line_length (line : Bytes) : line.length ≤ (strip_line line).length + 1 := by
  rw [strip_line]
  split
  · rw [length_dropLast]
    omega
  · omega

/-- The line of which too much waits is itself too long, if it is ever finished. -/
theorem first_shown_long {before : Bytes} {chunks : List Bytes} {index : Nat}
    (h : first_shown max_line_bytes (before ++ chunks.flatten) (chunk_ends before.length chunks) = some index)
    (hindex : index < (scan [] (before ++ chunks.flatten)).1.length) :
    max_line_bytes < (scan [] (before ++ chunks.flatten)).1[index].length := by
  induction chunks generalizing before with
  | nil => cases h
  | cons chunk chunks ih =>
    rw [first_shown_cons] at h
    simp only [flatten_cons, ← append_assoc] at hindex ⊢
    split at h
    · rename_i hshown
      rw [Option.some.injEq] at h
      subst h
      simp only [scan_append [] (before ++ chunk), length_append] at hindex ⊢
      have hnext : 0 < (scan (scan [] (before ++ chunk)).2 chunks.flatten).1.length := by omega
      have hbegins := scan_begins (scan [] (before ++ chunk)).2 chunks.flatten _
        (head?_eq_getElem? ▸ getElem?_eq_getElem hnext)
      rw [getElem_append_right (Nat.le_refl _)]
      simp only [Nat.sub_self]
      exact hshown.trans_le hbegins.length_le
    · exact ih h hindex

theorem first_overlong_long {stream : Bytes} {index : Nat} (h : first_overlong max_line_bytes stream = some index)
    (hindex : index < (scan [] stream).1.length) : Overlong max_line_bytes (scan [] stream).1[index] := by
  obtain ⟨hlt, hfound, -⟩ := findIdx?_eq_some_iff_getElem.mp h
  rw [getElem_append_left hindex] at hfound
  exact of_decide_eq_true hfound

theorem first_overlong_le {stream : Bytes} {index : Nat} (h : first_overlong max_line_bytes stream = some index) :
    index ≤ (scan [] stream).1.length := by
  obtain ⟨hlt, -, -⟩ := findIdx?_eq_some_iff_getElem.mp h
  rw [length_append, length_singleton] at hlt
  omega

theorem first_shown_le {before : Bytes} {chunks : List Bytes} {index : Nat}
    (h : first_shown max_line_bytes (before ++ chunks.flatten) (chunk_ends before.length chunks) = some index) :
    index ≤ (scan [] (before ++ chunks.flatten)).1.length := by
  induction chunks generalizing before with
  | nil => cases h
  | cons chunk chunks ih =>
    rw [first_shown_cons] at h
    rw [flatten_cons, ← append_assoc]
    split at h
    · rw [Option.some.injEq] at h
      rw [← h, scan_append [] (before ++ chunk), length_append]
      exact Nat.le_add_right _ _
    · exact ih h

/-- No line before the first that is too long is itself too long. -/
theorem lines_before_overlong (stream : Bytes) :
    ∀ line ∈ lines_before stream (first_overlong max_line_bytes stream), line.length ≤ max_line_bytes := by
  intro line hmem
  obtain ⟨raw, hraw, rfl⟩ := mem_map.mp (mem_filter.mp hmem).1
  apply Nat.le_of_not_lt
  cases hfirst : first_overlong max_line_bytes stream with
  | none =>
    have hall := findIdx?_eq_none_iff.mp hfirst raw (mem_append_left _ (mem_of_mem_take hraw))
    exact of_decide_eq_false hall
  | some index =>
    rw [hfirst, getD_some] at hraw
    obtain ⟨position, hposition, rfl⟩ := mem_iff_getElem.mp hraw
    obtain ⟨_, _, hbefore⟩ := findIdx?_eq_some_iff_getElem.mp hfirst
    rw [length_take] at hposition
    have hnot := hbefore position (by omega)
    rw [getElem_append_left (by omega)] at hnot
    rw [getElem_take]
    exact fun hlong => hnot (decide_eq_true hlong)

end Cut

/-- The lines given to the session are those of the stream before the first that is too long, and
the connection is removed at that one, exactly when that line is also the first of which more
than `max_line_bytes` wait at the end of a chunk. -/
theorem lines_as_sent (max_line_bytes : Nat) {events : List (List Bytes)}
    (hevents : ∀ event ∈ events, LineReader.Received 0 event) :
    (first_shown max_line_bytes events.flatten.flatten (chunk_ends 0 events.flatten) =
        first_overlong max_line_bytes events.flatten.flatten →
      (LineReader.init.run max_line_bytes events).lines =
          lines_before events.flatten.flatten (first_overlong max_line_bytes events.flatten.flatten) ∧
        (LineReader.init.run max_line_bytes events).removed =
          (first_overlong max_line_bytes events.flatten.flatten).isSome ∧
        ∀ line ∈ (LineReader.init.run max_line_bytes events).lines, line.length ≤ max_line_bytes) ∧
    (0 < max_line_bytes →
      (LineReader.init.run max_line_bytes events).lines =
        lines_before events.flatten.flatten (first_overlong max_line_bytes events.flatten.flatten) →
      (LineReader.init.run max_line_bytes events).removed =
        (first_overlong max_line_bytes events.flatten.flatten).isSome →
      first_shown max_line_bytes events.flatten.flatten (chunk_ends 0 events.flatten) =
        first_overlong max_line_bytes events.flatten.flatten) := by
  have hstart : LineReader.init.Reads [] := ⟨rfl, rfl⟩
  obtain ⟨hremoved, hlines⟩ := LineReader.receive_all_spec max_line_bytes hstart rfl events.flatten
  rw [← LineReader.run_eq rfl hevents, nil_append, length_nil] at hlines hremoved
  constructor
  · intro hfirst
    rw [hfirst] at hremoved hlines
    refine ⟨hlines, hremoved, ?_⟩
    rw [hlines]
    exact lines_before_overlong _
  · intro hpositive hsame hflag
    rw [hlines] at hsame
    rw [hremoved] at hflag
    cases hshown : first_shown max_line_bytes events.flatten.flatten (chunk_ends 0 events.flatten) with
    | none =>
      rw [hshown, isSome_none, eq_comm, isSome_eq_false_iff, isNone_iff_eq_none] at hflag
      exact hflag.symm
    | some shown =>
      rw [hshown, isSome_some, eq_comm, isSome_iff_exists] at hflag
      obtain ⟨overlong, hoverlong⟩ := hflag
      rw [hshown, hoverlong, lines_before, lines_before, getD_some, getD_some] at hsame
      rw [hoverlong, Option.some.injEq]
      have hsize := congrArg List.length hsame
      have hlong := @first_shown_long max_line_bytes [] events.flatten shown hshown
      have hle := @first_shown_le max_line_bytes [] events.flatten shown hshown
      rw [nil_append] at hle
      simp only [nil_append] at hlong
      rcases Nat.lt_trichotomy shown overlong with hlt | heq | hgt
      · have hindex : shown < (scan [] events.flatten.flatten).1.length := hlt.trans_le (first_overlong_le hoverlong)
        have hstripped := strip_line_length (scan [] events.flatten.flatten).1[shown]
        have hmore := dispatched_take_lt hlt hindex (by
          intro hempty
          rw [hempty, length_nil] at hstripped
          have hwait := hlong hindex
          omega)
        omega
      · exact heq
      · have hindex : overlong < (scan [] events.flatten.flatten).1.length := hgt.trans_le hle
        have hover := first_overlong_long hoverlong hindex
        have hmore := dispatched_take_lt hgt hindex (by
          intro hempty
          rw [Overlong, hempty] at hover
          exact absurd hover (Nat.not_lt_zero _))
        omega

namespace ShortLines

/-- Five letters, and the newline after them. -/
def letters : Bytes := [104, 101, 108, 108, 111]

end ShortLines

open ShortLines in
/-- With lines of at most four bytes, five letters that arrive with their newline are given to
the session; the same letters read before the newline end the connection. -/
theorem overlong_line_delivered :
    LineReader.init.run 4 [[letters ++ [newline]]] = ⟨[], [letters], false⟩ ∧
      LineReader.init.run 4 [[letters, [newline]]] = ⟨letters, [], true⟩ := by
  decide

open ShortLines in
theorem lines_as_sent_cut :
    (LineReader.init.run 4 [[letters, [newline]]]).lines = [] ∧
      (LineReader.init.run 4 [[letters, [newline]]]).removed = true := by
  obtain ⟨hlines, hremoved, -⟩ := (@lines_as_sent 4 [[letters, [newline]]] (by
    intro event hmem
    rw [mem_singleton.mp hmem]
    exact ⟨by decide, by decide, by decide, by decide, by decide, by decide, trivial⟩)).1 (by decide)
  exact ⟨hlines, hremoved⟩

end erikslund.net
