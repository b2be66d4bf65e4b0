import Mathlib.Data.List.GetD
import SoloPool.Net.ProxyProtocol
import SoloPool.Util.Hex

namespace erikslund.net

open List

open erikslund.util (to_hex to_string)

inductive ProxyHeaderKind where
  | RealAddress
  | Direct
  | Malformed
deriving DecidableEq, Repr

structure ProxyHeaderResult where
  kind : ProxyHeaderKind
  address : Text
  detail : Text
deriving DecidableEq, Repr

/-- The words of a line, without the spaces around them. -/
def split_ws.loop : Text → Text → List Text
  | word, [] => if word.isEmpty then [] else [word]
  | word, character :: rest =>
    if character = ' ' then
      if word.isEmpty then loop [] rest else word :: loop [] rest
    else loop (word ++ [character]) rest

def split_ws (s : Text) : List Text := split_ws.loop [] s

def valid_port (port : Text) : Bool :=
  if port.isEmpty ∨ port.length > 5 then false
  else if ¬ port.all Char.isDigit then false
  else decide (decimal port ≤ 65535)

def parse_proxy_v1 (inet6 : Inet6) (line : Text) : Option Text :=
  match split_ws line with
  | name :: proto :: rest =>
    if name ≠ "PROXY".toList then none
    else if proto ≠ "TCP4".toList ∧ proto ≠ "TCP6".toList then none
    else match rest with
    | [src, _, sport, _] =>
      let ip_ok := if proto = "TCP4".toList then valid_ipv4 src else valid_ipv6 inet6 src
      if ¬ ip_ok ∨ ¬ valid_port sport then none else some (src ++ [':'] ++ sport)
    | _ => none
  | _ => none

def kSig : Bytes := [0x0D, 0x0A, 0x0D, 0x0A, 0x00, 0x0D, 0x0A, 0x51, 0x55, 0x49, 0x54, 0x0A]

/-- Two bytes as a `uint16_t`, the first one on top. -/
def big_endian (data : Bytes) (index : Nat) : Nat := (data.getD index 0).toNat * 256 + (data.getD (index + 1) 0).toNat

/-- `inet_ntop`, by family: an IPv4 address is its four bytes in decimal, the text of an IPv6
address is left to the C library. -/
def inet_ntop4 (address : Bytes) : Text := ['.'].intercalate (address.map fun byte => to_string byte.toNat)

/-- `inet_ntop(AF_INET6, ...)` on the sixteen bytes of an address. -/
abbrev InetNtop6 := Bytes → Text

def parse_proxy_v2 (inet_ntop6 : InetNtop6) (data : Bytes) : Option Text :=
  if data.length < 16 ∨ data.take 12 ≠ kSig then none
  else if data.getD 12 0 >>> 4 ≠ 0x2 then none
  else if data.getD 12 0 &&& 0x0F ≠ 0x1 then none
  else
    let family := data.getD 13 0 >>> 4
    let transport := data.getD 13 0 &&& 0x0F
    let addr_len := big_endian data 14
    let addr := data.drop 16
    if 16 + addr_len > data.length ∨ transport ≠ 0x1 then none
    else if family = 0x1 then
      if addr_len < 12 then none
      else some (inet_ntop4 (addr.take 4) ++ [':'] ++ to_string (big_endian addr 8))
    else if family = 0x2 then
      if addr_len < 36 then none
      else some (inet_ntop6 (addr.take 16) ++ [':'] ++ to_string (big_endian addr 32))
    else none

/-- What a `recv` that `poll` has announced does before the deadline: it fails and is made again,
or it delivers up to `limit + 1` of the bytes asked for. -/
inductive Recv where
  | again
  | deliver (limit : Nat)

/-- A socket before its reader: the bytes of the peer that are not consumed yet, and how the calls
to come split them. The deadline passes when the schedule is over. -/
structure Socket where
  stream : Bytes
  schedule : List Recv

/-- The loop over `recv`, with `left` bytes still to come. -/
def read_exact.loop : List Recv → Bytes → Nat → Bytes → Option Bytes × Socket
  | schedule, stream, 0, buf => (some buf, ⟨stream, schedule⟩)
  | [], stream, _ + 1, _ => (none, ⟨stream, []⟩)
  | .again :: schedule, stream, left + 1, buf => loop schedule stream (left + 1) buf
  | .deliver limit :: schedule, stream, left + 1, buf =>
    let received := stream.take (min (limit + 1) (left + 1))
    if received.isEmpty then (none, ⟨stream, schedule⟩)
    else loop schedule (stream.drop received.length) (left + 1 - received.length) (buf ++ received)

def read_exact (n : Nat) (socket : Socket) : Option Bytes × Socket :=
  read_exact.loop socket.schedule socket.stream n []

namespace read_proxy_header

/-- The branch of version 2. -/
def version2 (inet_ntop6 : InetNtop6) (peek_hex : Text) (socket : Socket) : ProxyHeaderResult × Socket :=
  match read_exact 16 socket with
  | (none, socket) => (⟨.Malformed, [], peek_hex⟩, socket)
  | (some head, socket) =>
    if head.take 12 ≠ kSig ∨ head.getD 12 0 >>> 4 ≠ 0x2 then (⟨.Malformed, [], peek_hex⟩, socket)
    else match read_exact (big_endian head 14) socket with
    | (none, socket) => (⟨.Malformed, [], peek_hex⟩, socket)
    | (some addresses, socket) =>
      let full := head ++ addresses
      if head.getD 12 0 &&& 0x0F = 0x0 then (⟨.Direct, [], []⟩, socket)
      else match parse_proxy_v2 inet_ntop6 full with
      | some addr => (⟨.RealAddress, addr, []⟩, socket)
      | none => (⟨.Malformed, [], to_hex (full.take 32)⟩, socket)

/-- A complete line, without its newline. -/
def complete (inet6 : Inet6) (line : Text) : ProxyHeaderResult :=
  let line := if line.getLast? = some '\r' then line.dropLast else line
  match parse_proxy_v1 inet6 line with
  | some addr => ⟨.RealAddress, addr, []⟩
  | none => ⟨.Direct, [], []⟩

/-- The branch of version 1, with `turns` bytes of the limit left. -/
def version1 (inet6 : Inet6) (peek_hex : Text) : Nat → Text → Socket → ProxyHeaderResult × Socket
  | 0, _, socket => (⟨.Malformed, [], peek_hex⟩, socket)
  | turns + 1, line, socket =>
    match read_exact 1 socket with
    | (none, socket) => (⟨.Malformed, [], peek_hex⟩, socket)
    | (some buf, socket) =>
      let ch := buf.getD 0 0
      if ch = 0x0A then (complete inet6 line, socket)
      else version1 inet6 peek_hex turns (line ++ [Char.ofNat ch.toNat]) socket

end read_proxy_header

/-- The first look at the stream shows `peeked` bytes of it. -/
def read_proxy_header (inet6 : Inet6) (inet_ntop6 : InetNtop6) (peeked : Nat) (socket : Socket) :
    ProxyHeaderResult × Socket :=
  match socket.stream.take (min peeked 16) with
  | [] => (⟨.Direct, [], []⟩, socket)
  | first :: peek =>
    let peek_hex := to_hex (first :: peek)
    if first = 0x0D then read_proxy_header.version2 inet_ntop6 peek_hex socket
    else if first = 0x50 then read_proxy_header.version1 inet6 peek_hex 107 [] socket
    else (⟨.Direct, [], []⟩, socket)

namespace Recv

def delivers : Recv → Bool
  | again => false
  | deliver _ => true

end Recv

/-- The whole stream comes before the deadline, however it is split. -/
def Socket.Arrives (socket : Socket) : Prop := socket.stream.length ≤ socket.schedule.countP Recv.delivers

/-- Sockets with one stream, split in two ways. -/
structure Socket.Alike (a b : Socket) : Prop where
  stream : a.stream = b.stream
  left : a.Arrives
  right : b.Arrives

/-- With bytes enough, the loop ends with the next `left` of them and spends no more deliveries. -/
theorem read_exact.loop_eq (schedule : List Recv) :
    ∀ (stream : Bytes) (left : Nat) (buf : Bytes), left ≤ stream.length →
      left ≤ schedule.countP Recv.delivers → ∃ rest,
        loop schedule stream left buf = (some (buf ++ stream.take left), ⟨stream.drop left, rest⟩) ∧
        schedule.countP Recv.delivers ≤ rest.countP Recv.delivers + left := by
  induction schedule with
  | nil =>
    intro stream left buf hbytes hcount
    obtain rfl : left = 0 := Nat.le_zero.mp hcount
    exact ⟨[], by simp [loop], Nat.le_refl _⟩
  | cons event schedule ih =>
    intro stream left buf hbytes hcount
    cases left with
    | zero => exact ⟨event :: schedule, by simp [loop], Nat.le_refl _⟩
    | succ left =>
      cases event with
      | again =>
        have hnone : (Recv.again :: schedule).countP Recv.delivers = schedule.countP Recv.delivers :=
          countP_cons_of_neg Bool.false_ne_true
        rw [hnone] at hcount ⊢
        exact ih stream (left + 1) buf hbytes hcount
      | deliver limit =>
        have hone : (Recv.deliver limit :: schedule).countP Recv.delivers = schedule.countP Recv.delivers + 1 :=
          countP_cons_of_pos rfl
        rw [hone] at hcount ⊢
        -- one delivery takes at least one byte and at most those asked for
        let size := min (limit + 1) (left + 1)
        have hsize : (stream.take size).length = size := length_take_of_le (by omega)
        have hsome : (stream.take size).isEmpty = false := by
          rw [isEmpty_eq_false_iff, ← length_pos_iff]
          omega
        obtain ⟨rest, hloop, hrest⟩ := ih (stream.drop size) (left + 1 - size) (buf ++ stream.take size)
          (by rw [length_drop]; omega) (by omega)
        refine ⟨rest, ?_, by omega⟩
        have hbytes' : stream.take size ++ (stream.drop size).take (left + 1 - size) = stream.take (left + 1) := by
          rw [← take_add, Nat.add_sub_of_le (by omega)]
        have hdrop : (stream.drop size).drop (left + 1 - size) = stream.drop (left + 1) := by
          rw [drop_drop, Nat.add_sub_of_le (by omega)]
        rw [append_assoc, hbytes', hdrop] at hloop
        rw [← hloop, loop]
        simp only [hsome, Bool.false_eq_true, if_false, hsize, size]

/-- With too few bytes, the loop fails at the end of the stream or at the deadline. -/
theorem read_exact.loop_none (schedule : List Recv) :
    ∀ (stream : Bytes) (left : Nat) (buf : Bytes), stream.length < left →
      (loop schedule stream left buf).1 = none := by
  induction schedule with
  | nil =>
    intro stream left buf hbytes
    obtain ⟨left, rfl⟩ := Nat.exists_eq_add_of_lt (Nat.zero_lt_of_lt hbytes)
    rw [Nat.zero_add, loop]
  | cons event schedule ih =>
    intro stream left buf hbytes
    obtain ⟨left, rfl⟩ := Nat.exists_eq_add_of_lt (Nat.zero_lt_of_lt hbytes)
    rw [Nat.zero_add] at hbytes ⊢
    cases event with
    | again => exact ih stream (left + 1) buf hbytes
    | deliver limit =>
      rw [loop]
      split
      · rfl
      · apply ih
        rw [length_drop, length_take]
        omega

/-- What a read of `n` bytes does when the whole stream comes in time. -/
theorem read_exact_cases {socket : Socket} (harrives : socket.Arrives) (n : Nat) :
    (n ≤ socket.stream.length ∧ ∃ rest : Socket, read_exact n socket = (some (socket.stream.take n), rest) ∧
      rest.stream = socket.stream.drop n ∧ rest.Arrives) ∨
    (socket.stream.length < n ∧ (read_exact n socket).1 = none) := by
  by_cases hbytes : n ≤ socket.stream.length
  · obtain ⟨rest, hloop, hrest⟩ := read_exact.loop_eq socket.schedule socket.stream n [] hbytes
      (Nat.le_trans hbytes harrives)
    refine .inl ⟨hbytes, ⟨socket.stream.drop n, rest⟩, hloop, rfl, ?_⟩
    unfold Socket.Arrives at harrives
    change (socket.stream.drop n).length ≤ rest.countP Recv.delivers
    rw [length_drop]
    omega
  · exact .inr ⟨Nat.lt_of_not_le hbytes, read_exact.loop_none _ _ _ _ (Nat.lt_of_not_le hbytes)⟩

/-- A read of `n` bytes goes alike on two splits of a stream: it takes the next `n` bytes of
both, or fails on both. -/
theorem read_exact_alike {a b : Socket} (halike : a.Alike b) (n : Nat) :
    (∃ buf a' b', read_exact n a = (some buf, a') ∧ read_exact n b = (some buf, b') ∧ buf.length = n ∧
      a.stream = buf ++ a'.stream ∧ a'.Alike b') ∨
    (∃ a' b', read_exact n a = (none, a') ∧ read_exact n b = (none, b')) := by
  rcases read_exact_cases halike.left n with ⟨hbytes, a', ha, hstream, harrives⟩ | ⟨hbytes, ha⟩
  · rcases read_exact_cases halike.right n with ⟨-, b', hb, hstream', harrives'⟩ | ⟨hbytes', -⟩
    · rw [← halike.stream] at hb hstream'
      refine .inl ⟨_, a', b', ha, hb, length_take_of_le hbytes, ?_, ⟨?_, harrives, harrives'⟩⟩
      · rw [hstream, take_append_drop]
      · rw [hstream, hstream']
    · rw [← halike.stream] at hbytes'
      omega
  · rcases read_exact_cases halike.right n with ⟨hbytes', -⟩ | ⟨-, hb⟩
    · rw [← halike.stream] at hbytes'
      omega
    · exact .inr ⟨_, _, Prod.ext ha rfl, Prod.ext hb rfl⟩

/-- The results say the same of the client. -/
def ProxyHeaderResult.Same (a b : ProxyHeaderResult) : Prop := a.kind = b.kind ∧ a.address = b.address

theorem ProxyHeaderResult.Same.refl (a : ProxyHeaderResult) : a.Same a := ⟨rfl, rfl⟩

/-- The bytes of a stream that are its header: none without one of the two first bytes, a line
through its newline in version 1, and in version 2 the fixed part with the addresses it declares. -/
inductive Header (stream : Bytes) : Bytes → Prop where
  | absent (hversion2 : stream.head? ≠ some 0x0D) (hversion1 : stream.head? ≠ some 0x50) : Header stream []
  | version1 (line : Bytes) (hfirst : stream.head? = some 0x50) (hline : 0x0A ∉ line)
      (hlimit : (line ++ [0x0A]).length ≤ 107) : Header stream (line ++ [0x0A])
  | version2 (header : Bytes) (hfirst : stream.head? = some 0x0D)
      (hlength : header.length = 16 + big_endian header 14) : Header stream header

theorem big_endian_append {head : Bytes} (rest : Bytes) {index : Nat} (h : index + 1 < head.length) :
    big_endian (head ++ rest) index = big_endian head index := by
  unfold big_endian
  rw [getD_append _ _ _ _ (by omega), getD_append _ _ _ _ h]

namespace read_proxy_header

theorem version2_alike (inet_ntop6 : InetNtop6) {a b : Socket} (halike : a.Alike b) (hex hex' : Text) :
    (version2 inet_ntop6 hex a).1.Same (version2 inet_ntop6 hex' b).1 ∧
    ((version2 inet_ntop6 hex a).1.kind ≠ .Malformed → ∃ header, header.length = 16 + big_endian header 14 ∧
      a.stream = header ++ (version2 inet_ntop6 hex a).2.stream) := by
  unfold version2
  rcases read_exact_alike halike 16 with ⟨head, a', b', ha, hb, hhead, hstream, halike'⟩ | ⟨a', b', ha, hb⟩
  · simp only [ha, hb]
    by_cases hsig : head.take 12 ≠ kSig ∨ head.getD 12 0 >>> 4 ≠ 0x2
    · simp only [if_pos hsig]
      exact ⟨.refl _, fun h => absurd rfl h⟩
    · simp only [if_neg hsig]
      rcases read_exact_alike halike' (big_endian head 14) with
        ⟨addresses, a'', b'', ha', hb', haddresses, hstream', -⟩ | ⟨a'', b'', ha', hb'⟩
      · simp only [ha', hb']
        have hheader : ∃ header, header.length = 16 + big_endian header 14 ∧ a.stream = header ++ a''.stream := by
          refine ⟨head ++ addresses, ?_, ?_⟩
          · rw [length_append, big_endian_append _ (by omega), hhead, haddresses]
          · rw [hstream, hstream', append_assoc]
        by_cases hlocal : head.getD 12 0 &&& 0x0F = 0x0
        · simp only [if_pos hlocal]
          exact ⟨.refl _, fun _ => hheader⟩
        · simp only [if_neg hlocal]
          cases parse_proxy_v2 inet_ntop6 (head ++ addresses) with
          | some addr => exact ⟨.refl _, fun _ => hheader⟩
          | none => exact ⟨.refl _, fun h => absurd rfl h⟩
      · simp only [ha', hb']
        exact ⟨⟨rfl, rfl⟩, fun h => absurd rfl h⟩
  · simp only [ha, hb]
    exact ⟨⟨rfl, rfl⟩, fun h => absurd rfl h⟩

/-- The bytes are read one at a time, so the line ends at the first newline. -/
theorem version1_alike (inet6 : Inet6) (hex hex' : Text) (turns : Nat) :
    ∀ (line : Text) {a b : Socket}, a.Alike b →
      (version1 inet6 hex turns line a).1.Same (version1 inet6 hex' turns line b).1 ∧
      ((version1 inet6 hex turns line a).1.kind ≠ .Malformed → ∃ taken : Bytes, 0x0A ∉ taken ∧
        (taken ++ [0x0A]).length ≤ turns ∧ a.stream = (taken ++ [0x0A]) ++ (version1 inet6 hex turns line a).2.stream) := by
  induction turns with
  | zero =>
    intro line a b halike
    exact ⟨⟨rfl, rfl⟩, fun h => absurd rfl h⟩
  | succ turns ih =>
    intro line a b halike
    unfold version1
    rcases read_exact_alike halike 1 with ⟨buf, a', b', ha, hb, hbuf, hstream, halike'⟩ | ⟨a', b', ha, hb⟩
    · obtain ⟨ch, rfl⟩ := length_eq_one_iff.mp hbuf
      simp only [ha, hb, getD_cons_zero]
      by_cases hnewline : ch = 0x0A
      · simp only [if_pos hnewline]
        refine ⟨.refl _, fun _ => ⟨[], not_mem_nil, by simp, ?_⟩⟩
        rw [hstream, hnewline]
        rfl
      · simp only [if_neg hnewline]
        obtain ⟨hsame, hheader⟩ := ih (line ++ [Char.ofNat ch.toNat]) halike'
        refine ⟨hsame, fun hkind => ?_⟩
        obtain ⟨taken, hfree, hlimit, htaken⟩ := hheader hkind
        refine ⟨ch :: taken, ?_, ?_, ?_⟩
        · rw [mem_cons, not_or]
          exact ⟨Ne.symm hnewline, hfree⟩
        · rw [cons_append, length_cons]
          omega
        · rw [hstream, htaken]
          rfl
    · simp only [ha, hb]
      exact ⟨⟨rfl, rfl⟩, fun h => absurd rfl h⟩

end read_proxy_header

/-- A split of a stream: the first look shows some of its bytes if there are any, and all of them
are delivered before the deadline. -/
structure Split (stream : Bytes) (peeked : Nat) (schedule : List Recv) : Prop where
  some : 0 < peeked
  most : peeked ≤ 16
  arrives : (Socket.mk stream schedule).Arrives

/-- The first byte alone decides which header is read. -/
theorem read_proxy_header_cons (inet6 : Inet6) (inet_ntop6 : InetNtop6) {peeked : Nat} (hsome : 0 < peeked)
    (first : UInt8) (stream : Bytes) (schedule : List Recv) :
    ∃ peek_hex, read_proxy_header inet6 inet_ntop6 peeked ⟨first :: stream, schedule⟩ =
      if first = 0x0D then read_proxy_header.version2 inet_ntop6 peek_hex ⟨first :: stream, schedule⟩
      else if first = 0x50 then read_proxy_header.version1 inet6 peek_hex 107 [] ⟨first :: stream, schedule⟩
      else (⟨.Direct, [], []⟩, ⟨first :: stream, schedule⟩) := by
  obtain ⟨size, hsize⟩ : ∃ size, min peeked 16 = size + 1 := Nat.exists_eq_succ_of_ne_zero (by omega)
  refine ⟨to_hex (first :: stream.take size), ?_⟩
  unfold read_proxy_header
  rw [hsize, take_succ_cons]

/-- Reading one header shows the same kind and address however the stream is split, and leaves in
the socket just what follows the header. -/
theorem read_proxy_header_exact (inet6 : Inet6) (inet_ntop6 : InetNtop6) {stream : Bytes} {peeked : Nat}
    {schedule : List Recv} (hsplit : Split stream peeked schedule) :
    (∀ peeked' schedule', Split stream peeked' schedule' →
      (read_proxy_header inet6 inet_ntop6 peeked ⟨stream, schedule⟩).1.Same
        (read_proxy_header inet6 inet_ntop6 peeked' ⟨stream, schedule'⟩).1) ∧
    ((read_proxy_header inet6 inet_ntop6 peeked ⟨stream, schedule⟩).1.kind ≠ .Malformed →
      ∃ header, Header stream header ∧
        stream = header ++ (read_proxy_header inet6 inet_ntop6 peeked ⟨stream, schedule⟩).2.stream) ∧
    (stream.head? ≠ some 0x0D → stream.head? ≠ some 0x50 →
      (read_proxy_header inet6 inet_ntop6 peeked ⟨stream, schedule⟩).1.kind = .Direct ∧
      (read_proxy_header inet6 inet_ntop6 peeked ⟨stream, schedule⟩).2.stream = stream) := by
  cases stream with
  | nil =>
    have hempty (peeked : Nat) (schedule : List Recv) :
        read_proxy_header inet6 inet_ntop6 peeked ⟨[], schedule⟩ = (⟨.Direct, [], []⟩, ⟨[], schedule⟩) := by
      unfold read_proxy_header
      rw [take_nil]
    refine ⟨fun peeked' schedule' _ => ?_, fun _ => ⟨[], .absent nofun nofun, ?_⟩, fun _ _ => ?_⟩
    · rw [hempty, hempty]
      exact .refl _
    · rw [hempty]
      rfl
    · rw [hempty]
      exact ⟨rfl, rfl⟩
  | cons first stream =>
    have halike {peeked' : Nat} {schedule' : List Recv} (hsplit' : Split (first :: stream) peeked' schedule') :
        (Socket.mk (first :: stream) schedule).Alike ⟨first :: stream, schedule'⟩ :=
      ⟨rfl, hsplit.arrives, hsplit'.arrives⟩
    obtain ⟨hex, hread⟩ := read_proxy_header_cons inet6 inet_ntop6 hsplit.some first stream schedule
    rw [hread]
    by_cases hversion2 : first = 0x0D
    · subst hversion2
      rw [if_pos rfl]
      refine ⟨fun peeked' schedule' hsplit' => ?_, fun hkind => ?_, fun hnone => absurd rfl hnone⟩
      · obtain ⟨hex', hread'⟩ := read_proxy_header_cons inet6 inet_ntop6 hsplit'.some 0x0D stream schedule'
        rw [hread', if_pos rfl]
        exact (read_proxy_header.version2_alike inet_ntop6 (halike hsplit') hex hex').1
      · obtain ⟨header, hlength, hstream⟩ :=
          (read_proxy_header.version2_alike inet_ntop6 (halike hsplit) hex hex).2 hkind
        exact ⟨header, .version2 header rfl hlength, hstream⟩
    · rw [if_neg hversion2]
      by_cases hversion1 : first = 0x50
      · subst hversion1
        rw [if_pos rfl]
        refine ⟨fun peeked' schedule' hsplit' => ?_, fun hkind => ?_, fun _ hnone => absurd rfl hnone⟩
        · obtain ⟨hex', hread'⟩ := read_proxy_header_cons inet6 inet_ntop6 hsplit'.some 0x50 stream schedule'
          rw [hread', if_neg hversion2, if_pos rfl]
          exact (read_proxy_header.version1_alike inet6 hex hex' 107 [] (halike hsplit')).1
        · obtain ⟨line, hfree, hlimit, hstream⟩ :=
            (read_proxy_header.version1_alike inet6 hex hex 107 [] (halike hsplit)).2 hkind
          exact ⟨line ++ [0x0A], .version1 line rfl hfree hlimit, hstream⟩
      · rw [if_neg hversion1]
        refine ⟨fun peeked' schedule' hsplit' => ?_, fun _ => ⟨[], ?_, rfl⟩, fun _ _ => ⟨rfl, rfl⟩⟩
        · obtain ⟨hex', hread'⟩ := read_proxy_header_cons inet6 inet_ntop6 hsplit'.some first stream schedule'
          rw [hread', if_neg hversion2, if_neg hversion1]
          exact .refl _
        · exact .absent (fun h => hversion2 (Option.some.inj h)) (fun h => hversion1 (Option.some.inj h))

/-- A header of version 1 that comes byte by byte, with the first of the client's own bytes behind it. -/
theorem read_proxy_header_exact_bytewise :
    let line := "PROXY TCP4 192.0.2.7 192.0.2.1 6324 3333\r\n\x7b".toList
    let stream : Bytes := line.map fun character => character.toNat.toUInt8
    let schedule := Recv.again :: replicate 43 (Recv.deliver 0)
    let inet6 : Inet6 := ⟨fun _ => false, fun _ h => (Bool.false_ne_true h).elim⟩
    (read_proxy_header inet6 (fun _ => []) 1 ⟨stream, schedule⟩).1.address = "192.0.2.7:6324".toList ∧
    ∃ header, Header stream header ∧
      stream = header ++ (read_proxy_header inet6 (fun _ => []) 1 ⟨stream, schedule⟩).2.stream := by
  intro line stream schedule inet6
  have hsplit : Split stream 1 schedule := ⟨by decide, by decide, by unfold Socket.Arrives; decide⟩
  exact ⟨by decide, (read_proxy_header_exact inet6 (fun _ => []) hsplit).2.1 (by decide)⟩

end erikslund.net
