import SoloPool.Lib.Run
import SoloPool.Util.Bytes

namespace erikslund.net

open List

def kMaxOutboxBytes : Nat := 64 * 1024

/-- What one `::send` of the unsent bytes does: the kernel takes `count + 1` of them, or all if
there are fewer; or the call is interrupted, finds the socket full, or fails in another way. -/
inductive Send where
  | wrote (count : Nat)
  | interrupted
  | full
  | failed

/-- A connection with what the kernel knows of it: the bytes handed over, and in which epoll
instances it waits for `EPOLLOUT`. -/
structure SocketConnection where
  outbox : Bytes := []
  outbox_pos : Nat := 0
  epollout_armed : Bool := false
  corked : Bool := false
  epoll_fd : Option Nat := none
  dead : Bool := false
  sent : Bytes := []
  interest : Nat → Bool := fun _ => false

namespace SocketConnection

/-- The queued bytes the kernel has not taken. -/
def unsent (conn : SocketConnection) : Bytes := conn.outbox.drop conn.outbox_pos

def fail_locked (conn : SocketConnection) : SocketConnection :=
  { conn with dead := true, outbox := [], outbox_pos := 0 }

def arm_write_interest_locked (want_write : Bool) (conn : SocketConnection) : SocketConnection :=
  match conn.epoll_fd with
  | none => conn
  | some epoll_fd =>
    if want_write = conn.epollout_armed then conn
    else { conn with
      interest := fun epoll => if epoll = epoll_fd then want_write else conn.interest epoll
      epollout_armed := want_write }

/-- The loop over `::send`; `false` stands for its hard error. The calls end with a full socket
where their outcomes do. -/
def drain_locked.loop : List Send → SocketConnection → Bool × SocketConnection
  | [], conn => (true, conn)
  | outcome :: outcomes, conn =>
    if conn.outbox_pos < conn.outbox.length then
      match outcome with
      | .wrote count =>
        let written := conn.unsent.take (count + 1)
        loop outcomes { conn with
          sent := conn.sent ++ written
          outbox_pos := conn.outbox_pos + written.length }
      | .interrupted => loop outcomes conn
      | .full => (true, conn)
      | .failed => (false, conn)
    else (true, conn)

def drain_locked (outcomes : List Send) (conn : SocketConnection) : Bool × SocketConnection :=
  match drain_locked.loop outcomes conn with
  | (false, conn) => (false, conn)
  | (true, conn) =>
    if conn.outbox_pos = conn.outbox.length then
      (true, { conn with outbox := [], outbox_pos := 0 })
    else (true, conn)

/-- How `flush_after_enqueue_locked`, `uncork` and `flush_outbox` all end. -/
def flush_locked (outcomes : List Send) (conn : SocketConnection) : Bool × SocketConnection :=
  match drain_locked outcomes conn with
  | (false, conn) => (false, conn.fail_locked)
  | (true, conn) =>
    (true, conn.arm_write_interest_locked (decide (conn.outbox_pos < conn.outbox.length)))

def flush_after_enqueue_locked (outcomes : List Send) (conn : SocketConnection) : SocketConnection :=
  if conn.outbox.length > kMaxOutboxBytes then conn.fail_locked
  else if conn.corked then conn
  else (flush_locked outcomes conn).2

/-- The outbox without the bytes that are sent. -/
def compact (conn : SocketConnection) : SocketConnection :=
  if conn.outbox_pos > 0 then
    { conn with outbox := conn.outbox.drop conn.outbox_pos, outbox_pos := 0 }
  else conn

def enqueue (message : Bytes) (outcomes : List Send) (conn : SocketConnection) : SocketConnection :=
  if conn.dead then conn
  else
    let compacted := conn.compact
    flush_after_enqueue_locked outcomes { compacted with outbox := compacted.outbox ++ message }

/-- The lines of a message, each with its newline. -/
def framed (lines : List Bytes) : Bytes := lines.flatMap fun line => line ++ [0x0A]

def send_lines (lines : List Bytes) (outcomes : List Send) (conn : SocketConnection) : SocketConnection :=
  conn.enqueue (framed lines) outcomes

def send_bytes (bytes : Bytes) (outcomes : List Send) (conn : SocketConnection) : SocketConnection :=
  conn.enqueue bytes outcomes

def cork (conn : SocketConnection) : SocketConnection := { conn with corked := true }

def uncork (outcomes : List Send) (conn : SocketConnection) : SocketConnection :=
  let uncorked := { conn with corked := false }
  if conn.dead then uncorked else (flush_locked outcomes uncorked).2

def flush_outbox (outcomes : List Send) (conn : SocketConnection) : Bool × SocketConnection :=
  if conn.dead then (false, conn) else flush_locked outcomes conn

def attach_reactor (epoll_fd : Nat) (conn : SocketConnection) : SocketConnection :=
  { conn with epoll_fd := some epoll_fd }

def detach_reactor (conn : SocketConnection) : SocketConnection :=
  { conn with dead := true, epoll_fd := none }

/-- A call of one of the threads; `write_mutex_` puts the calls in one order. -/
inductive Call where
  | send_lines (lines : List Bytes) (outcomes : List Send)
  | send_bytes (bytes : Bytes) (outcomes : List Send)
  | cork
  | uncork (outcomes : List Send)
  | flush_outbox (outcomes : List Send)
  | attach_reactor (epoll_fd : Nat)
  | detach_reactor

def step (conn : SocketConnection) : Call → SocketConnection
  | .send_lines lines outcomes => conn.send_lines lines outcomes
  | .send_bytes bytes outcomes => conn.send_bytes bytes outcomes
  | .cork => conn.cork
  | .uncork outcomes => conn.uncork outcomes
  | .flush_outbox outcomes => (conn.flush_outbox outcomes).2
  | .attach_reactor epoll_fd => conn.attach_reactor epoll_fd
  | .detach_reactor => conn.detach_reactor

/-- The message a call brings. -/
def Call.message : Call → Bytes
  | .send_lines lines _ => framed lines
  | .send_bytes bytes _ => bytes
  | .cork | .uncork _ | .flush_outbox _ | .attach_reactor _ | .detach_reactor => []

/-- The messages of the calls made while the connection was alive, one after the other. -/
def enqueued : SocketConnection → List Call → Bytes
  | _, [] => []
  | conn, call :: calls =>
    (if conn.dead then [] else call.message) ++ enqueued (conn.step call) calls

/-- A drain takes bytes from the front of those unsent and changes only the outbox. -/
inductive Drained (conn : SocketConnection) : SocketConnection → Prop where
  | mk (written outbox : Bytes) (outbox_pos : Nat) (hunsent : conn.unsent = written ++ outbox.drop outbox_pos)
      (hpos : outbox_pos ≤ outbox.length) (hlength : outbox.length ≤ conn.outbox.length) :
      Drained conn { conn with
        outbox := outbox, outbox_pos := outbox_pos, sent := conn.sent ++ written }

namespace Drained

theorem refl {conn : SocketConnection} (hpos : conn.outbox_pos ≤ conn.outbox.length) :
    Drained conn conn := by
  have hself : Drained conn { conn with sent := conn.sent ++ [] } :=
    .mk [] conn.outbox conn.outbox_pos rfl hpos (Nat.le_refl _)
  rwa [append_nil] at hself

theorem trans {a b c : SocketConnection} (hab : Drained a b) (hbc : Drained b c) : Drained a c := by
  obtain ⟨written, outbox, outbox_pos, hunsent, -, hlength⟩ := hab
  obtain ⟨written', outbox', outbox_pos', hunsent', hpos', hlength'⟩ := hbc
  have hboth : a.unsent = (written ++ written') ++ outbox'.drop outbox_pos' := by
    rw [hunsent, append_assoc, ← hunsent']
    rfl
  have h := Drained.mk (written ++ written') outbox' outbox_pos' hboth hpos' (Nat.le_trans hlength' hlength)
  rwa [← append_assoc] at h

/-- One `::send` that takes bytes. -/
theorem wrote {conn : SocketConnection} (hpos : conn.outbox_pos ≤ conn.outbox.length) (count : Nat) :
    Drained conn { conn with
      sent := conn.sent ++ conn.unsent.take count
      outbox_pos := conn.outbox_pos + (conn.unsent.take count).length } := by
  refine .mk (conn.unsent.take count) conn.outbox _ ?_ ?_ (Nat.le_refl _)
  · have hsplit := take_append_drop count conn.unsent
    have hrest : conn.outbox.drop (conn.outbox_pos + (conn.unsent.take count).length) =
        conn.unsent.drop count := by
      calc conn.outbox.drop (conn.outbox_pos + (conn.unsent.take count).length)
        _ = conn.unsent.drop (conn.unsent.take count).length := drop_drop.symm
        _ = (conn.unsent.take count ++ conn.unsent.drop count).drop
              (conn.unsent.take count).length := by rw [hsplit]
        _ = conn.unsent.drop count := drop_left
    rw [hrest, hsplit]
  · rw [length_take, unsent, length_drop]
    omega

/-- What is unsent after a drain that took everything is nothing. -/
theorem clear {conn : SocketConnection} (hpos : conn.outbox_pos = conn.outbox.length) :
    Drained conn { conn with outbox := [], outbox_pos := 0 } := by
  have hunsent : conn.unsent = [] := by
    rw [unsent, hpos, drop_length]
  have h : Drained conn { conn with outbox := [], outbox_pos := 0, sent := conn.sent ++ [] } :=
    .mk [] [] 0 hunsent (Nat.le_refl _) (Nat.zero_le _)
  rwa [append_nil] at h

theorem pos_le {a b : SocketConnection} (h : Drained a b) : b.outbox_pos ≤ b.outbox.length := by
  cases h
  assumption

end Drained

theorem drain_locked.loop_drained (outcomes : List Send) :
    ∀ {conn : SocketConnection}, conn.outbox_pos ≤ conn.outbox.length →
      Drained conn (loop outcomes conn).2 := by
  induction outcomes with
  | nil =>
    intro conn hpos
    exact .refl hpos
  | cons outcome outcomes ih =>
    intro conn hpos
    unfold loop
    split
    · cases outcome with
      | wrote count =>
        have hwrote := Drained.wrote hpos (count + 1)
        exact hwrote.trans (ih hwrote.pos_le)
      | interrupted => exact ih hpos
      | full => exact .refl hpos
      | failed => exact .refl hpos
    · exact .refl hpos

variable {conn : SocketConnection} {epoll : Nat}

theorem drain_locked_drained (outcomes : List Send)
    (hpos : conn.outbox_pos ≤ conn.outbox.length) :
    Drained conn (drain_locked outcomes conn).2 := by
  have hloop := drain_locked.loop_drained outcomes hpos
  unfold drain_locked
  cases hresult : drain_locked.loop outcomes conn with
  | mk ok drained =>
    rw [hresult] at hloop
    cases ok with
    | false => exact hloop
    | true =>
      by_cases hall : drained.outbox_pos = drained.outbox.length
      · simp only [if_pos hall]
        exact hloop.trans (.clear hall)
      · simp only [if_neg hall]
        exact hloop

/-- How a flush ends: after a hard error, or with interest in `EPOLLOUT` for what is unsent. -/
theorem flush_locked_cases (outcomes : List Send)
    (hpos : conn.outbox_pos ≤ conn.outbox.length) : ∃ drained, Drained conn drained ∧
      ((flush_locked outcomes conn).2 = drained.fail_locked ∨
        (flush_locked outcomes conn).2 =
          drained.arm_write_interest_locked (decide (drained.outbox_pos < drained.outbox.length))) := by
  have hdrained := drain_locked_drained outcomes hpos
  unfold flush_locked
  cases hresult : drain_locked outcomes conn with
  | mk ok drained =>
    rw [hresult] at hdrained
    cases ok with
    | false => exact ⟨drained, hdrained, .inl rfl⟩
    | true => exact ⟨drained, hdrained, .inr rfl⟩

/-- Arming changes the interest alone, and with it that of the epoll instance in use. -/
theorem arm_write_interest_locked_cases (want_write : Bool) (conn : SocketConnection) :
    ∃ armed interest, conn.arm_write_interest_locked want_write =
      { conn with epollout_armed := armed, interest := interest } ∧
      (conn.epoll_fd.isSome = true → armed = want_write) ∧
      ∀ epoll, (∀ epoll_fd ∈ conn.epoll_fd, epoll_fd = epoll) →
        conn.interest epoll = conn.epollout_armed → interest epoll = armed := by
  unfold arm_write_interest_locked
  split
  · rename_i hnone
    refine ⟨conn.epollout_armed, conn.interest, rfl, fun hsome => ?_, fun _ _ h => h⟩
    rw [hnone] at hsome
    exact absurd hsome Bool.false_ne_true
  · rename_i epoll_fd hepoll
    split
    · rename_i hsame
      exact ⟨conn.epollout_armed, conn.interest, rfl, fun _ => hsame.symm, fun _ _ h => h⟩
    · exact ⟨want_write, _, rfl, fun _ => rfl, fun epoll hone _ => if_pos (hone epoll_fd hepoll).symm⟩

theorem compact_eq (conn : SocketConnection) :
    conn.compact = { conn with outbox := conn.unsent, outbox_pos := 0 } := by
  unfold compact unsent
  split
  · rfl
  · have hzero : conn.outbox_pos = 0 := by omega
    rw [hzero, drop_zero, ← hzero]

/-- The connection with a message behind the bytes that are unsent. -/
def queued (conn : SocketConnection) (message : Bytes) : SocketConnection :=
  { conn with outbox := conn.unsent ++ message, outbox_pos := 0 }

/-- What bringing a message does to a connection that is alive. -/
theorem enqueue_cases (halive : conn.dead = false) (message : Bytes)
    (outcomes : List Send) :
    conn.enqueue message outcomes = (conn.queued message).fail_locked ∨
    (conn.queued message).outbox.length ≤ kMaxOutboxBytes ∧
      (conn.corked = true ∧ conn.enqueue message outcomes = conn.queued message ∨
        conn.enqueue message outcomes = (flush_locked outcomes (conn.queued message)).2) := by
  have henqueue : conn.enqueue message outcomes =
      flush_after_enqueue_locked outcomes (conn.queued message) := by
    unfold enqueue queued
    rw [if_neg (by rw [halive]; exact Bool.false_ne_true), compact_eq]
  rw [henqueue]
  unfold flush_after_enqueue_locked
  by_cases hover : (conn.queued message).outbox.length > kMaxOutboxBytes
  · rw [if_pos hover]
    exact .inl rfl
  · rw [if_neg hover]
    refine .inr ⟨Nat.le_of_not_lt hover, ?_⟩
    by_cases hcorked : conn.corked = true
    · exact .inl ⟨hcorked, if_pos hcorked⟩
    · exact .inr (if_neg hcorked)

theorem unsent_ne_nil :
    conn.unsent ≠ [] ↔ conn.outbox_pos < conn.outbox.length := by
  rw [unsent, Ne, drop_eq_nil_iff, Nat.not_le]

/-- The connection has handed over a first part of `stream`, and all of it but the unsent bytes
while it is alive. -/
structure Carries (conn : SocketConnection) (stream : Bytes) : Prop where
  pos : conn.outbox_pos ≤ conn.outbox.length
  sent : conn.sent <+: stream
  alive : conn.dead = false → conn.sent ++ conn.unsent = stream
  bound : conn.outbox.length ≤ kMaxOutboxBytes

namespace Carries

variable {conn : SocketConnection} {stream : Bytes}

theorem drained {after : SocketConnection} (h : conn.Carries stream) (halive : conn.dead = false)
    (hdrained : Drained conn after) : after.Carries stream := by
  obtain ⟨written, outbox, outbox_pos, hunsent, hpos, hlength⟩ := hdrained
  have hstream := h.alive halive
  rw [hunsent, ← append_assoc] at hstream
  exact ⟨hpos, ⟨_, hstream⟩, fun _ => hstream, Nat.le_trans hlength h.bound⟩

theorem fail (hsent : conn.sent <+: stream) : conn.fail_locked.Carries stream :=
  ⟨Nat.le_refl _, hsent, fun hdead => absurd hdead Bool.false_ne_true.symm, Nat.zero_le _⟩

theorem arm (h : conn.Carries stream) (want_write : Bool) :
    (conn.arm_write_interest_locked want_write).Carries stream := by
  obtain ⟨armed, interest, harm, -⟩ := arm_write_interest_locked_cases want_write conn
  rw [harm]
  exact ⟨h.pos, h.sent, h.alive, h.bound⟩

theorem flush (h : conn.Carries stream) (halive : conn.dead = false) (outcomes : List Send) :
    (flush_locked outcomes conn).2.Carries stream := by
  obtain ⟨after, hdrained, hfail | harm⟩ := flush_locked_cases outcomes h.pos
  · rw [hfail]
    exact .fail (h.drained halive hdrained).sent
  · rw [harm]
    exact (h.drained halive hdrained).arm _

theorem queue (h : conn.Carries stream) (halive : conn.dead = false) (message : Bytes)
    (hbound : (conn.queued message).outbox.length ≤ kMaxOutboxBytes) :
    (conn.queued message).Carries (stream ++ message) := by
  have hstream : conn.sent ++ (conn.unsent ++ message) = stream ++ message := by
    rw [← append_assoc, h.alive halive]
  exact ⟨Nat.zero_le _, h.sent.trans (prefix_append _ _), fun _ => hstream, hbound⟩

theorem enqueue (h : conn.Carries stream) (halive : conn.dead = false) (message : Bytes)
    (outcomes : List Send) : (conn.enqueue message outcomes).Carries (stream ++ message) := by
  obtain hfail | ⟨hbound, ⟨-, hqueued⟩ | hflush⟩ := enqueue_cases halive message outcomes
  · rw [hfail]
    exact .fail (h.sent.trans (prefix_append _ _))
  · rw [hqueued]
    exact h.queue halive message hbound
  · rw [hflush]
    exact (h.queue halive message hbound).flush halive outcomes

/-- A call puts its message at the end of the stream, unless the connection is dead. -/
theorem step (h : conn.Carries stream) (call : Call) :
    (conn.step call).Carries (stream ++ if conn.dead then [] else call.message) := by
  have hsend (message : Bytes) (outcomes : List Send) : (conn.enqueue message outcomes).Carries
      (stream ++ if conn.dead then [] else message) := by
    cases hdead : conn.dead with
    | true =>
      unfold SocketConnection.enqueue
      rw [if_pos hdead, if_pos rfl, append_nil]
      exact h
    | false =>
      rw [if_neg Bool.false_ne_true]
      exact h.enqueue hdead message outcomes
  have hquiet : stream ++ (if conn.dead then [] else ([] : Bytes)) = stream := by
    rw [ite_self, append_nil]
  cases call with
  | send_lines lines outcomes => exact hsend (framed lines) outcomes
  | send_bytes bytes outcomes => exact hsend bytes outcomes
  | cork =>
    rw [Call.message, hquiet]
    exact ⟨h.pos, h.sent, h.alive, h.bound⟩
  | uncork outcomes =>
    rw [Call.message, hquiet]
    have huncorked : Carries { conn with corked := false } stream := ⟨h.pos, h.sent, h.alive, h.bound⟩
    change (conn.uncork outcomes).Carries stream
    unfold uncork
    split
    · exact huncorked
    · rename_i halive
      exact huncorked.flush (Bool.eq_false_of_not_eq_true halive) outcomes
  | flush_outbox outcomes =>
    rw [Call.message, hquiet]
    change (conn.flush_outbox outcomes).2.Carries stream
    unfold flush_outbox
    split
    · exact h
    · rename_i halive
      exact h.flush (Bool.eq_false_of_not_eq_true halive) outcomes
  | attach_reactor epoll_fd =>
    rw [Call.message, hquiet]
    exact ⟨h.pos, h.sent, h.alive, h.bound⟩
  | detach_reactor =>
    rw [Call.message, hquiet]
    exact ⟨h.pos, h.sent, fun hdead => absurd hdead Bool.false_ne_true.symm, h.bound⟩

theorem run (h : conn.Carries stream) (calls : List Call) :
    (Transition.run SocketConnection.step conn calls).Carries (stream ++ conn.enqueued calls) := by
  induction calls generalizing conn stream with
  | nil =>
    rw [enqueued, append_nil]
    exact h
  | cons call calls ih =>
    rw [enqueued, ← append_assoc]
    exact ih (h.step call)

end Carries

/-- While the connection is alive it has a reactor, and outside a cork it waits for `EPOLLOUT`
just if bytes are unsent. -/
structure Armed (conn : SocketConnection) : Prop where
  attached : conn.dead = false → conn.epoll_fd.isSome = true
  armed : conn.dead = false → conn.corked = false →
    (conn.epollout_armed = true ↔ conn.unsent ≠ [])

/-- The kernel waits for `EPOLLOUT` in the one epoll instance in use just if the flag says so. -/
structure Watched (epoll : Nat) (conn : SocketConnection) : Prop where
  one : ∀ epoll_fd ∈ conn.epoll_fd, epoll_fd = epoll
  interest : conn.interest epoll = conn.epollout_armed

theorem Armed.dead (hdead : conn.dead = true) : conn.Armed := by
  constructor
  · intro halive
    rw [hdead] at halive
    exact absurd halive Bool.false_ne_true.symm
  · intro halive
    rw [hdead] at halive
    exact absurd halive Bool.false_ne_true.symm

/-- Every flush leaves the interest right, whatever it was before. -/
theorem Armed.flush (hpos : conn.outbox_pos ≤ conn.outbox.length)
    (hattached : conn.epoll_fd.isSome = true) (outcomes : List Send) :
    (flush_locked outcomes conn).2.Armed := by
  obtain ⟨drained, hdrained, hfail | harm⟩ := flush_locked_cases outcomes hpos
  · rw [hfail]
    exact .dead rfl
  · rw [harm]
    obtain ⟨armed, interest, heq, harmed, -⟩ :=
      arm_write_interest_locked_cases (decide (drained.outbox_pos < drained.outbox.length)) drained
    have hkept : drained.epoll_fd = conn.epoll_fd := by
      cases hdrained
      rfl
    rw [← hkept] at hattached
    rw [heq]
    refine ⟨fun _ => hattached, fun _ _ => ?_⟩
    change armed = true ↔ drained.unsent ≠ []
    rw [harmed hattached, decide_eq_true_eq, unsent_ne_nil]

theorem Watched.flush (hpos : conn.outbox_pos ≤ conn.outbox.length) (h : conn.Watched epoll)
    (outcomes : List Send) : (flush_locked outcomes conn).2.Watched epoll := by
  obtain ⟨drained, hdrained, hend⟩ := flush_locked_cases outcomes hpos
  have hdrained' : drained.Watched epoll := by
    cases hdrained
    exact ⟨h.one, h.interest⟩
  rcases hend with hfail | harm
  · rw [hfail]
    exact ⟨hdrained'.one, hdrained'.interest⟩
  · rw [harm]
    obtain ⟨armed, interest, heq, -, hinterest⟩ :=
      arm_write_interest_locked_cases (decide (drained.outbox_pos < drained.outbox.length)) drained
    rw [heq]
    exact ⟨hdrained'.one, hinterest epoll hdrained'.one hdrained'.interest⟩

theorem Armed.step (hpos : conn.outbox_pos ≤ conn.outbox.length)
    (h : conn.Armed) (call : Call) : (conn.step call).Armed := by
  have hsend (message : Bytes) (outcomes : List Send) : (conn.enqueue message outcomes).Armed := by
    cases hdead : conn.dead with
    | true =>
      unfold enqueue
      rw [if_pos hdead]
      exact h
    | false =>
      obtain hfail | ⟨-, ⟨hcorked, hqueued⟩ | hflush⟩ := enqueue_cases hdead message outcomes
      · rw [hfail]
        exact .dead rfl
      · rw [hqueued]
        exact ⟨h.attached, fun _ huncorked => absurd (hcorked.symm.trans huncorked) Bool.false_ne_true.symm⟩
      · have hstart : (conn.queued message).outbox_pos ≤ (conn.queued message).outbox.length :=
          Nat.zero_le _
        rw [hflush]
        exact Armed.flush hstart (h.attached hdead) outcomes
  cases call with
  | send_lines lines outcomes => exact hsend (framed lines) outcomes
  | send_bytes bytes outcomes => exact hsend bytes outcomes
  | cork => exact ⟨h.attached, fun _ huncorked => absurd huncorked Bool.false_ne_true.symm⟩
  | uncork outcomes =>
    let uncorked : SocketConnection := { conn with corked := false }
    have hpos' : uncorked.outbox_pos ≤ uncorked.outbox.length := hpos
    change (conn.uncork outcomes).Armed
    unfold uncork
    split
    · rename_i hdead
      exact .dead hdead
    · rename_i halive
      exact Armed.flush hpos' (h.attached (Bool.eq_false_of_not_eq_true halive)) outcomes
  | flush_outbox outcomes =>
    change (conn.flush_outbox outcomes).2.Armed
    unfold flush_outbox
    split
    · exact h
    · rename_i halive
      exact .flush hpos (h.attached (Bool.eq_false_of_not_eq_true halive)) outcomes
  | attach_reactor epoll_fd => exact ⟨fun _ => rfl, h.armed⟩
  | detach_reactor => exact .dead rfl

theorem Watched.step
    (hpos : conn.outbox_pos ≤ conn.outbox.length) (h : conn.Watched epoll) {call : Call}
    (hcall : ∀ epoll_fd, call = .attach_reactor epoll_fd → epoll_fd = epoll) :
    (conn.step call).Watched epoll := by
  have hsend (message : Bytes) (outcomes : List Send) : (conn.enqueue message outcomes).Watched epoll := by
    have hqueued : (conn.queued message).Watched epoll := ⟨h.one, h.interest⟩
    cases hdead : conn.dead with
    | true =>
      unfold enqueue
      rw [if_pos hdead]
      exact h
    | false =>
      obtain heq | ⟨-, ⟨-, heq⟩ | heq⟩ := enqueue_cases hdead message outcomes
      · rw [heq]
        exact ⟨hqueued.one, hqueued.interest⟩
      · rw [heq]
        exact hqueued
      · have hstart : (conn.queued message).outbox_pos ≤ (conn.queued message).outbox.length :=
          Nat.zero_le _
        rw [heq]
        exact Watched.flush hstart hqueued outcomes
  cases call with
  | send_lines lines outcomes => exact hsend (framed lines) outcomes
  | send_bytes bytes outcomes => exact hsend bytes outcomes
  | cork => exact ⟨h.one, h.interest⟩
  | uncork outcomes =>
    let uncorked : SocketConnection := { conn with corked := false }
    have hpos' : uncorked.outbox_pos ≤ uncorked.outbox.length := hpos
    have huncorked : uncorked.Watched epoll := ⟨h.one, h.interest⟩
    change (conn.uncork outcomes).Watched epoll
    unfold uncork
    split
    · exact huncorked
    · exact Watched.flush hpos' huncorked outcomes
  | flush_outbox outcomes =>
    change (conn.flush_outbox outcomes).2.Watched epoll
    unfold flush_outbox
    split
    · exact h
    · exact Watched.flush hpos h outcomes
  | attach_reactor epoll_fd =>
    refine ⟨fun attached hattached => ?_, h.interest⟩
    rw [← Option.some.inj hattached]
    exact hcall epoll_fd rfl
  | detach_reactor => exact ⟨nofun, h.interest⟩

end SocketConnection

end erikslund.net
