import Mathlib.Algebra.Order.BigOperators.Group.List
import Mathlib.Algebra.Order.Group.Nat
import Mathlib.Data.List.Induction
import SoloPool.Lib.Cells
import SoloPool.Net.Reactor

namespace erikslund.net

open List

/-- The clients an effect adds. -/
def Effect.added : Effect → Nat
  | .add_client _ => 1
  | _ => 0

theorem count_release_slot (conn : ClientConnection) : conn.release_slot.count .leave_pending = 0 := by
  refine count_eq_zero.mpr fun hmem => ?_
  cases eq_of_mem_release_slot hmem

theorem count_incoming_release_slot (incoming : IncomingConnection) :
    incoming.release_slot.count .leave_pending = 0 := by
  refine count_eq_zero.mpr fun hmem => ?_
  cases eq_of_mem_incoming_release_slot hmem

namespace ServerWorker

variable {worker after : ServerWorker} {effect : Effect}

/-- The connections the reactor has yet to take off `pending`. -/
def unsettled (worker : ServerWorker) : Nat :=
  worker.incoming.length + worker.batch.length + (if worker.adoption.isSome then 1 else 0) +
    worker.todo.count .leave_pending

/-- A reactor that is not shutting down and has counted all its connections in `pending`. -/
structure Running (worker : ServerWorker) : Prop where
  unstopped : worker.stop_requested = false
  ordinary : ∀ operation ∈ worker.todo, operation.Ordinary
  counted : (worker.unsettled : Int) ≤ worker.pending

theorem queued_le_unsettled (worker : ServerWorker) : worker.queued ≤ worker.unsettled := by
  unfold queued unsettled
  cases worker.adoption with
  | none => simp
  | some adoption =>
    cases adoption <;> simp
    omega

open Effect

/-- A reactor's step takes no connection into its queue, and the client it adds leaves it. -/
theorem Stepped.queued (h : Stepped worker after effect) : after.queued + effect.added ≤ worker.queued := by
  cases h with
  | begun incoming batch htodo hadoption hbatch =>
    simp only [ServerWorker.queued, hadoption, hbatch, length_cons, added]
    omega
  | drained hidle =>
    simp only [ServerWorker.queued, hidle.adoption, hidle.batch, length_nil, added]
    omega
  | constructed incoming htodo hadoption => simp [ServerWorker.queued, hadoption, added]
  | unopened incoming htodo hadoption => simp [ServerWorker.queued, hadoption, added]
  | registered conn htodo hadoption => simp [ServerWorker.queued, hadoption, added]
  | abandoned conn effect htodo hadoption heffect =>
    rcases heffect with rfl | rfl <;> simp [ServerWorker.queued, hadoption, added]
  | emplaced conn htodo hadoption => simp [ServerWorker.queued, hadoption, added]
  | refused conn todo htodo hadoption => simp [ServerWorker.queued, hadoption, added]
  | closed rest htodo =>
    simp only [ServerWorker.queued, length_nil, added]
    omega
  | _ => exact Nat.le_refl _

/-- Whatever leaves the reactor's hands leaves `pending` later. -/
theorem Stepped.unsettled (h : Stepped worker after effect) (hrunning : worker.Running) :
    (after.unsettled : Int) - after.pending ≤ worker.unsettled - worker.pending := by
  cases h with
  | still => exact Int.le_refl _
  | released fd rest htodo => simp [ServerWorker.unsettled, htodo]
  | removed fd rest htodo => simp [ServerWorker.unsettled, htodo]
  | left rest htodo =>
    simp only [ServerWorker.unsettled, htodo, count_cons_self]
    omega
  | closed rest htodo => exact absurd rfl (hrunning.ordinary _ (htodo ▸ mem_cons_self)).1
  | exited rest htodo => exact absurd rfl (hrunning.ordinary _ (htodo ▸ mem_cons_self)).2
  | begun incoming batch htodo hadoption hbatch =>
    simp only [ServerWorker.unsettled, htodo, hadoption, hbatch, length_cons, Option.isSome_some, Option.isSome_none,
      if_true, Bool.false_eq_true, if_false]
    omega
  | constructed incoming htodo hadoption => simp [ServerWorker.unsettled, htodo, hadoption]
  | unopened incoming htodo hadoption =>
    simp [ServerWorker.unsettled, htodo, hadoption, count_incoming_release_slot]
  | registered conn htodo hadoption => simp [ServerWorker.unsettled, htodo, hadoption]
  | abandoned conn effect htodo hadoption =>
    simp [ServerWorker.unsettled, htodo, hadoption, count_release_slot]
  | emplaced conn htodo hadoption => simp [ServerWorker.unsettled, htodo, hadoption]
  | refused conn todo htodo hadoption hperm =>
    simp [ServerWorker.unsettled, htodo, hadoption, hperm.count_eq, count_release_slot]
  | drained hidle =>
    simp [ServerWorker.unsettled, hidle.batch, hidle.todo, hidle.adoption]
  | completed index conn hidle =>
    simp [ServerWorker.unsettled, hidle.todo, count_release_slot]
  | dropped index conn hidle =>
    simp [ServerWorker.unsettled, hidle.todo, count_release_slot]
  | shut hidle hstop =>
    rw [hrunning.unstopped] at hstop
    cases hstop

theorem Stepped.running (h : Stepped worker after effect) (hrunning : worker.Running) : after.Running := by
  have hless := h.unsettled hrunning
  have hcounted := hrunning.counted
  rcases h.ordinary hrunning.ordinary with ⟨hstop, -, hordinary⟩ | ⟨hstop, -⟩
  · exact ⟨hstop.trans hrunning.unstopped, hordinary, by omega⟩
  · rw [hrunning.unstopped] at hstop
    cases hstop

theorem Running.delivered (h : worker.Running) (incoming : IncomingConnection) :
    Running { worker with incoming := worker.incoming ++ [incoming], pending := worker.pending + 1 } := by
  refine ⟨h.unstopped, h.ordinary, ?_⟩
  have hcounted := h.counted
  simp only [ServerWorker.unsettled, length_append, length_singleton] at hcounted ⊢
  omega

theorem queued_delivered (worker : ServerWorker) (incoming : IncomingConnection) (pending : Int) :
    queued { worker with incoming := worker.incoming ++ [incoming], pending := pending } = worker.queued + 1 := by
  simp only [queued, length_append, length_singleton]
  omega

end ServerWorker

/-- What a reader holds of `proxy_pending`. -/
def Reader.counted : Reader → Nat
  | .reading _ | .leaving => 1
  | _ => 0

theorem Reader.proxied_le_counted (reader : Reader) : reader.proxied ≤ reader.counted := by
  cases reader <;> simp [proxied, counted]

/-- The connections the acceptor has read past when `next` is the next counter of a reactor. -/
def Server.behind (s : Server) (next : Nat) : Nat := s.proxied + ((s.workers.take next).map ServerWorker.queued).sum

/-- What the acceptor can rely on where it is. The connections it has read past have all been
counted; once it has decided there is room, nobody but itself takes it. -/
def Acceptor.Reliable (setup : ServerSetup) (s : Server) : Acceptor → Prop
  | .counting _ next pending_total => (s.behind next : Int) ≤ pending_total
  | .loading peer seen | .reserving peer seen _ | .admitted peer seen =>
    s.live < setup.max_clients ∧ (peer.protocol ≠ .Sv1 → seen < sv2_admission_limit setup.max_clients)
  | _ => True

/-- The connection the acceptor has found room for, with what it saw. -/
def Acceptor.seen : Acceptor → Option (Accepted × Nat)
  | .loading peer seen | .reserving peer seen _ | .admitted peer seen => some (peer, seen)
  | _ => none

namespace Server

variable {setup : ServerSetup} {s s' : Server}

/-- The counters the acceptor reads miss no connection, while it runs. -/
structure Counters (s : Server) : Prop where
  workers_running : ∀ worker ∈ s.workers, worker.Running
  proxied_counted : ((s.proxy_queue.length + (s.readers.map Reader.counted).sum : Nat) : Int) ≤
    s.proxy_pending + if s.acceptor = .noting then 1 else 0

structure Bounded (setup : ServerSetup) (s : Server) : Prop where
  live_le : s.live ≤ setup.max_clients
  admissions : ∀ admission ∈ s.admissions, admission.protocol ≠ .Sv1 →
    admission.seen < sv2_admission_limit setup.max_clients
  reliable : s.acceptor.Reliable setup s
  counters : s.acceptor ≠ .stopped → s.Counters

/-- A step of a reader or a reactor: no connection is added, or moved behind the acceptor. -/
structure Shrunk (s s' : Server) : Prop where
  live_le : s'.live ≤ s.live
  behind_le : ∀ next, s'.behind next ≤ s.behind next
  acceptor : s'.acceptor = s.acceptor
  admissions : s'.admissions = s.admissions

theorem Bounded.shrunk (h : s.Bounded setup) (hshrunk : Shrunk s s')
    (hcounters : s.acceptor ≠ .stopped → s'.Counters) : s'.Bounded setup := by
  refine ⟨Nat.le_trans hshrunk.live_le h.live_le, hshrunk.admissions ▸ h.admissions, ?_, hshrunk.acceptor ▸ hcounters⟩
  have hreliable := h.reliable
  have hlive := hshrunk.live_le
  rw [hshrunk.acceptor]
  cases hacceptor : s.acceptor with
  | counting peer next pending_total =>
    rw [hacceptor] at hreliable
    have hbehind := hshrunk.behind_le next
    simp only [Acceptor.Reliable] at hreliable ⊢
    omega
  | loading peer seen =>
    rw [hacceptor] at hreliable
    exact ⟨Nat.lt_of_le_of_lt hlive hreliable.1, hreliable.2⟩
  | reserving peer seen count =>
    rw [hacceptor] at hreliable
    exact ⟨Nat.lt_of_le_of_lt hlive hreliable.1, hreliable.2⟩
  | admitted peer seen =>
    rw [hacceptor] at hreliable
    exact ⟨Nat.lt_of_le_of_lt hlive hreliable.1, hreliable.2⟩
  | _ => trivial

/-- A delivery adds one connection to one queue, and counts it. -/
theorem deliver_to_worker_spec (s : Server) (worker_index : Nat) (incoming : IncomingConnection) :
    ∃ workers, s.deliver_to_worker worker_index incoming = { s with workers := workers } ∧
      (workers.map ServerWorker.queued).sum ≤ (s.workers.map ServerWorker.queued).sum + 1 ∧
      (∀ next, ((workers.take next).map ServerWorker.queued).sum ≤
        ((s.workers.take next).map ServerWorker.queued).sum + 1) ∧
      ((∀ worker ∈ s.workers, worker.Running) → ∀ worker ∈ workers, worker.Running) := by
  unfold deliver_to_worker
  split
  · exact ⟨s.workers, rfl, Nat.le_add_right _ _, fun _ => Nat.le_add_right _ _, id⟩
  · rename_i worker hworker
    have hgrown := Nat.le_of_eq (worker.queued_delivered incoming (worker.pending + 1))
    have htake := fun next => Cells.sum_take_set_le ServerWorker.queued hworker hgrown next
    have hwhole := htake s.workers.length
    rw [take_of_length_le (Nat.le_of_eq length_set), take_length] at hwhole
    refine ⟨_, rfl, hwhole, htake, fun hrunning => Cells.forall_set hrunning ?_⟩
    exact (hrunning worker (mem_of_getElem? hworker)).delivered incoming

theorem clients_apply_effect (s : Server) (effect : Effect) :
    ∃ clients incomplete released, s.apply_effect effect =
      { s with clients := clients, incomplete_noise_handshakes := incomplete, released := released } ∧
      clients.length ≤ s.clients.length + effect.added := by
  cases effect with
  | none => exact ⟨_, _, _, rfl, Nat.le_refl _⟩
  | add_client fd => exact ⟨_, _, _, rfl, Nat.le_of_eq length_append⟩
  | remove_client fd => exact ⟨_, _, _, rfl, length_filter_le _ _⟩
  | release_noise_handshake fd => exact ⟨_, _, _, rfl, Nat.le_refl _⟩

theorem Bounded.worker_step (h : s.Bounded setup) (index : Nat) (choice : Choice) :
    (s.worker_step index choice).Bounded setup := by
  unfold Server.worker_step
  split
  · exact h
  rename_i worker hworker
  have hstep := worker.stepped choice
  have hmem := mem_of_getElem? hworker
  change Bounded setup (apply_effect { s with workers := s.workers.set index (worker.step choice).1 } (worker.step choice).2)
  generalize (worker.step choice).1 = after at hstep ⊢
  generalize (worker.step choice).2 = effect at hstep ⊢
  have hqueued := hstep.queued
  have hless : after.queued ≤ worker.queued + 0 := by omega
  have hsum := Cells.sum_set ServerWorker.queued hworker after
  obtain ⟨clients, incomplete, released, heq, hclients⟩ :=
    clients_apply_effect { s with workers := s.workers.set index after } effect
  rw [heq]
  refine h.shrunk ⟨?_, fun next => ?_, rfl, rfl⟩ fun hacceptor => ⟨?_, (h.counters hacceptor).proxied_counted⟩
  · simp only [live, proxied] at hclients ⊢
    omega
  · exact Nat.add_le_add_left (Cells.sum_take_set_le ServerWorker.queued hworker hless next) _
  · have hrunning := (h.counters hacceptor).workers_running
    exact Cells.forall_set hrunning (hstep.running (hrunning worker hmem))

/-- A reader that changes place, with no delivery. -/
theorem sum_readers {index : Nat} {before : Reader} (hreader : s.readers[index]? = some before) (after : Reader) :
    before.proxied + ((s.readers.set index after).map Reader.proxied).sum =
        after.proxied + (s.readers.map Reader.proxied).sum ∧
      before.counted + ((s.readers.set index after).map Reader.counted).sum =
        after.counted + (s.readers.map Reader.counted).sum :=
  ⟨Cells.sum_set Reader.proxied hreader after, Cells.sum_set Reader.counted hreader after⟩

theorem Bounded.reader_step (h : s.Bounded setup) (index : Nat) (malformed : Bool) :
    (s.reader_step index malformed).Bounded setup := by
  unfold Server.reader_step
  split
  · rename_i hreader
    split
    · exact h
    rename_i job rest hqueue
    obtain ⟨hproxied, hcounted⟩ := sum_readers hreader (.reading job)
    simp only [Reader.proxied, Reader.counted] at hproxied hcounted
    refine h.shrunk ⟨?_, fun next => ?_, rfl, rfl⟩ fun hacceptor => ⟨(h.counters hacceptor).workers_running, ?_⟩
    · simp only [live, proxied, hqueue, length_cons]
      omega
    · simp only [behind, proxied, hqueue, length_cons]
      omega
    · have hold := (h.counters hacceptor).proxied_counted
      simp only [hqueue, length_cons] at hold ⊢
      omega
  · rename_i job hreader
    obtain ⟨hproxied, hcounted⟩ := sum_readers hreader .leaving
    simp only [Reader.proxied, Reader.counted] at hproxied hcounted
    split
    · refine h.shrunk ⟨?_, fun next => ?_, rfl, rfl⟩ fun hacceptor => ⟨(h.counters hacceptor).workers_running, ?_⟩
      · simp only [live, proxied]
        omega
      · simp only [behind, proxied]
        omega
      · have hold := (h.counters hacceptor).proxied_counted
        simp only at hold ⊢
        omega
    · obtain ⟨workers, heq, hsum, htake, hrunning⟩ :=
        deliver_to_worker_spec { s with readers := s.readers.set index .leaving } job.worker_index ⟨job.fd, .Sv1⟩
      rw [heq]
      refine h.shrunk ⟨?_, fun next => ?_, rfl, rfl⟩ fun hacceptor =>
        ⟨hrunning (h.counters hacceptor).workers_running, ?_⟩
      · simp only [live, proxied] at hsum ⊢
        omega
      · have hnext := htake next
        simp only [behind, proxied] at hnext ⊢
        omega
      · have hold := (h.counters hacceptor).proxied_counted
        simp only at hold ⊢
        omega
  · rename_i hreader
    obtain ⟨hproxied, hcounted⟩ := sum_readers hreader .waiting
    simp only [Reader.proxied, Reader.counted] at hproxied hcounted
    refine h.shrunk ⟨?_, fun next => ?_, rfl, rfl⟩ fun hacceptor => ⟨(h.counters hacceptor).workers_running, ?_⟩
    · simp only [live, proxied]
      omega
    · simp only [behind, proxied]
      omega
    · have hold := (h.counters hacceptor).proxied_counted
      simp only at hold ⊢
      omega
  · exact h

/-- A step of the acceptor that moves no connection. -/
theorem Bounded.moved (h : s.Bounded setup) (hbusy : s.acceptor ≠ .noting ∧ s.acceptor ≠ .stopped)
    {acceptor : Acceptor} (hacceptor : acceptor ≠ .noting) (hreliable : acceptor.Reliable setup s)
    (incomplete : Int) (next_worker next_fd : Nat) (reserved : List Nat) :
    Bounded setup { s with
      acceptor := acceptor, incomplete_noise_handshakes := incomplete, next_worker := next_worker, next_fd := next_fd
      reserved := reserved } := by
  refine ⟨h.live_le, h.admissions, ?_, fun _ => ⟨(h.counters hbusy.2).workers_running, ?_⟩⟩
  · cases acceptor <;> exact hreliable
  · have hcounted := (h.counters hbusy.2).proxied_counted
    rw [if_neg hbusy.1] at hcounted
    simp only [if_neg hacceptor]
    exact hcounted

theorem behind_succ {next : Nat} {worker : ServerWorker} (hworker : s.workers[next]? = some worker) :
    s.behind (next + 1) = s.behind next + worker.queued := by
  simp only [behind, take_add_one, hworker, Option.toList_some, map_append, map_singleton, sum_append,
    sum_singleton]
  omega

theorem live_eq_behind {next : Nat} (hnext : s.workers[next]? = none) : s.live = s.behind next + s.clients.length := by
  rw [live, behind, take_of_length_le (List.getElem?_eq_none_iff.mp hnext)]

/-- The counters were read before this one, yet no connection alive now was missed. -/
theorem decide_admission_reliable (setup : ServerSetup) (peer : Accepted) {occupied_slots : Int}
    (hall : (s.live : Int) ≤ occupied_slots) :
    s.decide_admission setup peer occupied_slots ≠ .noting ∧
      (s.decide_admission setup peer occupied_slots).Reliable setup s := by
  unfold decide_admission
  split
  · exact ⟨nofun, trivial⟩
  rename_i hroom
  split
  · exact ⟨nofun, trivial⟩
  rename_i hreserve
  have hfree : s.live < setup.max_clients := by omega
  have hlimit : peer.protocol ≠ .Sv1 → s.live < sv2_admission_limit setup.max_clients := by
    intro hprotocol
    rw [not_and] at hreserve
    have hbelow := hreserve hprotocol
    omega
  split
  · exact ⟨nofun, hfree, hlimit⟩
  · exact ⟨nofun, hfree, hlimit⟩

theorem Bounded.hand_over {peer : Accepted} {seen : Nat} (h : s.Bounded setup) (hacceptor : s.acceptor = .admitted peer seen) :
    (s.hand_over peer seen).Bounded setup := by
  have hbusy : s.acceptor ≠ .noting ∧ s.acceptor ≠ .stopped := by
    rw [hacceptor]
    exact ⟨nofun, nofun⟩
  have hcounters := h.counters hbusy.2
  have hcounted := hcounters.proxied_counted
  rw [if_neg hbusy.1] at hcounted
  obtain ⟨hfree, hlimit⟩ : s.live < setup.max_clients ∧
      (peer.protocol ≠ .Sv1 → seen < sv2_admission_limit setup.max_clients) := by
    have hreliable := h.reliable
    rw [hacceptor] at hreliable
    exact hreliable
  have hadmissions : ∀ admission ∈ Admission.mk peer.fd peer.protocol seen :: s.admissions, admission.protocol ≠ .Sv1 →
      admission.seen < sv2_admission_limit setup.max_clients := forall_mem_cons.mpr ⟨hlimit, h.admissions⟩
  unfold Server.hand_over
  simp only
  split
  · split
    · apply h.moved hbusy
      · exact nofun
      · trivial
    · refine ⟨?_, hadmissions, trivial, fun _ => ⟨hcounters.workers_running, ?_⟩⟩
      · simp only [live, proxied, length_append, length_singleton] at hfree ⊢
        omega
      · simp only [length_append, length_singleton, if_true]
        omega
  · obtain ⟨workers, heq, hsum, -, hrunning⟩ := deliver_to_worker_spec { s with
      acceptor := .polling, next_worker := s.next_worker + 1, admissions := ⟨peer.fd, peer.protocol, seen⟩ :: s.admissions }
      (s.next_worker % s.workers.length) ⟨peer.fd, peer.protocol⟩
    rw [heq]
    refine ⟨?_, hadmissions, trivial, fun _ => ⟨hrunning hcounters.workers_running, hcounted⟩⟩
    simp only [live, proxied] at hfree hsum ⊢
    omega

theorem Bounded.acceptor_step (h : s.Bounded setup) (spurious : Bool) :
    (s.acceptor_step setup spurious).Bounded setup := by
  have hreliable := h.reliable
  have hbusy {acceptor : Acceptor} (hacceptor : s.acceptor = acceptor)
      (hother : acceptor ≠ .noting ∧ acceptor ≠ .stopped) : s.acceptor ≠ .noting ∧ s.acceptor ≠ .stopped :=
    hacceptor ▸ hother
  unfold Server.acceptor_step
  split
  · exact h
  · exact h
  · rename_i peer hacceptor
    have hbusy := hbusy hacceptor ⟨nofun, nofun⟩
    apply h.moved hbusy
    · exact nofun
    have hcounted := (h.counters hbusy.2).proxied_counted
    rw [if_neg hbusy.1] at hcounted
    have hreaders : (s.readers.map Reader.proxied).sum ≤ (s.readers.map Reader.counted).sum :=
      sum_le_sum fun reader _ => reader.proxied_le_counted
    simp only [Acceptor.Reliable, behind, proxied, take_zero, map_nil, sum_nil]
    omega
  · rename_i peer next pending_total hacceptor
    have hbusy := hbusy hacceptor ⟨nofun, nofun⟩
    rw [hacceptor] at hreliable
    simp only [Acceptor.Reliable] at hreliable
    split
    · rename_i worker hworker
      apply h.moved hbusy
      · exact nofun
      have hcounted := ((h.counters hbusy.2).workers_running worker (mem_of_getElem? hworker)).counted
      have hqueued := worker.queued_le_unsettled
      simp only [Acceptor.Reliable, behind_succ hworker]
      omega
    · rename_i hnone
      have hall : (s.live : Int) ≤ s.clients.length + pending_total := by
        rw [live_eq_behind hnone]
        omega
      obtain ⟨hother, hdecided⟩ := decide_admission_reliable setup peer hall
      exact h.moved hbusy hother hdecided _ _ _ _
  · rename_i peer seen hacceptor
    rw [hacceptor] at hreliable
    apply h.moved (hbusy hacceptor ⟨nofun, nofun⟩)
    · exact nofun
    · exact hreliable
  · rename_i peer seen count hacceptor
    have hbusy := hbusy hacceptor ⟨nofun, nofun⟩
    rw [hacceptor] at hreliable
    split
    · apply h.moved hbusy
      · exact nofun
      · trivial
    split
    · apply h.moved hbusy
      · exact nofun
      · exact hreliable
    · apply h.moved hbusy
      · exact nofun
      · exact hreliable
  · rename_i peer seen hacceptor
    exact h.hand_over hacceptor
  · rename_i hacceptor
    have hstopped : s.acceptor ≠ .stopped := by
      rw [hacceptor]
      exact nofun
    have hcounted := (h.counters hstopped).proxied_counted
    rw [if_pos hacceptor] at hcounted
    refine ⟨h.live_le, h.admissions, trivial, fun _ => ⟨(h.counters hstopped).workers_running, ?_⟩⟩
    simpa using hcounted

theorem Bounded.step (h : s.Bounded setup) (event : Event) : (s.step setup event).Bounded setup := by
  cases event with
  | accept protocol trusted =>
    simp only [Server.step]
    split
    · rename_i hacceptor
      apply h.moved
      · rw [hacceptor]
        exact ⟨nofun, nofun⟩
      · exact nofun
      · trivial
    · exact h
  | acceptor spurious => exact h.acceptor_step spurious
  | reader index malformed => exact h.reader_step index malformed
  | worker index choice => exact h.worker_step index choice
  | stop =>
    simp only [Server.step]
    split
    · exact ⟨h.live_le, h.admissions, trivial, fun hrunning => absurd rfl hrunning⟩
    · exact h
  | exit_reader index =>
    simp only [Server.step]
    split
    · rename_i hexit
      obtain ⟨hproxied, -⟩ := sum_readers hexit.2 .exited
      simp only [Reader.proxied] at hproxied
      refine h.shrunk ⟨?_, fun next => ?_, rfl, rfl⟩ fun hacceptor => absurd hexit.1 hacceptor
      · simp only [live, proxied]
        omega
      · simp only [behind, proxied]
        omega
    · exact h
  | stop_workers =>
    simp only [Server.step]
    split
    · rename_i hstop
      have hqueued : ServerWorker.queued ∘ (fun worker => { worker with stop_requested := true }) =
          ServerWorker.queued := rfl
      refine h.shrunk ⟨?_, fun next => ?_, rfl, rfl⟩ fun hacceptor => absurd hstop.1 hacceptor
      · simp only [live, proxied, map_map, hqueued, length_nil]
        omega
      · simp only [behind, proxied, ← map_take, map_map, hqueued, length_nil]
        omega
    · exact h

theorem init_bounded (setup : ServerSetup) : (init setup).Bounded setup := by
  have hempty : (init setup).live = 0 := by
    simp [live, proxied, init, Reader.proxied, ServerWorker.queued, ServerWorker.init]
  refine ⟨by omega, fun admission hmem => absurd hmem not_mem_nil, trivial, fun _ => ⟨?_, ?_⟩⟩
  · intro worker hmem
    rw [eq_of_mem_replicate hmem]
    exact ⟨rfl, fun operation hmem => absurd hmem not_mem_nil, Int.le_refl _⟩
  · simp [init, Reader.counted]

theorem deliver_to_worker_frame (s : Server) (worker_index : Nat) (incoming : IncomingConnection) :
    (s.deliver_to_worker worker_index incoming).acceptor = s.acceptor ∧
      (s.deliver_to_worker worker_index incoming).admissions = s.admissions := by
  obtain ⟨workers, heq, -⟩ := s.deliver_to_worker_spec worker_index incoming
  rw [heq]
  exact ⟨rfl, rfl⟩

theorem reader_step_frame (s : Server) (index : Nat) (malformed : Bool) :
    (s.reader_step index malformed).acceptor = s.acceptor ∧
      (s.reader_step index malformed).admissions = s.admissions := by
  unfold reader_step
  split
  · split <;> exact ⟨rfl, rfl⟩
  · split
    · exact ⟨rfl, rfl⟩
    · exact deliver_to_worker_frame _ _ _
  · exact ⟨rfl, rfl⟩
  · exact ⟨rfl, rfl⟩

theorem worker_step_frame (s : Server) (index : Nat) (choice : Choice) :
    (s.worker_step index choice).acceptor = s.acceptor ∧ (s.worker_step index choice).admissions = s.admissions := by
  unfold worker_step
  split
  · exact ⟨rfl, rfl⟩
  · rename_i worker hworker
    obtain ⟨clients, incomplete, released, heq, -⟩ :=
      clients_apply_effect { s with workers := s.workers.set index (worker.step choice).1 } (worker.step choice).2
    simp only [heq, and_self]

/-- What one step does to the acceptor's knowledge: `seen` is taken from the server as it is while
the acceptor reads the last counter, and passed on to the admission. -/
structure Recorded (s s' : Server) : Prop where
  taken : ∀ peer seen, s'.acceptor.seen = some (peer, seen) → s.acceptor.seen = some (peer, seen) ∨
    ∃ next pending_total, s.acceptor = .counting peer next pending_total ∧ s.live = seen
  passed : ∀ admission ∈ s'.admissions, admission ∈ s.admissions ∨
    ∃ peer, s.acceptor.seen = some (peer, admission.seen) ∧ peer.fd = admission.fd ∧ peer.protocol = admission.protocol

theorem Recorded.framed (h : s'.acceptor = s.acceptor ∧ s'.admissions = s.admissions) : Recorded s s' :=
  ⟨fun _ _ hseen => .inl (h.1 ▸ hseen), fun _ hmem => .inl (h.2 ▸ hmem)⟩

/-- The acceptor lets the connection go, or has none yet. -/
theorem Recorded.forgotten (hacceptor : s'.acceptor.seen = none) (hadmissions : s'.admissions = s.admissions) :
    Recorded s s' := by
  refine ⟨fun peer seen hseen => ?_, fun _ hmem => .inl (hadmissions ▸ hmem)⟩
  rw [hacceptor] at hseen
  cases hseen

theorem hand_over_recorded {peer : Accepted} {seen : Nat} (hacceptor : s.acceptor = .admitted peer seen) :
    Recorded s (s.hand_over peer seen) := by
  have hpassed : ∀ admission ∈ Admission.mk peer.fd peer.protocol seen :: s.admissions, admission ∈ s.admissions ∨
      ∃ peer, s.acceptor.seen = some (peer, admission.seen) ∧ peer.fd = admission.fd ∧
        peer.protocol = admission.protocol := by
    refine forall_mem_cons.mpr ⟨.inr ⟨peer, ?_, rfl, rfl⟩, fun admission hmem => .inl hmem⟩
    rw [hacceptor]
    rfl
  unfold hand_over
  simp only
  split
  · split
    · exact .forgotten rfl rfl
    · exact ⟨nofun, hpassed⟩
  · obtain ⟨hnew, hlog⟩ := deliver_to_worker_frame { s with
      acceptor := .polling, next_worker := s.next_worker + 1
      admissions := ⟨peer.fd, peer.protocol, seen⟩ :: s.admissions }
      (s.next_worker % s.workers.length) ⟨peer.fd, peer.protocol⟩
    refine ⟨fun peer seen hseen => ?_, hlog ▸ hpassed⟩
    rw [hnew] at hseen
    cases hseen

theorem acceptor_step_recorded (setup : ServerSetup) (s : Server) (spurious : Bool) :
    Recorded s (s.acceptor_step setup spurious) := by
  -- the same connection is kept, with the same number
  have hkept {acceptor : Acceptor} (hacceptor : acceptor.seen = s.acceptor.seen) {s' : Server}
      (hnew : s'.acceptor = acceptor) (hlog : s'.admissions = s.admissions) : Recorded s s' := by
    refine ⟨fun peer seen hseen => .inl ?_, fun _ hmem => .inl (hlog ▸ hmem)⟩
    rw [← hacceptor, ← hnew, hseen]
  unfold acceptor_step
  split
  · exact .framed ⟨rfl, rfl⟩
  · exact .framed ⟨rfl, rfl⟩
  · exact .forgotten rfl rfl
  · rename_i peer next pending_total hacceptor
    split
    · exact .forgotten rfl rfl
    · refine ⟨fun peer' seen hseen => .inr ?_, fun _ hmem => .inl hmem⟩
      simp only [decide_admission] at hseen
      split_ifs at hseen
      · cases hseen
      · cases hseen
      · cases hseen
        exact ⟨next, pending_total, hacceptor, rfl⟩
      · cases hseen
        exact ⟨next, pending_total, hacceptor, rfl⟩
  · rename_i hacceptor
    refine hkept ?_ rfl rfl
    rw [hacceptor]
    rfl
  · rename_i hacceptor
    split
    · exact .forgotten rfl rfl
    split
    · refine hkept ?_ rfl rfl
      rw [hacceptor]
      rfl
    · refine hkept ?_ rfl rfl
      rw [hacceptor]
      rfl
  · rename_i hacceptor
    exact hand_over_recorded hacceptor
  · exact .forgotten rfl rfl

theorem step_recorded (setup : ServerSetup) (s : Server) (event : Event) : Recorded s (s.step setup event) := by
  cases event with
  | accept protocol trusted =>
    simp only [step]
    split
    · exact .forgotten rfl rfl
    · exact .framed ⟨rfl, rfl⟩
  | acceptor spurious => exact acceptor_step_recorded setup s spurious
  | reader index malformed => exact .framed (s.reader_step_frame index malformed)
  | worker index choice => exact .framed (s.worker_step_frame index choice)
  | stop =>
    simp only [step]
    split
    · exact .forgotten rfl rfl
    · exact .framed ⟨rfl, rfl⟩
  | exit_reader index =>
    simp only [step]
    split <;> exact .framed ⟨rfl, rfl⟩
  | stop_workers =>
    simp only [step]
    split <;> exact .framed ⟨rfl, rfl⟩

/-- Some state of a run, while the acceptor was counting for the connection, had `seen`
connections. -/
def Observed (setup : ServerSetup) (events : List Event) (fd : Nat) (protocol : WireProtocol) (seen : Nat) : Prop :=
  ∃ before peer next pending_total, before <+: events ∧
    (reached setup before).acceptor = .counting peer next pending_total ∧ peer.fd = fd ∧ peer.protocol = protocol ∧
    (reached setup before).live = seen

theorem Observed.mono {events more : List Event} {fd seen : Nat} {protocol : WireProtocol}
    (h : Observed setup events fd protocol seen) : Observed setup (events ++ more) fd protocol seen := by
  obtain ⟨before, peer, next, pending_total, hbefore, hcounting⟩ := h
  exact ⟨before, peer, next, pending_total, hbefore.trans (prefix_append events more), hcounting⟩

theorem observed (setup : ServerSetup) (events : List Event) :
    (∀ peer seen, (reached setup events).acceptor.seen = some (peer, seen) →
      Observed setup events peer.fd peer.protocol seen) ∧
      ∀ admission ∈ (reached setup events).admissions,
        Observed setup events admission.fd admission.protocol admission.seen := by
  induction events using reverseRecOn with
  | nil => exact ⟨nofun, nofun⟩
  | append_singleton events event ih =>
    obtain ⟨hseen, hadmissions⟩ := ih
    have hlast : reached setup (events ++ [event]) = (reached setup events).step setup event := by
      rw [reached, Transition.run_append]
      rfl
    obtain ⟨htaken, hpassed⟩ := step_recorded setup (reached setup events) event
    rw [hlast]
    constructor
    · intro peer seen hnew
      rcases htaken peer seen hnew with hold | ⟨next, pending_total, hcounting, hlive⟩
      · exact (hseen peer seen hold).mono
      · exact ⟨events, peer, next, pending_total, prefix_append events [event], hcounting, rfl, rfl, hlive⟩
    · intro admission hnew
      rcases hpassed admission hnew with hold | ⟨peer, hpeer, hfd, hprotocol⟩
      · exact (hadmissions admission hold).mono
      · rw [← hfd, ← hprotocol]
        exact (hseen peer admission.seen hpeer).mono

/-- In every run of the server's threads, shutdown included, the accepted connections that are
not closed number at most `max_clients`, and an SV2 connection was admitted when at some moment
of its check they were fewer than its limit. -/
theorem connections_bounded (setup : ServerSetup) (events : List Event) :
    (reached setup events).live ≤ setup.max_clients ∧
      ∀ admission ∈ (reached setup events).admissions,
        Observed setup events admission.fd admission.protocol admission.seen ∧
          (admission.protocol ≠ .Sv1 → admission.seen < sv2_admission_limit setup.max_clients) := by
  have hbounded : (reached setup events).Bounded setup :=
    Transition.run_invariant_always (fun s event h => h.step event) events (init_bounded setup)
  refine ⟨hbounded.live_le, fun admission hmem => ⟨?_, hbounded.admissions admission hmem⟩⟩
  exact (observed setup events).2 admission hmem

example : (reached ⟨4, 1, 1, by decide⟩ [.accept .Sv2Plaintext false, .acceptor false, .acceptor false, .acceptor false,
    .acceptor false]).admissions = [⟨0, .Sv2Plaintext, 0⟩] := by decide

end Server

end erikslund.net
