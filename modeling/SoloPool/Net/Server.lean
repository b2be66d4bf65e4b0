import Mathlib.Algebra.GroupWithZero.Nat
import SoloPool.Lib.Run

namespace erikslund.net

inductive WireProtocol where
  | Sv1
  | Sv2Noise
  | Sv2Plaintext
deriving DecidableEq

def kMaxProxyQueue : Nat := 256

def kMaxIncompleteNoiseHandshakes : Nat := 32

def kSv2AdmissionLimitNumerator : Nat := 3

def kSv2AdmissionLimitDenominator : Nat := 4

/-- The configuration has no negative `max_clients`. -/
def sv2_admission_limit (max_clients : Nat) : Nat :=
  max_clients * kSv2AdmissionLimitNumerator / kSv2AdmissionLimitDenominator

/-- A descriptor names the connection it was accepted for: a number the system gives out again
counts as another one. -/
structure IncomingConnection where
  fd : Nat
  protocol : WireProtocol
deriving DecidableEq

structure PendingProxyConn where
  fd : Nat
  worker_index : Nat
deriving DecidableEq

structure ClientConnection where
  fd : Nat
  protocol : WireProtocol
  holds_noise_handshake_slot : Bool
deriving DecidableEq

/-- What a reactor has still to do before it is back in its loop. Each is one access to state
that other threads see, or a step of its own shutdown. -/
inductive Operation where
  | release_noise_handshake (fd : Nat)
  | remove_client (fd : Nat)
  | leave_pending
  | close_incoming
  | exit
deriving DecidableEq

/-- How far the `try` block of `drain_incoming` has come with a connection: there is no
record of it yet, it has a record, or the pool has added the client. -/
inductive Adoption where
  | opening (incoming : IncomingConnection)
  | constructed (connection : ClientConnection)
  | registered (connection : ClientConnection)
deriving DecidableEq

/-- A reactor, with the local `batch` of `drain_incoming` and where its thread is. -/
structure ServerWorker where
  incoming : List IncomingConnection
  pending : Int
  connections : List ClientConnection
  batch : List IncomingConnection
  adoption : Option Adoption
  todo : List Operation
  stop_requested : Bool
  finished : Bool
deriving DecidableEq

/-- What a reactor does next. In an adoption everything but `proceed` is a failure: an exception,
one after the pool has added the client, or the refusal of `epoll_ctl`. -/
inductive Choice where
  | proceed
  | throw
  | throw_registered
  | refuse
  | drain_incoming
  | complete_handshake (index : Nat)
  | remove_connection (index : Nat)
  | shut_down
deriving DecidableEq

/-- What a step of a reactor does to the state all reactors share. -/
inductive Effect where
  | none
  | add_client (fd : Nat)
  | remove_client (fd : Nat)
  | release_noise_handshake (fd : Nat)
deriving DecidableEq

def IncomingConnection.release_slot (incoming : IncomingConnection) : List Operation :=
  if incoming.protocol = .Sv2Noise then [.release_noise_handshake incoming.fd] else []

namespace ClientConnection

/-- `release_noise_handshake_slot`: the flag is cleared, and what follows. -/
def release_slot (connection : ClientConnection) : List Operation :=
  if connection.holds_noise_handshake_slot then [.release_noise_handshake connection.fd] else []

def released (connection : ClientConnection) : ClientConnection :=
  { connection with holds_noise_handshake_slot := false }

end ClientConnection

namespace ServerWorker

def init : ServerWorker where
  incoming := []
  pending := 0
  connections := []
  batch := []
  adoption := none
  todo := []
  stop_requested := false
  finished := false

variable (worker : ServerWorker)

def perform : Operation → ServerWorker × Effect
  | .release_noise_handshake fd => (worker, .release_noise_handshake fd)
  | .remove_client fd => (worker, .remove_client fd)
  | .leave_pending => ({ worker with pending := worker.pending - 1 }, .none)
  | .close_incoming =>
    ({ worker with
      incoming := []
      todo := worker.incoming.flatMap IncomingConnection.release_slot ++ .exit :: worker.todo }, .none)
  | .exit => ({ worker with pending := 0, finished := true }, .none)

/-- The `try` block of `drain_incoming` and its handler. The handler releases the slot by the
connection's flag, or by the protocol when there is no connection. -/
def adopt : Adoption → Choice → ServerWorker × Effect
  | .opening incoming, .proceed =>
    ({ worker with
      adoption := some (.constructed ⟨incoming.fd, incoming.protocol, incoming.protocol = .Sv2Noise⟩) }, .none)
  | .opening incoming, _ =>
    ({ worker with adoption := none, todo := incoming.release_slot ++ [.leave_pending] }, .none)
  | .constructed connection, .proceed =>
    ({ worker with adoption := some (.registered connection) }, .add_client connection.fd)
  | .constructed connection, .throw_registered =>
    ({ worker with adoption := none, todo := connection.release_slot ++ [.leave_pending] },
      .add_client connection.fd)
  | .constructed connection, _ =>
    ({ worker with adoption := none, todo := connection.release_slot ++ [.leave_pending] }, .none)
  | .registered connection, .proceed =>
    ({ worker with
      adoption := none
      connections := worker.connections ++ [connection]
      todo := [.leave_pending] }, .none)
  | .registered connection, .refuse =>
    ({ worker with
      adoption := none
      todo := connection.release_slot ++ [.remove_client connection.fd, .leave_pending] }, .none)
  | .registered connection, _ =>
    ({ worker with
      adoption := none
      todo := .remove_client connection.fd :: (connection.release_slot ++ [.leave_pending]) }, .none)

/-- The event loop. A connection that is removed leaves the reactor's own table at once; the
table is seen by no other thread. -/
def handle : Choice → ServerWorker
  | .drain_incoming => { worker with batch := worker.incoming, incoming := [] }
  | .complete_handshake index =>
    match worker.connections[index]? with
    | none => worker
    | some connection =>
      { worker with
        connections := worker.connections.set index connection.released
        todo := connection.release_slot }
  | .remove_connection index =>
    match worker.connections[index]? with
    | none => worker
    | some connection =>
      { worker with
        connections := worker.connections.eraseIdx index
        todo := connection.release_slot ++ [.remove_client connection.fd] }
  | .shut_down =>
    if worker.stop_requested then
      { worker with
        connections := []
        todo := worker.connections.flatMap (fun connection => connection.release_slot ++ [.remove_client connection.fd]) ++
          [.close_incoming] }
    else worker
  | _ => worker

/-- The next step of the reactor's thread. -/
def step (choice : Choice) : ServerWorker × Effect :=
  match worker.todo with
  | operation :: rest => ServerWorker.perform { worker with todo := rest } operation
  | [] =>
    match worker.adoption with
    | some adoption => worker.adopt adoption choice
    | none =>
      match worker.batch with
      | incoming :: batch => ({ worker with batch := batch, adoption := some (.opening incoming) }, .none)
      | [] => if worker.finished then (worker, .none) else (worker.handle choice, .none)

/-- The connections queued for the reactor, the one being adopted included until the pool has
added it. -/
def queued : Nat :=
  worker.incoming.length + worker.batch.length +
    match worker.adoption with
    | some (.opening _) | some (.constructed _) => 1
    | _ => 0

end ServerWorker

/-- A connection in the hands of the acceptor. `trusted` says whether its address is one that
sends a PROXY header. -/
structure Accepted where
  fd : Nat
  protocol : WireProtocol
  trusted : Bool
deriving DecidableEq

/-- Where the acceptor is. `seen` is the number of connections there were when it read
`client_count`, which it does not know itself. -/
inductive Acceptor where
  | polling
  | accepted (peer : Accepted)
  | counting (peer : Accepted) (next : Nat) (pending_total : Int)
  | loading (peer : Accepted) (seen : Nat)
  | reserving (peer : Accepted) (seen : Nat) (count : Int)
  | admitted (peer : Accepted) (seen : Nat)
  | noting
  | stopped
deriving DecidableEq

/-- Where a reader of PROXY headers is. -/
inductive Reader where
  | waiting
  | reading (job : PendingProxyConn)
  | leaving
  | exited
deriving DecidableEq

/-- A connection the acceptor has handed over. -/
structure Admission where
  fd : Nat
  protocol : WireProtocol
  seen : Nat
deriving DecidableEq

/-- What the server is started with. -/
structure ServerSetup where
  max_clients : Nat
  worker_count : Nat
  reader_count : Nat
  worker_count_pos : 0 < worker_count

/-- The server with the pool's clients. The atomic counters are integers: `proxy_pending` is
decremented below zero while the acceptor has yet to count a connection it has queued.
`reserved` and `released` are the descriptors whose handshake slot was taken and given back. -/
structure Server where
  clients : List Nat
  workers : List ServerWorker
  proxy_queue : List PendingProxyConn
  proxy_pending : Int
  readers : List Reader
  incomplete_noise_handshakes : Int
  acceptor : Acceptor
  next_worker : Nat
  next_fd : Nat
  admissions : List Admission
  reserved : List Nat
  released : List Nat
deriving DecidableEq

/-- One step of one thread: an acceptor that finds a connection waiting or goes on with one,
a reader, a reactor, and the end of `run`. -/
inductive Event where
  | accept (protocol : WireProtocol) (trusted : Bool)
  | acceptor (spurious : Bool)
  | reader (index : Nat) (malformed : Bool)
  | worker (index : Nat) (choice : Choice)
  | stop
  | exit_reader (index : Nat)
  | stop_workers
deriving DecidableEq

def Reader.proxied : Reader → Nat
  | .reading _ => 1
  | _ => 0

namespace Server

variable (setup : ServerSetup) (s : Server)

def init : Server where
  clients := []
  workers := List.replicate setup.worker_count .init
  proxy_queue := []
  proxy_pending := 0
  readers := List.replicate setup.reader_count .waiting
  incomplete_noise_handshakes := 0
  acceptor := .polling
  next_worker := 0
  next_fd := 0
  admissions := []
  reserved := []
  released := []

/-- The connections queued or being read for a PROXY header. -/
def proxied : Nat := s.proxy_queue.length + (s.readers.map Reader.proxied).sum

/-- The accepted connections that are not closed. -/
def live : Nat := s.proxied + (s.workers.map ServerWorker.queued).sum + s.clients.length

/-- The queue of a reactor and its counter change under one lock, so that no other thread sees
the one without the other. -/
def deliver_to_worker (worker_index : Nat) (incoming : IncomingConnection) : Server :=
  match s.workers[worker_index]? with
  | none => s
  | some worker =>
    { s with
      workers := s.workers.set worker_index
        { worker with incoming := worker.incoming ++ [incoming], pending := worker.pending + 1 } }

/-- The decision of the acceptor once it has read all counters. -/
def decide_admission (peer : Accepted) (occupied_slots : Int) : Acceptor :=
  if occupied_slots ≥ setup.max_clients then .polling
  else if peer.protocol ≠ .Sv1 ∧ occupied_slots ≥ sv2_admission_limit setup.max_clients then .polling
  else if peer.protocol = .Sv2Noise then .loading peer s.live
  else .admitted peer s.live

/-- The hand-over of an admitted connection. -/
def hand_over (peer : Accepted) (seen : Nat) : Server :=
  let worker_index := s.next_worker % s.workers.length
  if peer.protocol = .Sv1 ∧ peer.trusted then
    if s.proxy_queue.length ≥ kMaxProxyQueue then
      { s with acceptor := .polling, next_worker := s.next_worker + 1 }
    else
      { s with
        acceptor := .noting
        next_worker := s.next_worker + 1
        proxy_queue := s.proxy_queue ++ [⟨peer.fd, worker_index⟩]
        admissions := ⟨peer.fd, peer.protocol, seen⟩ :: s.admissions }
  else
    deliver_to_worker
      { s with
        acceptor := .polling
        next_worker := s.next_worker + 1
        admissions := ⟨peer.fd, peer.protocol, seen⟩ :: s.admissions }
      worker_index ⟨peer.fd, peer.protocol⟩

/-- The next access of the acceptor to the shared counters, with what it decides from it. The
weak exchange in `reserve_noise_handshake` may fail for no reason. -/
def acceptor_step (spurious : Bool) : Server :=
  match s.acceptor with
  | .polling | .stopped => s
  | .accepted peer => { s with acceptor := .counting peer 0 s.proxy_pending }
  | .counting peer next pending_total =>
    match s.workers[next]? with
    | some worker => { s with acceptor := .counting peer (next + 1) (pending_total + worker.pending) }
    | none => { s with acceptor := s.decide_admission setup peer (s.clients.length + pending_total) }
  | .loading peer seen => { s with acceptor := .reserving peer seen s.incomplete_noise_handshakes }
  | .reserving peer seen count =>
    if count ≥ kMaxIncompleteNoiseHandshakes then { s with acceptor := .polling }
    else if count = s.incomplete_noise_handshakes ∧ ¬ spurious then
      { s with
        acceptor := .admitted peer seen
        incomplete_noise_handshakes := count + 1
        reserved := peer.fd :: s.reserved }
    else { s with acceptor := .reserving peer seen s.incomplete_noise_handshakes }
  | .admitted peer seen => s.hand_over peer seen
  | .noting => { s with acceptor := .polling, proxy_pending := s.proxy_pending + 1 }

/-- The next step of `proxy_reader_loop`. -/
def reader_step (index : Nat) (malformed : Bool) : Server :=
  match s.readers[index]? with
  | some .waiting =>
    match s.proxy_queue with
    | [] => s
    | job :: rest => { s with proxy_queue := rest, readers := s.readers.set index (.reading job) }
  | some (.reading job) =>
    if malformed then { s with readers := s.readers.set index .leaving }
    else
      deliver_to_worker { s with readers := s.readers.set index .leaving } job.worker_index ⟨job.fd, .Sv1⟩
  | some .leaving => { s with readers := s.readers.set index .waiting, proxy_pending := s.proxy_pending - 1 }
  | _ => s

def apply_effect : Effect → Server
  | .none => s
  | .add_client fd => { s with clients := s.clients ++ [fd] }
  | .remove_client fd => { s with clients := s.clients.filter (· ≠ fd) }
  | .release_noise_handshake fd =>
    { s with
      incomplete_noise_handshakes := s.incomplete_noise_handshakes - 1
      released := fd :: s.released }

def worker_step (index : Nat) (choice : Choice) : Server :=
  match s.workers[index]? with
  | none => s
  | some worker =>
    let (after, effect) := worker.step choice
    apply_effect { s with workers := s.workers.set index after } effect

/-- Readers end once the acceptor has stopped, and the reactors are asked to stop once the
readers have ended. -/
def step : Event → Server
  | .accept protocol trusted =>
    if s.acceptor = .polling then
      { s with acceptor := .accepted ⟨s.next_fd, protocol, trusted⟩, next_fd := s.next_fd + 1 }
    else s
  | .acceptor spurious => s.acceptor_step setup spurious
  | .reader index malformed => s.reader_step index malformed
  | .worker index choice => s.worker_step index choice
  | .stop => if s.acceptor = .polling then { s with acceptor := .stopped } else s
  | .exit_reader index =>
    if s.acceptor = .stopped ∧ s.readers[index]? = some .waiting then
      { s with readers := s.readers.set index .exited }
    else s
  | .stop_workers =>
    if s.acceptor = .stopped ∧ ∀ reader ∈ s.readers, reader = .exited then
      { s with
        proxy_queue := []
        proxy_pending := 0
        workers := s.workers.map fun worker => { worker with stop_requested := true } }
    else s

/-- The server after a run. -/
def reached (events : List Event) : Server := Transition.run (step setup) (init setup) events

end Server

end erikslund.net
