import SoloPool.Lib.Coalescing
import SoloPool.Pool.State

namespace erikslund

open util bitcoin stratum

/-- The atomic steps: replies from the node, the next critical section of a thread, a
client's connection thread, and connections that come and go. -/
inductive Pool.Event where
  | poll (refresh_due : Bool) (tip : Except String Text)
  | fetch_template (reply : Except String BlockTemplate)
  | work
  | on_zmq_block (block_hash : Text)
  | fetch_header (reply : Except String HeaderFacts)
  | zmq
  | publication_loop
  | add_client
  | add_sv2_client
  | remove_client (client : ClientRef)
  | sv1 (index : Nat) (event : stratum.Event)
  | sv2 (index : Nat) (event : sv2.Event)

namespace Pool

variable (setup : Setup) (env : Environment) (pool : Pool)

def enqueue_publication (recipient : ClientRef) (job : Job) (clean : Bool) : Pool :=
  if recipient ∉ pool.clients then pool
  else
    { pool with
      publication_queue := Coalescing.enqueue PendingPublication.recipient PendingPublication.merge
        pool.publication_queue ⟨recipient, job, clean⟩ }

/-- A step of one session, with what it sees of the pool. -/
def step_sv1 (index : Nat) (event : stratum.Event) : Pool :=
  { pool with sv1 := pool.sv1.modify index (fun server =>
      server.step setup.config (pool.context env, event)) }

def step_sv2 (index : Nat) (event : sv2.Event) : Pool :=
  { pool with sv2 := pool.sv2.modify index (fun server =>
      server.step setup.config (pool.context env, event)) }

/-- One recipient of a published job. -/
def deliver (job : Job) (clean : Bool) :
    ClientRef → Pool
  | .sv1 index => pool.step_sv1 setup env index (.send_notify job clean)
  | .sv2 index => pool.enqueue_publication (.sv2 index) job clean

/-- The recipients of a broadcast in their order: the clients from the cursor on, the SV1
ones first. -/
def recipients (clients : List ClientRef) (broadcast_cursor : Nat) : List ClientRef :=
  let rotated := clients.rotate (broadcast_cursor % clients.length)
  rotated.filter (fun client => ¬ client.publish_asynchronously) ++
    rotated.filter ClientRef.publish_asynchronously

/-- The next critical section of `broadcast_job`. -/
def broadcast_job (publisher : Publisher) :
    Broadcast → Pool × Broadcast
  | .publishing job clean require_new_prevhash =>
    let (outcome, cache) := pool.cache.publish job require_new_prevhash
    let published := cache.current_job.filter (fun _ => outcome = .Published)
    ({ pool with cache, history := ⟨publisher, published.getD job, outcome⟩ :: pool.history },
      match published with
      | some job => .published job clean
      | none => .done outcome)
  | .published job clean =>
    if pool.clients.isEmpty then (pool, .done .Published)
    else
      ({ pool with broadcast_cursor := pool.broadcast_cursor + 1 },
        .delivering job clean (recipients pool.clients pool.broadcast_cursor))
  | .delivering _ _ [] => (pool, .done .Published)
  | .delivering job clean (recipient :: rest) =>
    (pool.deliver setup env job clean recipient, .delivering job clean rest)
  | .done outcome => (pool, .done outcome)

/-- The end of `build_and_broadcast` after a broadcast that was not stale. -/
def note_template (prevhash : Text) (version : UInt32) : Pool :=
  { pool with templates := ⟨prevhash, version, true, false⟩ }

/-- The next critical section of the work thread, where it waits for no reply. -/
def step_work : Pool :=
  match pool.work with
  | .waiting | .fetching => pool
  | .probing tip => { pool with work := if tip ≠ pool.templates.last_prevhash then .fetching else .waiting }
  | .fetched block_template =>
    { pool with
      work := .starting block_template
        (decide (block_template.previousblockhash ≠ pool.templates.last_prevhash)) }
  | .starting block_template clean =>
    if pool.cache.current_job.any (fun current => decide (block_template.height < current.height)) then
      { pool with work := .waiting, refresh_failing := false }
    else { pool with work := .making block_template clean }
  | .making block_template clean =>
    match pool.make_job setup block_template clean with
    | (.error _, pool) => { pool with work := .waiting, refresh_failing := true }
    | (.ok job, pool) =>
      { pool with
        work := .broadcasting block_template.previousblockhash block_template.version
          (.publishing job clean false) }
  | .broadcasting _ _ (.done .StaleHeight) => { pool with work := .waiting, refresh_failing := false }
  | .broadcasting prevhash version (.done _) =>
    { pool.note_template prevhash version with work := .waiting, refresh_failing := false }
  | .broadcasting prevhash version broadcast =>
    let (pool, broadcast) := pool.broadcast_job setup env (.build_and_broadcast prevhash) broadcast
    { pool with work := .broadcasting prevhash version broadcast }

/-- The head of `refresh_work`: whether to fetch a template. -/
def poll (refresh_due : Bool) (tip : Except String Text) : Pool :=
  match pool.cache.current_job with
  | none => { pool with work := .fetching }
  | some job =>
    if pool.refresh_failing ∨ refresh_due then { pool with work := .fetching }
    else
      match tip with
      | .error _ => { pool with refresh_failing := true }
      | .ok tip => { pool with work := if job.mines_on tip then .probing tip else .fetching }

/-- The next critical section of the ZMQ thread, where it waits for no reply. -/
def step_zmq : Pool :=
  match pool.zmq with
  | .waiting | .requesting _ => pool
  | .replied block_hash header =>
    if fastblock_eligible pool.templates.has_template pool.templates.fastblock_pending block_hash
        pool.templates.last_prevhash (header.height + 1) header.confirmations setup.chain_name
        header.bits_hex then
      { pool with
        templates := { pool.templates with fastblock_pending := true }
        zmq := .making block_hash header pool.templates.last_version
          (if setup.chain_name = "regtest".toList then 150 else 210000) }
    else { pool with zmq := .waiting }
  | .making block_hash header version halving_interval =>
    match fastblock_template env block_hash header version halving_interval with
    | .error _ => { pool with zmq := .clearing }
    | .ok block_template =>
      match pool.make_job setup block_template true with
      | (.error _, pool) => { pool with zmq := .clearing }
      | (.ok job, pool) => { pool with zmq := .broadcasting block_hash (.publishing job true true) }
  | .broadcasting _ (.done .Published) => { pool with zmq := .waiting }
  | .broadcasting _ (.done _) => { pool with zmq := .clearing }
  | .broadcasting block_hash broadcast =>
    let (pool, broadcast) := pool.broadcast_job setup env (.on_zmq_block block_hash) broadcast
    { pool with zmq := .broadcasting block_hash broadcast }
  | .clearing =>
    { pool with templates := { pool.templates with fastblock_pending := false }, zmq := .waiting }

/-- The head of `on_zmq_block`. -/
def on_zmq_block (block_hash : Text) : Pool :=
  if env.runtime_config.fast_block_notify ∧ ¬ block_hash.isEmpty ∧ pool.templates.has_template ∧
      ¬ pool.templates.fastblock_pending ∧ block_hash ≠ pool.templates.last_prevhash ∧
      setup.chain_name ≠ "test".toList ∧ setup.chain_name ≠ "testnet4".toList then
    { pool with zmq := .requesting block_hash }
  else pool

/-- The call of `publish_job` for the last entry has not returned. -/
def publishing : Bool :=
  pool.sv2.any (fun server => server.calls.any (fun call =>
    match call with
    | .publishing _ _ | .publish _ _ _ => true
    | _ => false))

/-- The next critical section of the publication thread: the pop, taken only when the previous
delivery has returned, or the lookup that `publish_job` starts with. -/
def publication_loop : Pool :=
  match pool.publication, pool.publication_queue with
  | some pending, _ =>
    match pending.recipient with
    | .sv1 _ => { pool with publication := none }
    | .sv2 index =>
      { pool with publication := none }.step_sv2 setup env index
        (.publish_job pending.job.job_id pending.clean)
  | none, [] => pool
  | none, pending :: publication_queue =>
    if pool.publishing then pool else { pool with publication_queue, publication := some pending }

def step (action : Environment × Event) : Pool :=
  let (env, event) := action
  match event with
  | .poll refresh_due tip => if pool.work = .waiting then pool.poll refresh_due tip else pool
  | .fetch_template reply =>
    if pool.work ≠ .fetching then pool
    else
      match reply with
      | .error _ => { pool with work := .waiting, refresh_failing := true }
      | .ok block_template => { pool with work := .fetched block_template }
  | .work => pool.step_work setup env
  | .on_zmq_block block_hash =>
    if pool.zmq = .waiting then pool.on_zmq_block setup env block_hash else pool
  | .fetch_header reply =>
    match pool.zmq, reply with
    | .requesting _, .error _ => { pool with zmq := .waiting }
    | .requesting block_hash, .ok header => { pool with zmq := .replied block_hash header }
    | _, _ => pool
  | .zmq => pool.step_zmq setup env
  | .publication_loop => pool.publication_loop setup env
  | .add_client =>
    { pool with
      extranonce1_counter := pool.extranonce1_counter + 1
      sv1 := pool.sv1 ++ [.init (pool.context env)
        (next_extranonce1 setup.config (pool.extranonce1_counter + 1))]
      clients := pool.clients ++ [.sv1 pool.sv1.length] }
  | .add_sv2_client =>
    { pool with
      extranonce1_counter := pool.extranonce1_counter + 1
      sv2 := pool.sv2 ++ [.init setup.config (next_extranonce1 setup.config (pool.extranonce1_counter + 1))]
      clients := pool.clients ++ [.sv2 pool.sv2.length] }
  | .remove_client client =>
    { pool with
      clients := pool.clients.filter (fun connected => connected ≠ client)
      publication_queue := pool.publication_queue.filter (fun pending => pending.recipient ≠ client) }
  | .sv1 index event =>
    -- jobs reach a session through `deliver` only
    match event with
    | .send_notify _ _ => pool
    | event => pool.step_sv1 setup env index event
  | .sv2 index event =>
    match event with
    | .publish_job _ _ => pool
    | event => pool.step_sv2 setup env index event

/-- The state a fresh pool reaches by taking `actions` in order. -/
def reached (actions : List (Environment × Event)) : Pool :=
  Transition.run (step setup) (init setup) actions

end Pool

/-! ## A pool worked by hand -/

namespace Pool.Regtest

def setup : Setup := ⟨{}, "regtest".toList, [], 0, 0⟩

/-- A node that takes every address, and the difficulties of the repository's session tests. -/
def env : Environment where
  runtime_config := { initial_difficulty := 1 / 10 ^ 10, minimum_difficulty := 1 / 10 ^ 12 }
  validate_address := fun _ => some []
  steady_seconds := 0
  time := 1000

def actions {E : Type} (events : List E) : List (Environment × E) := events.map (fun event => (env, event))

def parent (byte : UInt8) : Text := to_hex (List.replicate 32 byte)

/-- A pass of `refresh_work` that fetches `block_template`, taken `turns` turns further. -/
def refresh_work (block_template : BlockTemplate) (turns : Nat) : List Event :=
  [.poll true (.error ""), .fetch_template (.ok block_template)] ++ List.replicate turns .work

/-- A call of `on_zmq_block` on the block `byte` stands for, whose header request is answered
with a block of height zero, taken `turns` turns further. -/
def zmq_block (byte : UInt8) (turns : Nat) : List Event :=
  [.on_zmq_block (parent byte), .fetch_header (.ok ⟨0, 1, "207fffff".toList, 0⟩)] ++ List.replicate turns .zmq

/-- A line from the SV1 client `index`. -/
def line (index : Nat) (method : Method) (params : List String) : Event :=
  .sv1 index (.line { method, params := params.map String.toList })

/-- An SV1 client that connects, subscribes and is authorized. -/
def miner (index : Nat) : List Event := [.add_client, line index .subscribe [], line index .authorize ["miner"]]

end Pool.Regtest

end erikslund
