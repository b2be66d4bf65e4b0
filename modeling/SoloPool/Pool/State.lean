import SoloPool.Pool.JobCache
import SoloPool.Stratum.Session.Submit
import SoloPool.Sv2.Session.Run

namespace erikslund

open util bitcoin stratum

/-- What a pool is started with. -/
structure Setup where
  config : Config
  chain_name : Text
  donation_script : Bytes
  job_id_prefix : UInt32
  started : Nat

/-- What a step reads besides the pool. -/
structure Environment where
  runtime_config : RuntimeConfig
  validate_address : Text → Option Bytes
  steady_seconds : ℚ
  time : Int

structure HeaderFacts where
  height : Int
  confirmations : Int
  bits_hex : Text
  mediantime : UInt32
deriving DecidableEq

/-- The template bookkeeping that `mutex_` guards. -/
structure Templates where
  last_prevhash : Text
  last_version : UInt32
  has_template : Bool
  fastblock_pending : Bool
deriving DecidableEq

/-- A connected client: SV1 sessions are published to directly, SV2 ones through the queue. -/
inductive ClientRef where
  | sv1 (index : Nat)
  | sv2 (index : Nat)
deriving DecidableEq

def ClientRef.publish_asynchronously : ClientRef → Bool
  | .sv1 _ => false
  | .sv2 _ => true

structure PendingPublication where
  recipient : ClientRef
  job : Job
  clean : Bool
deriving DecidableEq

/-- How `enqueue_publication` updates the entry that waits for the same recipient. -/
def PendingPublication.merge (pending next : PendingPublication) : PendingPublication :=
  { pending with
    clean := pending.clean || next.clean
    job := if next.job.publication_sequence ≥ pending.job.publication_sequence then next.job else pending.job }

/-- A `broadcast_job` call between two critical sections: before the publication, before
the snapshot of the clients, with recipients left, and returning. -/
inductive Broadcast where
  | publishing (job : Job) (clean require_new_prevhash : Bool)
  | published (job : Job) (clean : Bool)
  | delivering (job : Job) (clean : Bool) (recipients : List ClientRef)
  | done (outcome : PublishOutcome)
deriving DecidableEq

/-- The thread of `refresh_work`. `probing` has found its job on the tip it was told,
`fetched` holds a template, and from `starting` on it is inside `build_and_broadcast`. -/
inductive WorkThread where
  | waiting
  | probing (tip : Text)
  | fetching
  | fetched (block_template : BlockTemplate)
  | starting (block_template : BlockTemplate) (clean : Bool)
  | making (block_template : BlockTemplate) (clean : Bool)
  | broadcasting (prevhash : Text) (version : UInt32) (broadcast : Broadcast)
deriving DecidableEq

/-- The thread of `on_zmq_block`: `requesting` has passed the cheap check, `making` the
authoritative one, and `clearing` has not published. -/
inductive ZmqThread where
  | waiting
  | requesting (block_hash : Text)
  | replied (block_hash : Text) (header : HeaderFacts)
  | making (block_hash : Text) (header : HeaderFacts) (version : UInt32) (halving_interval : Int)
  | broadcasting (block_hash : Text) (broadcast : Broadcast)
  | clearing
deriving DecidableEq

/-- Which call a job comes from, with the parent that call names. -/
inductive Publisher where
  | build_and_broadcast (prevhash : Text)
  | on_zmq_block (block_hash : Text)
deriving DecidableEq

/-- One pass through the critical section of `broadcast_job`: the job as it leaves it. -/
structure Attempt where
  publisher : Publisher
  job : Job
  outcome : PublishOutcome
deriving DecidableEq

/-- The pool with its threads and clients. A client keeps its index after it has left
`clients`. `publication` is the entry the publication thread has popped, and `history` records
the passes through `broadcast_job`, newest first. -/
structure Pool where
  cache : JobCache
  templates : Templates
  job_counter : Nat
  extranonce1_counter : Nat
  broadcast_cursor : Nat
  refresh_failing : Bool
  work : WorkThread
  zmq : ZmqThread
  sv1 : List stratum.Server
  sv2 : List sv2.Server
  clients : List ClientRef
  publication_queue : List PendingPublication
  publication : Option PendingPublication
  history : List Attempt
deriving DecidableEq

namespace Pool

def init (setup : Setup) : Pool where
  cache := .empty
  templates := ⟨[], 0, false, false⟩
  job_counter := 0
  extranonce1_counter := setup.started
  broadcast_cursor := 0
  refresh_failing := false
  work := .waiting
  zmq := .waiting
  sv1 := []
  sv2 := []
  clients := []
  publication_queue := []
  publication := none
  history := []

/-- What a session sees of the pool. -/
def context (pool : Pool) (env : Environment) : PoolContext where
  current_job := pool.cache.current_job
  recent_job := pool.cache.recent_job
  runtime_config := env.runtime_config
  validate_address := env.validate_address
  steady_seconds := env.steady_seconds
  time := env.time

def next_job_id (setup : Setup) (job_counter : Nat) : Text :=
  format_08x setup.job_id_prefix.toNat ++ format_08x job_counter

def next_extranonce1 (config : Config) (value : Nat) : Bytes :=
  config.extranonce1_prefix ++ Radix.be (config.extranonce1_size - config.extranonce1_prefix.length) value

/-- `make_job`, which takes its id from the pool even when the job cannot be built. -/
def make_job (setup : Setup) (pool : Pool) (block_template : BlockTemplate) (clean : Bool) :
    Except String Job × Pool :=
  let pool := { pool with job_counter := pool.job_counter + 1 }
  (Job.new (next_job_id setup pool.job_counter) block_template
    (setup.config.coinbase_signature.map (fun c => UInt8.ofNat c.toNat)) setup.config.extranonce1_size
    setup.config.extranonce2_size setup.config.coinbase_version clean setup.donation_script
    setup.config.donation_percent, pool)

end Pool

def fastblock_eligible (has_template fastblock_pending : Bool) (notified_tip last_prevhash : Text)
    (next_height confirmations : Int) (chain_name bits_hex : Text) : Bool :=
  if ¬ has_template ∨ fastblock_pending then false
  else if bits_hex.isEmpty then false
  else if notified_tip = last_prevhash then false
  else if confirmations ≠ 1 then false
  else if next_height.tmod 2016 = 0 then false
  else if chain_name = "test".toList ∨ chain_name = "testnet4".toList then false
  else true

def block_subsidy (height halving_interval : Int) : UInt64 :=
  let halvings := if halving_interval > 0 then height.tdiv halving_interval else 0
  if halvings ≥ 64 then 0 else UInt64.ofNat (5000000000 >>> halvings.toNat)

/-- The witness commitment of a block without transactions. -/
def empty_commitment : Bytes :=
  [0x6a, 0x24, 0xaa, 0x21, 0xa9, 0xed] ++ (sha256d (List.replicate 64 0)).val

/-- The template `on_zmq_block` builds on the block it was told about. -/
def fastblock_template (env : Environment) (block_hash : Text) (header : HeaderFacts) (version : UInt32)
    (halving_interval : Int) : Except String BlockTemplate :=
  let next_height := header.height + 1
  match parse_hex_u32 header.bits_hex, serialize_height next_height with
  | .error message, _ => .error message
  | .ok _, .error message => .error message
  | .ok bits, .ok script_sig_prefix => .ok {
      height := next_height
      version := version
      curtime := max (UInt32.ofInt env.time) (header.mediantime + 1)
      bits := bits
      bits_hex := header.bits_hex
      coinbase_value := block_subsidy next_height halving_interval
      previousblockhash := block_hash
      coinbase_script_sig_prefix := script_sig_prefix
      coinbase_witness := some (List.replicate 32 0)
      coinbase_required_outputs := [⟨0, empty_commitment⟩] }

end erikslund
