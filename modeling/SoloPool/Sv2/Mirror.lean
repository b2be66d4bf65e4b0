import SoloPool.Sv2.Session.Change

/-! A client that knows the wire only. It keeps, for each channel, what the messages it
has received say about the channel's jobs, and computes headers and targets from that. -/

namespace erikslund.sv2.mirror

open util stratum

inductive Work where
  | standard (merkle_root : Hash256)
  | extended (coinbase_start coinbase_end : Bytes) (merkle_path : List Hash256)
deriving DecidableEq

/-- A job as announced. `future` jobs came without a minimum ntime. -/
structure MiningJob where
  job_id : UInt32
  future : Bool
  work : Work
  extranonce_prefix : Bytes
  target : Hash256
deriving DecidableEq

structure Channel where
  target : Hash256
  extranonce_prefix : Bytes
  previous : Option (Hash256 × UInt32)
  jobs : List MiningJob
deriving DecidableEq

namespace Channel

variable (channel : Channel) (job : MiningJob)

/-- A new job takes the target and the prefix the channel has now. -/
def announce (job_id : UInt32) (minimum_ntime : Option UInt32) (work : Work) : Channel :=
  { channel with
    jobs := channel.jobs ++ [⟨job_id, minimum_ntime.isNone, work, channel.extranonce_prefix, channel.target⟩] }

/-- `SetTarget` reaches the jobs announced without a minimum ntime and those to come. -/
def set_target (target : Hash256) : Channel :=
  { channel with
    target := target
    jobs := channel.jobs.map (fun job => if job.future then { job with target := target } else job) }

/-- Only the job the message names goes on under the new parent. -/
def set_new_prev_hash (message : SetNewPrevHash) : Channel :=
  { channel with
    previous := some (message.previous_hash, message.nbits)
    jobs := channel.jobs.filter (fun job => job.job_id = message.job_id) }

def receive (channel : Option Channel) (message : Message) : Option Channel :=
  match message with
  | .open_standard_mining_channel_success _ _ target extranonce_prefix _ =>
    some ⟨target, extranonce_prefix, none, []⟩
  | .open_extended_mining_channel_success _ _ target _ extranonce_prefix _ =>
    some ⟨target, extranonce_prefix, none, []⟩
  | .new_mining_job job =>
    channel.map (announce · job.job_id job.minimum_ntime (.standard job.merkle_root))
  | .new_extended_mining_job job =>
    channel.map (announce · job.job_id job.minimum_ntime
      (.extended job.coinbase_tx_prefix job.coinbase_tx_suffix job.merkle_path))
  | .set_new_prev_hash message => channel.map (set_new_prev_hash · message)
  | Message.set_extranonce_prefix _ extranonce_prefix =>
    channel.map (fun channel => { channel with extranonce_prefix })
  | .set_target _ target => channel.map (set_target · target)
  | _ => channel

def merkle_root (extranonce : Bytes) : Hash256 :=
  match job.work with
  | .standard root => root
  | .extended coinbase_tx_prefix coinbase_tx_suffix merkle_path =>
    merkle_root_from_branch
      (sha256d <| coinbase_tx_prefix ++ job.extranonce_prefix ++ extranonce ++ coinbase_tx_suffix) merkle_path

/-- The header the client hashes for a job, once it knows a parent. -/
def header (ntime nonce version : UInt32) (extranonce : Bytes) :
    Option Bytes :=
  channel.previous.map (fun (previous_hash, nbits) =>
    le32_bytes version ++ previous_hash.val ++ (merkle_root job extranonce).val ++ le32_bytes ntime ++
      le32_bytes nbits ++ le32_bytes nonce)

end Channel

/-- What the client knows of every channel. -/
def Client : Type := Nat → Option Channel

namespace Client

def receive (client : Client) (message : Message) : Client :=
  fun channel_id =>
    if message.channel = some channel_id then Channel.receive (client channel_id) message
    else client channel_id

/-- The client after the messages sent so far. -/
def after (messages : List Message) : Client := messages.foldl receive (fun _ => none)

/-- A channel of the client is a function of the messages about it. -/
theorem after_eq (messages : List Message) (channel_id : Nat) :
    after messages channel_id = (stream channel_id messages).foldl Channel.receive none := by
  have hfold (client : Client) : messages.foldl receive client channel_id =
      (stream channel_id messages).foldl Channel.receive (client channel_id) := by
    induction messages generalizing client with
    | nil => rfl
    | cons message rest ih =>
      rw [List.foldl_cons, ih]
      by_cases hchannel : message.channel = some channel_id
      · simp [stream, receive, hchannel]
      · simp [stream, receive, hchannel]
  exact hfold _

end Client

end erikslund.sv2.mirror
