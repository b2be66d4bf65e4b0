import SoloPool.Sv2.Session.State

namespace erikslund.sv2.Session

open util stratum

variable (config : Config) (session : Session) (channel : Channel) (plan : JobBuildPlan) (job : Job)

/-- The low `extranonce2_size` bytes of the counter, most significant first, after
`extranonce1`. -/
def allocate_extranonce_prefix_locked : Bytes × Session :=
  let counter := session.extranonce_counter + 1
  (session.extranonce1 ++ Radix.be config.extranonce2_size counter,
    { session with extranonce_counter := counter })

def allocate_job_id_locked : UInt32 × Session :=
  let next := session.next_job_id + 1
  (session.next_job_id, { session with next_job_id := if next = 0 then 1 else next })

/-- `last_clean_job_` is a weak pointer. A job whose object is gone is never given
again, so the option that stands for it need not expire. -/
def rotate_share_history_for_clean_job_locked : Session :=
  if session.last_clean_job = some job ∧
      session.last_clean_publication_sequence = job.publication_sequence then session
  else { session with
    last_clean_job := some job
    last_clean_publication_sequence := job.publication_sequence
    seen_shares := session.seen_shares.rotateIfNonempty }

def requires_new_prevhash_locked : Bool :=
  decide (channel.previous_hash ≠ some job.prevhash_internal) || decide (channel.previous_bits ≠ job.bits)

def prepare_job_locked (announced : Option Bytes) : JobBuildPlan × Session :=
  let (job_id, session) := session.allocate_job_id_locked
  match channel.kind with
  | .Standard =>
    let (allocated, session) :=
      match announced with
      | some announced => (announced, session)
      | none => session.allocate_extranonce_prefix_locked config
    ({ channel_id := channel.id
       kind := channel.kind
       source_job := job
       payout_script := channel.payout_script
       extranonce_prefix := allocated
       extranonce_size := 0
       job_id := job_id
       announce_extranonce_prefix := announced.isNone }, session)
  | .Extended =>
    ({ channel_id := channel.id
       kind := channel.kind
       source_job := job
       payout_script := channel.payout_script
       extranonce_prefix := channel.extranonce_prefix
       extranonce_size := channel.extranonce_size
       job_id := job_id
       announce_extranonce_prefix := false }, session)

def build_job_work : Except String Work :=
  match plan.kind with
  | .Standard => (plan.source_job.build_standard_work plan.payout_script plan.extranonce_prefix).map .standard
  | .Extended => .ok (.extended (plan.source_job.build_extended_work plan.payout_script))

/-- The minimum ntime a job is announced with: none for a future job. -/
def announced_ntime (clean_job : Bool) : Option UInt32 :=
  if clean_job then none else some job.curtime

def previous_hash_messages (clean_job : Bool) : List Message :=
  let job := plan.source_job
  if clean_job then
    [.set_new_prev_hash ⟨channel.id, plan.job_id, job.prevhash_internal, job.curtime, job.bits⟩]
  else []

def standard_messages (standard : StandardWork) (clean_job : Bool) :
    List Message :=
  (if plan.announce_extranonce_prefix then
    Message.set_extranonce_prefix channel.id plan.extranonce_prefix :: []
  else []) ++
  [.new_mining_job ⟨channel.id, plan.job_id, announced_ntime plan.source_job clean_job,
    plan.source_job.version, standard.merkle_root⟩]

def extended_message (version_mask : UInt32) (channel : Channel) (plan : JobBuildPlan) (extended : ExtendedWork)
    (clean_job : Bool) : NewExtendedMiningJob :=
  { channel_id := channel.id
    job_id := plan.job_id
    minimum_ntime := announced_ntime plan.source_job clean_job
    version := plan.source_job.version
    version_rolling_allowed := decide (version_mask ≠ 0)
    merkle_path := extended.merkle_path
    coinbase_tx_prefix := extended.coinbase_tx_prefix
    coinbase_tx_suffix := extended.coinbase_tx_suffix }

/-- The messages that announce an issued job, or what stops their encoding. -/
def job_messages (version_mask : UInt32) (channel : Channel) (plan : JobBuildPlan) (work : Work)
    (clean_job : Bool) : Except String (List Message) :=
  match channel.kind, work with
  | .Standard, .standard standard =>
    .ok (standard_messages channel plan standard clean_job ++ previous_hash_messages channel plan clean_job)
  | .Extended, .extended extended =>
    let message := extended_message version_mask channel plan extended clean_job
    match message.codec_error with
    | some error => .error error
    | none => .ok (.new_extended_mining_job message :: previous_hash_messages channel plan clean_job)
  | _, _ => .error "std::get: wrong index for variant"

/-- Drop from the front until `kMaximumIssuedJobs` remain. -/
def evict_jobs (jobs : List (UInt32 × IssuedJob)) : List (UInt32 × IssuedJob) :=
  jobs.drop (jobs.length - kMaximumIssuedJobs)

/-- The entry a commit makes for its channel. -/
def issued_job (work : Work) (clean_job : Bool) : IssuedJob where
  source_job := plan.source_job
  work := work
  extranonce_prefix := plan.extranonce_prefix
  extranonce_size := plan.extranonce_size
  target := channel.target
  minimum_ntime := plan.source_job.curtime
  follows_channel_target := clean_job

/-- The channel once the job is in its list, before anything is encoded. -/
def add_issued_job (work : Work) (clean_job : Bool) : Channel :=
  { channel with
    jobs := evict_jobs ((if clean_job then [] else channel.jobs) ++
      [(plan.job_id, issued_job channel plan work clean_job)]) }

/-- The channel after `SetNewPrevHash`. -/
def set_previous_hash (steady_seconds : ℚ) : Channel :=
  { channel with
    previous_hash := some job.prevhash_internal
    previous_bits := job.bits
    previous_hash_minimum_ntime := job.curtime
    previous_hash_received_at_steady := steady_seconds }

/-- The second component is the exception, if encoding throws one. -/
def commit_job_locked (work : Work)
    (clean : Bool) (steady_seconds : ℚ) : Session × Option String :=
  let job := plan.source_job
  let clean_job := clean || requires_new_prevhash_locked channel job
  let session := if clean_job then session.rotate_share_history_for_clean_job_locked job else session
  let channel := add_issued_job channel plan work clean_job
  match job_messages session.version_mask channel plan work clean_job with
  | .error error => (session.store_channel channel, some error)
  | .ok messages =>
    let channel := if clean_job then set_previous_hash channel job steady_seconds else channel
    ((session.store_channel channel).send_locked messages, none)

def issue_job_locked (clean : Bool)
    (announced : Option Bytes) (steady_seconds : ℚ) : Session × Option String :=
  let (plan, session) := session.prepare_job_locked config channel job announced
  match build_job_work plan with
  | .error error => (session, some error)
  | .ok work => session.commit_job_locked channel plan work clean steady_seconds

end erikslund.sv2.Session
