import SoloPool.Lib.Run
import SoloPool.Sv2.Session.Shares

namespace erikslund.sv2

open util stratum

/-- What dispatching one frame leaves: the session, an exception, or a share whose
validation now runs without the mutex. -/
structure Dispatched where
  session : Session
  thrown : Option String := none
  share : Option (ShareSubmission × PreparedShare) := none

namespace Session

def handle_share (context : PoolContext) (session : Session) (share : ShareSubmission) : Dispatched :=
  let (session, prepared) := session.prepare_share_locked context share
  { session, share := prepared.map (fun prepared => (share, prepared)) }

def submission (kind : ChannelKind) (message : SubmitShares) (extranonce : Bytes) : ShareSubmission :=
  { kind := kind
    channel_id := message.channel_id
    sequence_number := message.sequence_number
    job_id := message.job_id
    nonce := message.nonce
    ntime := message.ntime
    version := message.version
    extranonce := extranonce }

/-- The share a frame submits. -/
def submitted (frame : Frame) : Option ShareSubmission :=
  match frame.payload with
  | .submit_shares_standard message => some (submission .Standard message [])
  | .submit_shares_extended message extranonce => some (submission .Extended message extranonce)
  | _ => none

/-- The routing bit a payload needs, and the text thrown when it has the other one. -/
def routing_error (frame : Frame) : Option String :=
  match frame.payload, frame.is_channel_message with
  | .open_standard_mining_channel _, true => some "OpenStandardMiningChannel has channel routing bit set"
  | .open_extended_mining_channel _ _, true => some "OpenExtendedMiningChannel has channel routing bit set"
  | .update_channel _, false => some "UpdateChannel is missing channel routing bit"
  | .close_channel _, false => some "CloseChannel is missing channel routing bit"
  | .submit_shares_standard _, false => some "SubmitSharesStandard is missing channel routing bit"
  | .submit_shares_extended _ _, false => some "SubmitSharesExtended is missing channel routing bit"
  | _, _ => none

def thrown (result : Session × Option String) : Dispatched := { session := result.1, thrown := result.2 }

def dispatch_locked (config : Config) (context : PoolContext) (session : Session) (frame : Frame) :
    Dispatched :=
  if frame.extension_id ≠ kCoreExtensionId then { session }
  else if ¬ session.setup_complete then
    if ¬ frame.is_setup ∨ frame.is_channel_message then
      { session := { session.protocol_error.send_locked
          [.setup_connection_error 0 "setup-connection-required"] with close_after_response := true } }
    else
      match frame.payload with
      | .setup_connection message => { session := session.handle_setup_locked message }
      | _ => { session, thrown := some "malformed SV2 message" }
  else if frame.is_setup then
    { session := { session.protocol_error.send_locked
        [.setup_connection_error 0 "setup-connection-already-complete"] with close_after_response := true } }
  else
    match routing_error frame with
    | some error => { session, thrown := some error }
    | none =>
      match frame.payload with
      | .open_standard_mining_channel message =>
        thrown (session.open_channel_locked config context message .Standard)
      | .open_extended_mining_channel message minimum_extranonce_size =>
        thrown (session.handle_open_extended_locked config context message minimum_extranonce_size)
      | .update_channel message => thrown (session.handle_update_locked config context message)
      | .close_channel channel_id => { session := session.handle_close_locked channel_id }
      | .submit_shares_standard message => session.handle_share context (submission .Standard message [])
      | .submit_shares_extended message extranonce =>
        session.handle_share context (submission .Extended message extranonce)
      | .malformed _ => { session, thrown := some "malformed SV2 message" }
      | _ => { session := session.protocol_error }

/-- The end of `handle_bytes`: the blocks found in the chunk go to the pool. -/
def deliver_blocks (session : Session) : Session :=
  { session with
    pending_blocks := []
    pool_calls := session.pool_calls ++ session.pending_blocks.map (fun block =>
      .on_block_found block.address block.worker block.source_job block.result) }

/-- The handler of `handle_bytes` around a thrown dispatch. -/
def after_dispatch (dispatched : Dispatched) : Session :=
  match dispatched.thrown with
  | none => dispatched.session
  | some _ => { dispatched.session.protocol_error with close_after_response := true }

end Session

/-- A `publish_job` or `maybe_refresh_job` call between two of its critical sections:
`publishing` and `refreshing` have looked their job up, `publish` and `refresh`
have prepared their plans. -/
inductive Call where
  | publishing (job : Job) (clean : Bool)
  | publish (job : Job) (clean : Bool) (plans : List JobBuildPlan)
  | refreshing (job : Job)
  | refresh (job : Job) (plan : JobBuildPlan)
deriving DecidableEq

def Call.plans : Call → List JobBuildPlan
  | .publish _ _ plans => plans
  | .refresh _ plan => [plan]
  | _ => []

def Call.job : Call → Job
  | .publishing job _ | .publish job _ _ | .refreshing job | .refresh job _ => job

namespace Session

variable (config : Config) (session : Session) (job : Job)

/-- The first critical section of `publish_job`: plans for every channel this
publication is news to. -/
def prepare_publication : List JobBuildPlan × Session :=
  session.channels.foldl (fun (plans, session) channel =>
    if job.publication_sequence ≠ 0 ∧ job.publication_sequence ≤ channel.last_publication_sequence then
      (plans, session)
    else
      let (plan, session) := session.prepare_job_locked config channel job none
      (plans ++ [plan], session)) ([], session)

/-- Building one plan and the critical section that commits it. -/
def commit_publication (clean : Bool) (plan : JobBuildPlan)
    (steady_seconds : ℚ) : Session × Option String :=
  match build_job_work plan with
  | .error error => (session, some error)
  | .ok work =>
    match session.find_channel plan.channel_id with
    | none => (session, none)
    | some channel =>
      if job.publication_sequence ≠ 0 ∧ job.publication_sequence ≤ channel.last_publication_sequence then
        (session, none)
      else
        let channel := { channel with
          last_publication_sequence := max channel.last_publication_sequence job.publication_sequence }
        session.commit_job_locked channel plan work clean steady_seconds

/-- The first critical section of `maybe_refresh_job`. -/
def prepare_refresh : Option (JobBuildPlan × Session) :=
  (session.channels.find? (fun channel =>
    decide (channel.kind = .Standard) && channel.requires_frequent_job_refresh)).map
      (fun channel => session.prepare_job_locked config channel job none)

/-- The second one, after the plan is built. -/
def commit_refresh (plan : JobBuildPlan) (steady_seconds : ℚ) :
    Session × Option String :=
  match build_job_work plan with
  | .error error => (session, some error)
  | .ok work =>
    match session.find_channel plan.channel_id with
    | none => (session, none)
    | some channel =>
      if channel.kind ≠ .Standard ∨ ¬ channel.requires_frequent_job_refresh then (session, none)
      else if job.publication_sequence ≠ 0 ∧ job.publication_sequence < channel.last_publication_sequence then
        (session, none)
      else
        let channel := { channel with
          last_publication_sequence := max channel.last_publication_sequence job.publication_sequence }
        session.commit_job_locked channel plan work (requires_new_prevhash_locked channel job) steady_seconds

/-- Take a call through its next critical section. `none` ends it. -/
def resume_call (context : PoolContext) (session : Session) (call : Call) :
    Session × Option Call :=
  match call with
  | .publishing job clean =>
    if session.channels.isEmpty then (session, none)
    else
      let (plans, session) := session.prepare_publication config job
      (session, some (.publish job clean plans))
  | .publish _ _ [] => (session, none)
  | .publish job clean (plan :: plans) =>
    match session.commit_publication job clean plan context.steady_seconds with
    | (session, none) => (session, some (.publish job clean plans))
    | (session, some _) => (session, none)
  | .refreshing job =>
    match session.prepare_refresh config job with
    | none => (session, none)
    | some (plan, session) => (session, some (.refresh job plan))
  | .refresh job plan => ((session.commit_refresh job plan context.steady_seconds).1, none)

end Session

/-- A session with the threads inside it: the calls in flight, and the share the
connection's own thread is validating. `remembered` and `accepted` are the keys
`remember_share_locked` has taken and the keys of the shares accepted, newest first. -/
structure Server where
  session : Session
  calls : List Call
  share : Option (ShareSubmission × PreparedShare)
  remembered : List ShareKey
  accepted : List ShareKey
deriving DecidableEq

/-- The atomic steps. A frame is dispatched only by the connection's thread, so never
while that thread is validating a share. -/
inductive Event where
  | frame (frame : Frame)
  | finish_share
  | deliver_blocks
  | publish_job (job_id : Text) (clean : Bool)
  | maybe_refresh_job
  | resume (index : Nat)
  | maybe_retarget
deriving DecidableEq

namespace Server

variable (config : Config) (extranonce1 : Bytes)

def init : Server :=
  ⟨.new config extranonce1, [], none, [], []⟩

/-- The job `publish_job` looks up under the id of the one it is given. -/
def published_job (context : PoolContext) (job_id : Text) : Option Job :=
  match context.recent_job job_id with
  | some job => some job
  | none => context.current_job.filter (fun job => job.job_id = job_id)

/-- The key a frame makes the session remember, if it is new. -/
def remembered_key (session session' : Session) (frame : Frame) : Option ShareKey :=
  ((Session.submitted frame).map ShareSubmission.key).filter
    (fun key => ¬ session.seen_shares.Remembers key ∧ session'.seen_shares.Remembers key)

def step (server : Server) (action : PoolContext × Event) : Server :=
  let (context, event) := action
  let session := server.session
  match event with
  | .frame frame =>
    match server.share with
    | some _ => server
    | none =>
      let dispatched := session.dispatch_locked config context frame
      { server with
        session := Session.after_dispatch dispatched
        share := dispatched.share
        remembered := (remembered_key session dispatched.session frame).toList ++ server.remembered }
  | .finish_share =>
    match server.share with
    | none => server
    | some (share, prepared) =>
      { server with
        session := session.finish_share context share prepared
        share := none
        accepted := if (Session.validate_share share prepared context.time).isOk then
            share.key :: server.accepted
          else server.accepted }
  | .deliver_blocks =>
    match server.share with
    | some _ => server
    | none => { server with session := session.deliver_blocks }
  | .publish_job job_id clean =>
    match published_job context job_id with
    | none => server
    | some job => { server with calls := server.calls ++ [.publishing job clean] }
  | .maybe_refresh_job =>
    match context.current_job with
    | none => server
    | some job => { server with calls := server.calls ++ [.refreshing job] }
  | .resume index =>
    match server.calls[index]? with
    | none => server
    | some call =>
      let (session, call) := session.resume_call config context call
      { server with session, calls := server.calls.take index ++ call.toList ++ server.calls.drop (index + 1) }
  | .maybe_retarget => { server with session := session.maybe_retarget context }

/-- The state a fresh session reaches by taking `actions` in order. -/
def reached (actions : List (PoolContext × Event)) : Server :=
  Transition.run (step config) (init config extranonce1) actions

theorem reached_append (as bs : List (PoolContext × Event)) :
    reached config extranonce1 (as ++ bs) = Transition.run (step config) (reached config extranonce1 as) bs :=
  Transition.run_append _ _ _ _

end Server

end erikslund.sv2
