import SoloPool.Sv2.Session.Run

namespace erikslund.sv2

open util stratum

/-- A job about to be committed to a channel. -/
structure Issue where
  channel : Channel
  plan : JobBuildPlan
  clean : Bool

/-- A commit that gives the session its first clean job of a publication, which rotates the
share history. -/
def Issue.Rotates (session : Session) (issue : Issue) : Prop :=
  (issue.clean || Session.requires_new_prevhash_locked issue.channel issue.plan.source_job) = true ∧
    ¬ (session.last_clean_job = some issue.plan.source_job ∧
      session.last_clean_publication_sequence = issue.plan.source_job.publication_sequence)

instance (session : Session) (issue : Issue) : Decidable (issue.Rotates session) :=
  inferInstanceAs (Decidable (_ ∧ _))

namespace Session

variable (config : Config) (ctx : PoolContext) (session : Session)

/-- What `issue_job_locked` commits, unless the work cannot be built. -/
def built_issue (channel : Channel) (job : Job) (clean : Bool)
    (announced : Option Bytes) : Option Issue :=
  let plan := (session.prepare_job_locked config channel job announced).1
  if (build_job_work plan).isOk then some ⟨channel, plan, clean⟩ else none

/-- What an open commits if it is not refused. -/
def open_issue (msg : OpenMiningChannel)
    (kind : ChannelKind) : Option Issue :=
  let standard_channel_is_open := session.channels.any (fun channel => channel.kind = .Standard)
  if session.next_channel_id > kMaximumChannelId then none
  else if (kind = .Standard ∧ ¬ session.channels.isEmpty) ∨
      (kind = .Extended ∧ (standard_channel_is_open ∨ session.channels.length ≥ kMaximumActiveChannels)) then none
  else
    (session.checked_hash_rate config kind msg.nominal_hash_rate).bind fun nominal_hash_rate =>
      if (uint256.from_le_bytes msg.maximum_target).is_zero then none
      else
        let address := (log.sanitize msg.user_identity).takeWhile (· ≠ '.')
        let worker := log.ascii_only ((msg.user_identity.dropWhile (· ≠ '.')).drop 1)
        (ctx.validate_address address).bind fun payout_script =>
          ctx.current_job.bind fun current_job =>
            let channel := session.opened_channel config ctx msg nominal_hash_rate kind address worker
              payout_script current_job
            if session.channels.any (fun stored => stored.id = channel.id) then none
            else session.built_issue config channel current_job true (match kind with
              | .Standard => some (session.allocate_extranonce_prefix_locked config).1
              | .Extended => none)

def open_extended_issue (msg : OpenMiningChannel)
    (minimum_extranonce_size : Nat) : Option Issue :=
  if session.requested_setup_flags &&& kSetupFlagRequiresStandardJobs ≠ 0 then none
  else if config.extranonce2_size < kChannelDiscriminatorBytes ∨
      minimum_extranonce_size > config.extranonce2_size - kChannelDiscriminatorBytes then none
  else session.open_issue config ctx msg .Extended

/-- The channel as an `UpdateChannel` leaves it, and the job that this issues. -/
def update_issue (msg : UpdateChannel) :
    Option (Channel × Job) :=
  (session.find_channel msg.channel_id).bind fun found =>
    (session.checked_hash_rate config found.kind msg.nominal_hash_rate).bind fun nominal_hash_rate =>
      let maximum_target := uint256.from_le_bytes msg.maximum_target
      let channel := session.updated_channel config found nominal_hash_rate maximum_target
      if maximum_target.is_zero then none
      else if requested_target ctx.runtime_config channel nominal_hash_rate ≠ channel.target then none
      else if ¬ found.requires_frequent_job_refresh ∧ channel.requires_frequent_job_refresh then
        ctx.current_job.map (fun current_job => (channel, current_job))
      else none

/-- The payload of a frame that gets past the routing checks. -/
def routed (frame : Frame) : Option Payload :=
  if frame.extension_id ≠ kCoreExtensionId ∨ ¬ session.setup_complete ∨ frame.is_setup ∨
      (routing_error frame).isSome then none
  else some frame.payload

/-- The same for the `UpdateChannel` in a frame. -/
def frame_update (frame : Frame) :
    Option (Channel × Job) :=
  match session.routed frame with
  | some (.update_channel msg) => session.update_issue config ctx msg
  | _ => none

def frame_issue (frame : Frame) : Option Issue :=
  match session.routed frame with
  | some (.open_standard_mining_channel msg) => session.open_issue config ctx msg .Standard
  | some (.open_extended_mining_channel msg minimum_extranonce_size) =>
    session.open_extended_issue config ctx msg minimum_extranonce_size
  | some (.update_channel msg) =>
    (session.update_issue config ctx msg).bind fun (channel, current_job) =>
      session.built_issue config channel current_job (requires_new_prevhash_locked channel current_job) none
  | _ => none

/-- What the next critical section of a call commits. -/
def call_issue : Call → Option Issue
  | .publish job clean (plan :: _) => do
    let channel ← session.find_channel plan.channel_id
    if (build_job_work plan).isOk ∧
        ¬ (job.publication_sequence ≠ 0 ∧ job.publication_sequence ≤ channel.last_publication_sequence) then
      some ⟨{ channel with
        last_publication_sequence := max channel.last_publication_sequence job.publication_sequence }, plan, clean⟩
    else none
  | .refresh job plan => do
    let channel ← session.find_channel plan.channel_id
    if (build_job_work plan).isOk ∧ ¬ (channel.kind ≠ .Standard ∨ ¬ channel.requires_frequent_job_refresh) ∧
        ¬ (job.publication_sequence ≠ 0 ∧ job.publication_sequence < channel.last_publication_sequence) then
      some ⟨{ channel with
        last_publication_sequence := max channel.last_publication_sequence job.publication_sequence }, plan,
        requires_new_prevhash_locked channel job⟩
    else none
  | _ => none

end Session

variable (config : Config) (ctx : PoolContext) (server : Server)

/-- The job an `UpdateChannel` issues, told from the state before the step. -/
def Server.update : Event → Option (Channel × Job)
  | .frame frame => if server.share = none then server.session.frame_update config ctx frame else none
  | _ => none

/-- What a step commits, told from the state before it. -/
def Server.issue : Event → Option Issue
  | .frame frame => if server.share = none then server.session.frame_issue config ctx frame else none
  | .resume index => (server.calls[index]?).bind server.session.call_issue
  | _ => none

end erikslund.sv2
