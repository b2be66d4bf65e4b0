import SoloPool.Sv2.Session.Jobs

namespace erikslund.sv2.Session

open util stratum

/-- `std::popcount` of a 32-bit mask. -/
def popcount (mask : UInt32) : Nat := ((List.range 32).filter mask.toNat.testBit).length

variable (config : Config) (context : PoolContext) (session : Session) (channel : Channel)

def job_hashes (kind : ChannelKind) : ℚ :=
  let extranonce_bits :=
    if kind = .Extended ∧ config.extranonce2_size ≥ kChannelDiscriminatorBytes then
      (config.extranonce2_size - kChannelDiscriminatorBytes) * 8
    else 0
  kNonceSpace * 2 ^ (popcount session.version_mask + extranonce_bits)

def maximum_hash_rate (kind : ChannelKind) : ℚ :=
  let refresh_interval := if kind = .Standard then kJobRefreshSeconds else 1
  session.job_hashes config kind * kMaximumJobSpaceUtilization / refresh_interval

def difficulty_for_hashrate (nominal_hash_rate : ℚ) (config : RuntimeConfig) : ℚ :=
  let selected_difficulty := max config.initial_difficulty config.minimum_difficulty
  if config.variable_difficulty ∧ nominal_hash_rate > 0 then
    let hashrate_difficulty :=
      nominal_hash_rate * 60 / (kHashesPerDiff1Share * config.vardiff_target_shares_per_minute)
    let selected_difficulty := max selected_difficulty hashrate_difficulty
    if config.maximum_difficulty > 0 then min selected_difficulty config.maximum_difficulty
    else selected_difficulty
  else selected_difficulty

/-- The value `update_job_refresh_requirement_locked` stores. -/
def job_refresh_requirement (kind : ChannelKind)
    (nominal_hash_rate : ℚ) : Bool :=
  decide (kind = .Standard) && decide (nominal_hash_rate > session.job_hashes config .Standard)

/-- A nominal hash rate the session takes: finite, not negative and not above what the
job space of the channel kind can serve. -/
def checked_hash_rate (kind : ChannelKind)
    (nominal_hash_rate : Option ℚ) : Option ℚ :=
  nominal_hash_rate.filter (fun rate => decide (0 ≤ rate) && decide (rate ≤ session.maximum_hash_rate config kind))

/-- A channel whose future jobs follow a new target; active jobs keep their issued one. -/
def follow_target (new_target : uint256) : Channel :=
  { channel with
    jobs := channel.jobs.map (fun (job_id, issued) =>
      (job_id, if issued.follows_channel_target then { issued with target := new_target } else issued))
    target := new_target
    difficulty := difficulty_from_target new_target }

def change_target_locked (new_target : uint256) : Session :=
  (session.store_channel (follow_target channel new_target)).send_locked
    [.set_target channel.id new_target.le_bytes]

def handle_setup_locked (message : SetupConnection) : Session :=
  let supported_flags := kSetupFlagRequiresStandardJobs |||
    (if session.version_mask ≠ 0 then kSetupFlagRequiresVersionRolling else 0)
  let unsupported_flags := message.flags &&& ~~~supported_flags
  let refuse (flags : UInt32) (code : String) : Session :=
    { session.send_locked [.setup_connection_error flags code] with close_after_response := true }
  if message.protocol ≠ kMiningProtocol then refuse 0 "unsupported-protocol"
  else if message.minimum_version > kProtocolVersion ∨ message.maximum_version < kProtocolVersion then
    refuse 0 "protocol-version-mismatch"
  else if unsupported_flags ≠ 0 then refuse unsupported_flags "unsupported-feature-flags"
  else
    { session.send_locked [.setup_connection_success kProtocolVersion
        (if session.version_mask = 0 then kSetupSuccessFlagRequiresFixedVersion else 0)] with
      setup_complete := true
      requested_setup_flags := message.flags }

/-- The channel `open_channel_locked` emplaces, before its first job. -/
def opened_channel (message : OpenMiningChannel) (nominal_hash_rate : ℚ) (kind : ChannelKind)
    (address worker : Text) (payout_script : Bytes) (current_job : Job) : Channel :=
  let device_maximum_target := uint256.from_le_bytes message.maximum_target
  let target := uint256.min
    (target_from_difficulty (difficulty_for_hashrate nominal_hash_rate context.runtime_config))
    device_maximum_target
  { id := session.next_channel_id
    kind := kind
    address := address
    worker := worker
    payout_script := payout_script
    extranonce_prefix := match kind with
      | .Standard => []
      | .Extended => session.extranonce1 ++ Radix.be kChannelDiscriminatorBytes session.next_channel_id
    extranonce_size := match kind with
      | .Standard => 0
      | .Extended => config.extranonce2_size - kChannelDiscriminatorBytes
    device_maximum_target := device_maximum_target
    target := target
    difficulty := difficulty_from_target target
    last_publication_sequence := current_job.publication_sequence
    requires_frequent_job_refresh := session.job_refresh_requirement config kind nominal_hash_rate
    last_retarget_at_steady := context.steady_seconds
    shares_since_retarget := 0
    shares_accepted := 0
    shares_rejected := 0
    jobs := []
    previous_hash := none
    previous_bits := 0
    previous_hash_minimum_ntime := 0
    previous_hash_received_at_steady := 0 }

def emplace_channel : Session :=
  { session with
    channels := session.channels ++ [channel]
    next_channel_id := session.next_channel_id + 1
    ever_authorized := true }

/-- Emplace the channel, announce it and give it the current job. -/
def admit_channel (request_id : UInt32)
    (channel : Channel) (current_job : Job) : Session × Option String :=
  if session.channels.any (fun stored => stored.id = channel.id) then
    (session, some "SV2 channel ID collision")
  else
    let session := session.emplace_channel channel
    match channel.kind with
    | .Standard =>
      let (allocated, session) := session.allocate_extranonce_prefix_locked config
      let session := session.send_locked [.open_standard_mining_channel_success request_id channel.id
        channel.target.le_bytes allocated kGroupChannelId]
      session.issue_job_locked config channel current_job true (some allocated) context.steady_seconds
    | .Extended =>
      let session := session.send_locked [.open_extended_mining_channel_success request_id channel.id
        channel.target.le_bytes channel.extranonce_size channel.extranonce_prefix kGroupChannelId]
      session.issue_job_locked config channel current_job true none context.steady_seconds

def open_channel_locked
    (message : OpenMiningChannel) (kind : ChannelKind) : Session × Option String :=
  let refuse (session : Session) (code : String) : Session × Option String :=
    (session.send_locked [.open_mining_channel_error message.request_id code], none)
  let standard_channel_is_open := session.channels.any (fun channel => channel.kind = .Standard)
  if session.next_channel_id > kMaximumChannelId then
    refuse { session with close_after_response := true } "channel-limit-reached"
  else if (kind = .Standard ∧ ¬ session.channels.isEmpty) ∨
      (kind = .Extended ∧ (standard_channel_is_open ∨ session.channels.length ≥ kMaximumActiveChannels)) then
    refuse session "channel-limit-reached"
  else
    match session.checked_hash_rate config kind message.nominal_hash_rate with
    | none => refuse session.protocol_error "invalid-nominal-hash-rate"
    | some nominal_hash_rate =>
      if (uint256.from_le_bytes message.maximum_target).is_zero then
        refuse session.protocol_error "too-low-difficulty"
      else
        let address := (log.sanitize message.user_identity).takeWhile (· ≠ '.')
        let worker := log.ascii_only ((message.user_identity.dropWhile (· ≠ '.')).drop 1)
        match context.validate_address address with
        | none => refuse session.protocol_error "unknown-user"
        | some payout_script =>
          match context.current_job with
          | none => refuse session "work-not-ready"
          | some current_job =>
            session.admit_channel config context message.request_id
              (session.opened_channel config context message nominal_hash_rate kind address worker
                payout_script current_job) current_job

def handle_open_extended_locked
    (message : OpenMiningChannel) (minimum_extranonce_size : Nat) : Session × Option String :=
  if session.requested_setup_flags &&& kSetupFlagRequiresStandardJobs ≠ 0 then
    (session.protocol_error.send_locked
      [.open_mining_channel_error message.request_id "requires-standard-jobs"], none)
  else if config.extranonce2_size < kChannelDiscriminatorBytes ∨
      minimum_extranonce_size > config.extranonce2_size - kChannelDiscriminatorBytes then
    (session.protocol_error.send_locked
      [.open_mining_channel_error message.request_id "insufficient-extranonce-size"], none)
  else session.open_channel_locked config context message .Extended

/-- The channel once an accepted `UpdateChannel` is stored in it. -/
def updated_channel (nominal_hash_rate : ℚ)
    (maximum_target : uint256) : Channel :=
  { channel with
    device_maximum_target := maximum_target
    requires_frequent_job_refresh := session.job_refresh_requirement config channel.kind nominal_hash_rate }

/-- The target an `UpdateChannel` asks for. -/
def requested_target (config : RuntimeConfig) (channel : Channel) (nominal_hash_rate : ℚ) : uint256 :=
  uint256.min
    (if config.variable_difficulty ∧ nominal_hash_rate > 0 then
      target_from_difficulty (difficulty_for_hashrate nominal_hash_rate config)
    else channel.target) channel.device_maximum_target

def handle_update_locked (message : UpdateChannel) : Session × Option String :=
  let refuse (code : String) : Session × Option String :=
    (session.protocol_error.send_locked [.update_channel_error message.channel_id code], none)
  match session.find_channel message.channel_id with
  | none => refuse "invalid-channel"
  | some found =>
    match session.checked_hash_rate config found.kind message.nominal_hash_rate with
    | none => refuse "invalid-nominal-hash-rate"
    | some nominal_hash_rate =>
      let maximum_target := uint256.from_le_bytes message.maximum_target
      if maximum_target.is_zero then refuse "too-low-difficulty"
      else
        let frequent_refresh_was_required := found.requires_frequent_job_refresh
        let channel := session.updated_channel config found nominal_hash_rate maximum_target
        let session := session.store_channel channel
        let target := requested_target context.runtime_config channel nominal_hash_rate
        if target ≠ channel.target then (session.change_target_locked channel target, none)
        else if ¬ frequent_refresh_was_required ∧ channel.requires_frequent_job_refresh then
          match context.current_job with
          | some current_job =>
            session.issue_job_locked config channel current_job
              (requires_new_prevhash_locked channel current_job) none context.steady_seconds
          | none => (session, none)
        else (session, none)

def handle_close_locked (channel_id : Nat) : Session :=
  if channel_id = kGroupChannelId then
    if session.channels.isEmpty then session.protocol_error else { session with channels := [] }
  else if session.channels.any (fun channel => channel.id = channel_id) then
    { session with channels := session.channels.filter (fun channel => channel.id ≠ channel_id) }
  else session.protocol_error

/-- The target vardiff moves a channel to. An infinite difficulty is clamped to the cap. -/
def vardiff_target : uint256 :=
  let config := context.runtime_config
  let elapsed := context.steady_seconds - channel.last_retarget_at_steady
  let shares_per_minute := if elapsed > 0 then channel.shares_since_retarget / elapsed * 60 else 0
  let difficulty := channel.difficulty.getD
    (if config.maximum_difficulty > 0 then config.maximum_difficulty else 10 ^ 12)
  let requested_difficulty := vardiff_next difficulty shares_per_minute
    config.vardiff_target_shares_per_minute config.minimum_difficulty config.maximum_difficulty
  uint256.min (target_from_difficulty requested_difficulty) channel.device_maximum_target

/-- A channel at the start of a new retarget period. -/
def restart_period : Channel :=
  { channel with shares_since_retarget := 0, last_retarget_at_steady := context.steady_seconds }

/-- One round of the loop in `maybe_retarget`. -/
def retarget_channel : Session :=
  let elapsed := context.steady_seconds - channel.last_retarget_at_steady
  if elapsed < context.runtime_config.vardiff_retarget_seconds then session
  else
    let new_target := vardiff_target context channel
    let channel := restart_period context channel
    let session := session.store_channel channel
    if new_target = channel.target then session else session.change_target_locked channel new_target

def maybe_retarget : Session :=
  if ¬ context.runtime_config.variable_difficulty ∨ session.channels.isEmpty then session
  else session.channels.foldl (retarget_channel context) session

end erikslund.sv2.Session
