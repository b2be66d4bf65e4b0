import SoloPool.Lib.Generations
import SoloPool.Stratum.Context
import SoloPool.Sv2.Messages

namespace erikslund.sv2

open util stratum

def kGroupChannelId : Nat := 0

def kChannelDiscriminatorBytes : Nat := 2

def kMaximumChannelId : Nat := 65535

def kMaximumActiveChannels : Nat := 255

def kBip320VersionMask : UInt32 := 0x1fffe000

def kMaximumIssuedJobs : Nat := 8

def kNonceSpace : ℚ := 4294967296

def kMaximumJobSpaceUtilization : ℚ := 8 / 10

def kJobRefreshSeconds : ℚ := 1 / 4

def kHashesPerDiff1Share : ℚ := 4294967296

inductive ChannelKind where
  | Standard
  | Extended
deriving DecidableEq

inductive Work where
  | standard (work : StandardWork)
  | extended (work : ExtendedWork)
deriving DecidableEq

structure IssuedJob where
  source_job : Job
  work : Work
  extranonce_prefix : Bytes
  extranonce_size : Nat
  target : uint256
  minimum_ntime : UInt32
  follows_channel_target : Bool
deriving DecidableEq

structure JobBuildPlan where
  channel_id : Nat
  kind : ChannelKind
  source_job : Job
  payout_script : Bytes
  extranonce_prefix : Bytes
  extranonce_size : Nat
  job_id : UInt32
  announce_extranonce_prefix : Bool
deriving DecidableEq

structure ShareKey where
  channel_id : Nat
  job_id : UInt32
  nonce : UInt32
  ntime : UInt32
  version : UInt32
  extranonce : Bytes
deriving DecidableEq

structure ShareSubmission where
  kind : ChannelKind
  channel_id : Nat
  sequence_number : UInt32
  job_id : UInt32
  nonce : UInt32
  ntime : UInt32
  version : UInt32
  extranonce : Bytes
deriving DecidableEq

def ShareSubmission.key (share : ShareSubmission) : ShareKey :=
  ⟨share.channel_id, share.job_id, share.nonce, share.ntime, share.version, share.extranonce⟩

structure PreparedShare where
  issued_job : IssuedJob
  submitted_extranonce : Bytes
  issued_target : uint256
  version_rolling_mask : UInt32
  address : Text
  worker : Text
deriving DecidableEq

/-- Channel ids are natural numbers: the session never hands out one above
`kMaximumChannelId`. The empty `previous_hash` is `none`. -/
structure Channel where
  id : Nat
  kind : ChannelKind
  address : Text
  worker : Text
  payout_script : Bytes
  extranonce_prefix : Bytes
  extranonce_size : Nat
  device_maximum_target : uint256
  target : uint256
  difficulty : Option ℚ
  last_publication_sequence : Nat
  requires_frequent_job_refresh : Bool
  last_retarget_at_steady : ℚ
  shares_since_retarget : Nat
  shares_accepted : Nat
  shares_rejected : Nat
  jobs : List (UInt32 × IssuedJob)
  previous_hash : Option Hash256
  previous_bits : UInt32
  previous_hash_minimum_ntime : UInt32
  previous_hash_received_at_steady : ℚ
deriving DecidableEq

structure FoundBlock where
  source_job : Job
  result : ShareResult
  address : Text
  worker : Text
deriving DecidableEq

/-- The session under its mutex. `channels` is ordered by id; `sent` and `pool_calls`
record the messages sent and the pool callbacks made, oldest first. -/
structure Session where
  extranonce1 : Bytes
  extranonce_counter : Nat
  next_channel_id : Nat
  next_job_id : UInt32
  setup_complete : Bool
  requested_setup_flags : UInt32
  ever_authorized : Bool
  close_after_response : Bool
  protocol_errors : Nat
  version_mask : UInt32
  channels : List Channel
  last_clean_job : Option Job
  last_clean_publication_sequence : Nat
  seen_shares : Generations ShareKey
  pending_blocks : List FoundBlock
  shares_accepted : Nat
  shares_rejected : Nat
  sent : List Message
  pool_calls : List PoolCall
deriving DecidableEq

namespace Session

/-- The constructor. -/
def new (config : Config) (extranonce1 : Bytes) : Session where
  extranonce1 := extranonce1
  extranonce_counter := 0
  next_channel_id := 1
  next_job_id := 1
  setup_complete := false
  requested_setup_flags := 0
  ever_authorized := false
  close_after_response := false
  protocol_errors := 0
  version_mask := if config.version_rolling_mask = kBip320VersionMask then kBip320VersionMask else 0
  channels := []
  last_clean_job := none
  last_clean_publication_sequence := 0
  seen_shares := .empty
  pending_blocks := []
  shares_accepted := 0
  shares_rejected := 0
  sent := []
  pool_calls := []

variable (session : Session)

def send_locked (messages : List Message) : Session :=
  { session with sent := session.sent ++ messages }

def protocol_error : Session :=
  { session with protocol_errors := session.protocol_errors + 1 }

def call_pool (call : PoolCall) : Session :=
  { session with pool_calls := session.pool_calls ++ [call] }

/-- `channels_.find`. -/
def find_channel (channel_id : Nat) : Option Channel :=
  session.channels.find? (fun channel => channel.id = channel_id)

/-- Writing through a `Channel&`. -/
def store_channel (channel : Channel) : Session :=
  { session with
    channels := session.channels.map (fun stored => if stored.id = channel.id then channel else stored) }

end Session

end erikslund.sv2
