import SoloPool.Stratum.Job

namespace erikslund.sv2

open util

def kCoreExtensionId : UInt16 := 0

def kProtocolVersion : UInt16 := 2

def kMiningProtocol : UInt8 := 0

def kSetupFlagRequiresStandardJobs : UInt32 := 1

def kSetupFlagRequiresVersionRolling : UInt32 := 4

def kSetupSuccessFlagRequiresFixedVersion : UInt32 := 1

structure SetupConnection where
  protocol : UInt8
  minimum_version : UInt16
  maximum_version : UInt16
  flags : UInt32
deriving DecidableEq

/-- Both open requests; the Extended one carries `minimum_extranonce_size`. A
`float` is a rational, or `none` when it is not finite. -/
structure OpenMiningChannel where
  request_id : UInt32
  user_identity : Text
  nominal_hash_rate : Option ℚ
  maximum_target : Hash256
deriving DecidableEq

structure UpdateChannel where
  channel_id : Nat
  nominal_hash_rate : Option ℚ
  maximum_target : Hash256
deriving DecidableEq

structure SubmitShares where
  channel_id : Nat
  sequence_number : UInt32
  job_id : UInt32
  nonce : UInt32
  ntime : UInt32
  version : UInt32
deriving DecidableEq

/-- A frame payload as its decoder returns it. `malformed` is a payload of a known
type that the decoder rejects. -/
inductive Payload where
  | setup_connection (message : SetupConnection)
  | open_standard_mining_channel (message : OpenMiningChannel)
  | open_extended_mining_channel (message : OpenMiningChannel) (minimum_extranonce_size : Nat)
  | update_channel (message : UpdateChannel)
  | close_channel (channel_id : Nat)
  | submit_shares_standard (message : SubmitShares)
  | submit_shares_extended (message : SubmitShares) (extranonce : Bytes)
  | malformed (is_setup_connection : Bool)
  | unknown
deriving DecidableEq

structure Frame where
  extension_id : UInt16
  is_channel_message : Bool
  payload : Payload
deriving DecidableEq

/-- `frame.message_type == SetupConnection::kMessageType`. -/
def Frame.is_setup (frame : Frame) : Bool :=
  match frame.payload with
  | .setup_connection _ | .malformed true => true
  | _ => false

structure NewMiningJob where
  channel_id : Nat
  job_id : UInt32
  minimum_ntime : Option UInt32
  version : UInt32
  merkle_root : Hash256
deriving DecidableEq

structure NewExtendedMiningJob where
  channel_id : Nat
  job_id : UInt32
  minimum_ntime : Option UInt32
  version : UInt32
  version_rolling_allowed : Bool
  merkle_path : List Hash256
  coinbase_tx_prefix : Bytes
  coinbase_tx_suffix : Bytes
deriving DecidableEq

structure SetNewPrevHash where
  channel_id : Nat
  job_id : UInt32
  previous_hash : Hash256
  minimum_ntime : UInt32
  nbits : UInt32
deriving DecidableEq

/-- What the session sends. -/
inductive Message where
  | setup_connection_success (used_version : UInt16) (flags : UInt32)
  | setup_connection_error (flags : UInt32) (error_code : String)
  | open_standard_mining_channel_success (request_id : UInt32) (channel_id : Nat) (target : Hash256)
      (extranonce : Bytes) (group_channel_id : Nat)
  | open_extended_mining_channel_success (request_id : UInt32) (channel_id : Nat) (target : Hash256)
      (extranonce_size : Nat) (extranonce : Bytes) (group_channel_id : Nat)
  | open_mining_channel_error (request_id : UInt32) (error_code : String)
  | update_channel_error (channel_id : Nat) (error_code : String)
  | submit_shares_success (channel_id : Nat) (last_sequence_number new_submits_accepted_count : UInt32)
      (new_shares_sum : Nat)
  | submit_shares_error (channel_id : Nat) (sequence_number : UInt32) (error_code : String)
  | new_mining_job (job : NewMiningJob)
  | new_extended_mining_job (job : NewExtendedMiningJob)
  | set_new_prev_hash (message : SetNewPrevHash)
  | set_extranonce_prefix (channel_id : Nat) (extranonce : Bytes)
  | set_target (channel_id : Nat) (maximum_target : Hash256)
deriving DecidableEq

/-- The first field the writer of `NewExtendedMiningJob` refuses. No other message the
session sends can be refused: their fields are of fixed width, literal error codes,
or extranonces of at most sixteen bytes. -/
def NewExtendedMiningJob.codec_error (message : NewExtendedMiningJob) : Option String :=
  if message.merkle_path.length > 255 then some "SV2 SEQ0_255[U256] exceeds 255 elements"
  else if message.coinbase_tx_prefix.length > 65535 then some "SV2 B0_64K exceeds 65535 bytes"
  else if message.coinbase_tx_suffix.length > 65535 then some "SV2 B0_64K exceeds 65535 bytes"
  else none

end erikslund.sv2
