import SoloPool.Sv2.Wire.Fields

namespace erikslund.sv2.wire

open util Codec Writer

structure SetupConnection where
  protocol : UInt8
  minimum_version : UInt16
  maximum_version : UInt16
  flags : UInt32
  endpoint_host : Bytes
  endpoint_port : UInt16
  vendor : Bytes
  hardware_version : Bytes
  firmware : Bytes
  device_id : Bytes
deriving DecidableEq

namespace SetupConnection

def encode_payload (message : SetupConnection) : Except String Bytes :=
  writes [u8 message.protocol, u16 message.minimum_version, u16 message.maximum_version,
    u32 message.flags, string message.endpoint_host, u16 message.endpoint_port,
    string message.vendor, string message.hardware_version, string message.firmware,
    string message.device_id]

def parse : Reader UInt8 String SetupConnection := do
  let protocol ← Reader.u8
  let minimum_version ← Reader.u16
  let maximum_version ← Reader.u16
  let flags ← Reader.u32
  let endpoint_host ← Reader.string
  let endpoint_port ← Reader.u16
  let vendor ← Reader.string
  let hardware_version ← Reader.string
  let firmware ← Reader.string
  let device_id ← Reader.string
  return ⟨protocol, minimum_version, maximum_version, flags, endpoint_host, endpoint_port, vendor,
    hardware_version, firmware, device_id⟩

def Fits (message : SetupConnection) : Prop :=
  message.endpoint_host.length ≤ 255 ∧ message.vendor.length ≤ 255 ∧ message.hardware_version.length ≤ 255 ∧
    message.firmware.length ≤ 255 ∧ message.device_id.length ≤ 255

theorem codec : Total encode_payload parse Fits Eq := by
  refine Lossless.refit (.exact protocol u8_codec fun _ => .exact minimum_version u16_codec fun _ =>
    .exact maximum_version u16_codec fun _ => .exact flags u32_codec fun _ =>
    .exact endpoint_host string_codec fun _ => .exact endpoint_port u16_codec fun _ =>
    .exact vendor string_codec fun _ => .exact hardware_version string_codec fun _ =>
    .exact firmware string_codec fun _ => .exact device_id string_codec fun _ => .done ?_) ?_
  · rintro ⟨⟩
    simp [and_assoc]
  · simp [Fits]

end SetupConnection

def decode_setup_connection (payload : Bytes) : Except String SetupConnection :=
  decode SetupConnection.parse payload

structure SetupConnectionSuccess where
  used_version : UInt16
  flags : UInt32
deriving DecidableEq

namespace SetupConnectionSuccess

def encode_payload (message : SetupConnectionSuccess) : Except String Bytes :=
  writes [u16 message.used_version, u32 message.flags]

def parse : Reader UInt8 String SetupConnectionSuccess := do
  let used_version ← Reader.u16
  let flags ← Reader.u32
  return ⟨used_version, flags⟩

theorem codec : Total encode_payload parse (fun _ => True) Eq := by
  refine Lossless.refit (.exact used_version u16_codec fun _ => .exact flags u32_codec fun _ => .done ?_) ?_
  · rintro ⟨⟩
    simp
  · simp

end SetupConnectionSuccess

def decode_setup_connection_success (payload : Bytes) : Except String SetupConnectionSuccess :=
  decode SetupConnectionSuccess.parse payload

structure SetupConnectionError where
  flags : UInt32
  error_code : Bytes
deriving DecidableEq

namespace SetupConnectionError

def encode_payload (message : SetupConnectionError) : Except String Bytes :=
  writes [u32 message.flags, string message.error_code]

def parse : Reader UInt8 String SetupConnectionError := do
  let flags ← Reader.u32
  let error_code ← Reader.string
  return ⟨flags, error_code⟩

def Fits (message : SetupConnectionError) : Prop :=
  message.error_code.length ≤ 255

theorem codec : Total encode_payload parse Fits Eq := by
  refine Lossless.refit (.exact flags u32_codec fun _ => .exact error_code string_codec fun _ => .done ?_) ?_
  · rintro ⟨⟩
    simp
  · simp [Fits]

end SetupConnectionError

def decode_setup_connection_error (payload : Bytes) : Except String SetupConnectionError :=
  decode SetupConnectionError.parse payload

structure OpenStandardMiningChannel where
  request_id : UInt32
  user_identity : Bytes
  nominal_hash_rate : UInt32
  maximum_target : Hash256
deriving DecidableEq

namespace OpenStandardMiningChannel

def encode_payload (message : OpenStandardMiningChannel) : Except String Bytes :=
  writes [u32 message.request_id, string message.user_identity,
    f32 message.nominal_hash_rate, u256 message.maximum_target]

def parse : Reader UInt8 String OpenStandardMiningChannel := do
  let request_id ← Reader.u32
  let user_identity ← Reader.string
  let nominal_hash_rate ← Reader.f32
  let maximum_target ← Reader.u256
  return ⟨request_id, user_identity, nominal_hash_rate, maximum_target⟩

def Fits (message : OpenStandardMiningChannel) : Prop :=
  message.user_identity.length ≤ 255

theorem codec : Total encode_payload parse Fits Eq := by
  refine Lossless.refit (.exact request_id u32_codec fun _ => .exact user_identity string_codec fun _ =>
    .exact nominal_hash_rate u32_codec fun _ => .exact maximum_target u256_codec fun _ => .done ?_) ?_
  · rintro ⟨⟩
    simp [and_assoc]
  · simp [Fits]

end OpenStandardMiningChannel

def decode_open_standard_mining_channel (payload : Bytes) : Except String OpenStandardMiningChannel :=
  decode OpenStandardMiningChannel.parse payload

structure OpenStandardMiningChannelSuccess where
  request_id : UInt32
  channel_id : UInt32
  target : Hash256
  extranonce_prefix : Bytes
  group_channel_id : UInt32
deriving DecidableEq

namespace OpenStandardMiningChannelSuccess

def encode_payload (message : OpenStandardMiningChannelSuccess) : Except String Bytes :=
  writes [u32 message.request_id, u32 message.channel_id, u256 message.target,
    b0_32 message.extranonce_prefix, u32 message.group_channel_id]

def parse : Reader UInt8 String OpenStandardMiningChannelSuccess := do
  let request_id ← Reader.u32
  let channel_id ← Reader.u32
  let target ← Reader.u256
  let extranonce_prefix ← Reader.b0_32
  let group_channel_id ← Reader.u32
  return ⟨request_id, channel_id, target, extranonce_prefix, group_channel_id⟩

def Fits (message : OpenStandardMiningChannelSuccess) : Prop :=
  message.extranonce_prefix.length ≤ 32

theorem codec : Total encode_payload parse Fits Eq := by
  refine Lossless.refit (.exact request_id u32_codec fun _ => .exact channel_id u32_codec fun _ =>
    .exact target u256_codec fun _ => .exact extranonce_prefix b0_32_codec fun _ =>
    .exact group_channel_id u32_codec fun _ => .done ?_) ?_
  · rintro ⟨⟩
    simp [and_assoc]
  · simp [Fits]

end OpenStandardMiningChannelSuccess

def decode_open_standard_mining_channel_success (payload : Bytes) : Except String OpenStandardMiningChannelSuccess :=
  decode OpenStandardMiningChannelSuccess.parse payload

structure OpenMiningChannelError where
  request_id : UInt32
  error_code : Bytes
deriving DecidableEq

namespace OpenMiningChannelError

def encode_payload (message : OpenMiningChannelError) : Except String Bytes :=
  writes [u32 message.request_id, string message.error_code]

def parse : Reader UInt8 String OpenMiningChannelError := do
  let request_id ← Reader.u32
  let error_code ← Reader.string
  return ⟨request_id, error_code⟩

def Fits (message : OpenMiningChannelError) : Prop :=
  message.error_code.length ≤ 255

theorem codec : Total encode_payload parse Fits Eq := by
  refine Lossless.refit (.exact request_id u32_codec fun _ => .exact error_code string_codec fun _ => .done ?_) ?_
  · rintro ⟨⟩
    simp
  · simp [Fits]

end OpenMiningChannelError

def decode_open_mining_channel_error (payload : Bytes) : Except String OpenMiningChannelError :=
  decode OpenMiningChannelError.parse payload

structure OpenExtendedMiningChannel where
  request_id : UInt32
  user_identity : Bytes
  nominal_hash_rate : UInt32
  maximum_target : Hash256
  minimum_extranonce_size : UInt16
deriving DecidableEq

namespace OpenExtendedMiningChannel

def encode_payload (message : OpenExtendedMiningChannel) : Except String Bytes :=
  writes [u32 message.request_id, string message.user_identity,
    f32 message.nominal_hash_rate, u256 message.maximum_target,
    u16 message.minimum_extranonce_size]

def parse : Reader UInt8 String OpenExtendedMiningChannel := do
  let request_id ← Reader.u32
  let user_identity ← Reader.string
  let nominal_hash_rate ← Reader.f32
  let maximum_target ← Reader.u256
  let minimum_extranonce_size ← Reader.u16
  return ⟨request_id, user_identity, nominal_hash_rate, maximum_target, minimum_extranonce_size⟩

def Fits (message : OpenExtendedMiningChannel) : Prop :=
  message.user_identity.length ≤ 255

theorem codec : Total encode_payload parse Fits Eq := by
  refine Lossless.refit (.exact request_id u32_codec fun _ => .exact user_identity string_codec fun _ =>
    .exact nominal_hash_rate u32_codec fun _ => .exact maximum_target u256_codec fun _ =>
    .exact minimum_extranonce_size u16_codec fun _ => .done ?_) ?_
  · rintro ⟨⟩
    simp [and_assoc]
  · simp [Fits]

end OpenExtendedMiningChannel

def decode_open_extended_mining_channel (payload : Bytes) : Except String OpenExtendedMiningChannel :=
  decode OpenExtendedMiningChannel.parse payload

structure OpenExtendedMiningChannelSuccess where
  request_id : UInt32
  channel_id : UInt32
  target : Hash256
  extranonce_size : UInt16
  extranonce_prefix : Bytes
  group_channel_id : UInt32
deriving DecidableEq

namespace OpenExtendedMiningChannelSuccess

def encode_payload (message : OpenExtendedMiningChannelSuccess) : Except String Bytes :=
  writes [u32 message.request_id, u32 message.channel_id, u256 message.target,
    u16 message.extranonce_size, b0_32 message.extranonce_prefix,
    u32 message.group_channel_id]

def parse : Reader UInt8 String OpenExtendedMiningChannelSuccess := do
  let request_id ← Reader.u32
  let channel_id ← Reader.u32
  let target ← Reader.u256
  let extranonce_size ← Reader.u16
  let extranonce_prefix ← Reader.b0_32
  let group_channel_id ← Reader.u32
  return ⟨request_id, channel_id, target, extranonce_size, extranonce_prefix, group_channel_id⟩

def Fits (message : OpenExtendedMiningChannelSuccess) : Prop :=
  message.extranonce_prefix.length ≤ 32

theorem codec : Total encode_payload parse Fits Eq := by
  refine Lossless.refit (.exact request_id u32_codec fun _ => .exact channel_id u32_codec fun _ =>
    .exact target u256_codec fun _ => .exact extranonce_size u16_codec fun _ =>
    .exact extranonce_prefix b0_32_codec fun _ => .exact group_channel_id u32_codec fun _ => .done ?_) ?_
  · rintro ⟨⟩
    simp [and_assoc]
  · simp [Fits]

end OpenExtendedMiningChannelSuccess

def decode_open_extended_mining_channel_success (payload : Bytes) : Except String OpenExtendedMiningChannelSuccess :=
  decode OpenExtendedMiningChannelSuccess.parse payload

structure NewMiningJob where
  channel_id : UInt32
  job_id : UInt32
  minimum_ntime : Option UInt32
  version : UInt32
  merkle_root : Hash256
deriving DecidableEq

namespace NewMiningJob

def encode_payload (message : NewMiningJob) : Except String Bytes :=
  writes [u32 message.channel_id, u32 message.job_id, option_u32 message.minimum_ntime,
    u32 message.version, u256 message.merkle_root]

def parse : Reader UInt8 String NewMiningJob := do
  let channel_id ← Reader.u32
  let job_id ← Reader.u32
  let minimum_ntime ← Reader.option_u32
  let version ← Reader.u32
  let merkle_root ← Reader.u256
  return ⟨channel_id, job_id, minimum_ntime, version, merkle_root⟩

theorem codec : Total encode_payload parse (fun _ => True) Eq := by
  refine Lossless.refit (.exact channel_id u32_codec fun _ => .exact job_id u32_codec fun _ =>
    .exact minimum_ntime option_u32_codec fun _ => .exact version u32_codec fun _ =>
    .exact merkle_root u256_codec fun _ => .done ?_) ?_
  · rintro ⟨⟩
    simp [and_assoc]
  · simp

end NewMiningJob

def decode_new_mining_job (payload : Bytes) : Except String NewMiningJob := decode NewMiningJob.parse payload

structure UpdateChannel where
  channel_id : UInt32
  nominal_hash_rate : UInt32
  maximum_target : Hash256
deriving DecidableEq

namespace UpdateChannel

def encode_payload (message : UpdateChannel) : Except String Bytes :=
  writes [u32 message.channel_id, f32 message.nominal_hash_rate,
    u256 message.maximum_target]

def parse : Reader UInt8 String UpdateChannel := do
  let channel_id ← Reader.u32
  let nominal_hash_rate ← Reader.f32
  let maximum_target ← Reader.u256
  return ⟨channel_id, nominal_hash_rate, maximum_target⟩

theorem codec : Total encode_payload parse (fun _ => True) Eq := by
  refine Lossless.refit (.exact channel_id u32_codec fun _ => .exact nominal_hash_rate u32_codec fun _ =>
    .exact maximum_target u256_codec fun _ => .done ?_) ?_
  · rintro ⟨⟩
    simp [and_assoc]
  · simp

end UpdateChannel

def decode_update_channel (payload : Bytes) : Except String UpdateChannel := decode UpdateChannel.parse payload

structure UpdateChannelError where
  channel_id : UInt32
  error_code : Bytes
deriving DecidableEq

namespace UpdateChannelError

def encode_payload (message : UpdateChannelError) : Except String Bytes :=
  writes [u32 message.channel_id, string message.error_code]

def parse : Reader UInt8 String UpdateChannelError := do
  let channel_id ← Reader.u32
  let error_code ← Reader.string
  return ⟨channel_id, error_code⟩

def Fits (message : UpdateChannelError) : Prop :=
  message.error_code.length ≤ 255

theorem codec : Total encode_payload parse Fits Eq := by
  refine Lossless.refit (.exact channel_id u32_codec fun _ => .exact error_code string_codec fun _ => .done ?_) ?_
  · rintro ⟨⟩
    simp
  · simp [Fits]

end UpdateChannelError

def decode_update_channel_error (payload : Bytes) : Except String UpdateChannelError :=
  decode UpdateChannelError.parse payload

structure CloseChannel where
  channel_id : UInt32
  reason_code : Bytes
deriving DecidableEq

namespace CloseChannel

def encode_payload (message : CloseChannel) : Except String Bytes :=
  writes [u32 message.channel_id, string message.reason_code]

def parse : Reader UInt8 String CloseChannel := do
  let channel_id ← Reader.u32
  let reason_code ← Reader.string
  return ⟨channel_id, reason_code⟩

def Fits (message : CloseChannel) : Prop :=
  message.reason_code.length ≤ 255

theorem codec : Total encode_payload parse Fits Eq := by
  refine Lossless.refit (.exact channel_id u32_codec fun _ => .exact reason_code string_codec fun _ => .done ?_) ?_
  · rintro ⟨⟩
    simp
  · simp [Fits]

end CloseChannel

def decode_close_channel (payload : Bytes) : Except String CloseChannel := decode CloseChannel.parse payload

structure SetExtranoncePrefix where
  channel_id : UInt32
  extranonce_prefix : Bytes
deriving DecidableEq

namespace SetExtranoncePrefix

def encode_payload (message : SetExtranoncePrefix) : Except String Bytes :=
  writes [u32 message.channel_id, b0_32 message.extranonce_prefix]

def parse : Reader UInt8 String SetExtranoncePrefix := do
  let channel_id ← Reader.u32
  let extranonce_prefix ← Reader.b0_32
  return ⟨channel_id, extranonce_prefix⟩

def Fits (message : SetExtranoncePrefix) : Prop :=
  message.extranonce_prefix.length ≤ 32

theorem codec : Total encode_payload parse Fits Eq := by
  refine Lossless.refit (.exact channel_id u32_codec fun _ => .exact extranonce_prefix b0_32_codec fun _ =>
    .done ?_) ?_
  · rintro ⟨⟩
    simp
  · simp [Fits]

end SetExtranoncePrefix

def decode_set_extranonce_prefix (payload : Bytes) : Except String SetExtranoncePrefix :=
  decode SetExtranoncePrefix.parse payload

structure SubmitSharesStandard where
  channel_id : UInt32
  sequence_number : UInt32
  job_id : UInt32
  nonce : UInt32
  ntime : UInt32
  version : UInt32
deriving DecidableEq

namespace SubmitSharesStandard

def encode_payload (message : SubmitSharesStandard) : Except String Bytes :=
  writes [u32 message.channel_id, u32 message.sequence_number, u32 message.job_id,
    u32 message.nonce, u32 message.ntime, u32 message.version]

def parse : Reader UInt8 String SubmitSharesStandard := do
  let channel_id ← Reader.u32
  let sequence_number ← Reader.u32
  let job_id ← Reader.u32
  let nonce ← Reader.u32
  let ntime ← Reader.u32
  let version ← Reader.u32
  return ⟨channel_id, sequence_number, job_id, nonce, ntime, version⟩

theorem codec : Total encode_payload parse (fun _ => True) Eq := by
  refine Lossless.refit (.exact channel_id u32_codec fun _ => .exact sequence_number u32_codec fun _ =>
    .exact job_id u32_codec fun _ => .exact nonce u32_codec fun _ => .exact ntime u32_codec fun _ =>
    .exact version u32_codec fun _ => .done ?_) ?_
  · rintro ⟨⟩
    simp [and_assoc]
  · simp

end SubmitSharesStandard

def decode_submit_shares_standard (payload : Bytes) : Except String SubmitSharesStandard :=
  decode SubmitSharesStandard.parse payload

structure SubmitSharesExtended where
  channel_id : UInt32
  sequence_number : UInt32
  job_id : UInt32
  nonce : UInt32
  ntime : UInt32
  version : UInt32
  extranonce : Bytes
deriving DecidableEq

namespace SubmitSharesExtended

def encode_payload (message : SubmitSharesExtended) : Except String Bytes :=
  writes [u32 message.channel_id, u32 message.sequence_number, u32 message.job_id,
    u32 message.nonce, u32 message.ntime, u32 message.version,
    b0_32 message.extranonce]

def parse : Reader UInt8 String SubmitSharesExtended := do
  let channel_id ← Reader.u32
  let sequence_number ← Reader.u32
  let job_id ← Reader.u32
  let nonce ← Reader.u32
  let ntime ← Reader.u32
  let version ← Reader.u32
  let extranonce ← Reader.b0_32
  return ⟨channel_id, sequence_number, job_id, nonce, ntime, version, extranonce⟩

def Fits (message : SubmitSharesExtended) : Prop :=
  message.extranonce.length ≤ 32

theorem codec : Total encode_payload parse Fits Eq := by
  refine Lossless.refit (.exact channel_id u32_codec fun _ => .exact sequence_number u32_codec fun _ =>
    .exact job_id u32_codec fun _ => .exact nonce u32_codec fun _ => .exact ntime u32_codec fun _ =>
    .exact version u32_codec fun _ => .exact extranonce b0_32_codec fun _ => .done ?_) ?_
  · rintro ⟨⟩
    simp [and_assoc]
  · simp [Fits]

end SubmitSharesExtended

def decode_submit_shares_extended (payload : Bytes) : Except String SubmitSharesExtended :=
  decode SubmitSharesExtended.parse payload

structure SubmitSharesSuccess where
  channel_id : UInt32
  last_sequence_number : UInt32
  new_submits_accepted_count : UInt32
  new_shares_sum : UInt64
deriving DecidableEq

namespace SubmitSharesSuccess

def encode_payload (message : SubmitSharesSuccess) : Except String Bytes :=
  writes [u32 message.channel_id, u32 message.last_sequence_number,
    u32 message.new_submits_accepted_count, u64 message.new_shares_sum]

def parse : Reader UInt8 String SubmitSharesSuccess := do
  let channel_id ← Reader.u32
  let last_sequence_number ← Reader.u32
  let new_submits_accepted_count ← Reader.u32
  let new_shares_sum ← Reader.u64
  return ⟨channel_id, last_sequence_number, new_submits_accepted_count, new_shares_sum⟩

theorem codec : Total encode_payload parse (fun _ => True) Eq := by
  refine Lossless.refit (.exact channel_id u32_codec fun _ => .exact last_sequence_number u32_codec fun _ =>
    .exact new_submits_accepted_count u32_codec fun _ => .exact new_shares_sum u64_codec fun _ => .done ?_) ?_
  · rintro ⟨⟩
    simp [and_assoc]
  · simp

end SubmitSharesSuccess

def decode_submit_shares_success (payload : Bytes) : Except String SubmitSharesSuccess :=
  decode SubmitSharesSuccess.parse payload

structure SubmitSharesError where
  channel_id : UInt32
  sequence_number : UInt32
  error_code : Bytes
deriving DecidableEq

namespace SubmitSharesError

def encode_payload (message : SubmitSharesError) : Except String Bytes :=
  writes [u32 message.channel_id, u32 message.sequence_number, string message.error_code]

def parse : Reader UInt8 String SubmitSharesError := do
  let channel_id ← Reader.u32
  let sequence_number ← Reader.u32
  let error_code ← Reader.string
  return ⟨channel_id, sequence_number, error_code⟩

def Fits (message : SubmitSharesError) : Prop :=
  message.error_code.length ≤ 255

theorem codec : Total encode_payload parse Fits Eq := by
  refine Lossless.refit (.exact channel_id u32_codec fun _ => .exact sequence_number u32_codec fun _ =>
    .exact error_code string_codec fun _ => .done ?_) ?_
  · rintro ⟨⟩
    simp [and_assoc]
  · simp [Fits]

end SubmitSharesError

def decode_submit_shares_error (payload : Bytes) : Except String SubmitSharesError :=
  decode SubmitSharesError.parse payload

structure NewExtendedMiningJob where
  channel_id : UInt32
  job_id : UInt32
  minimum_ntime : Option UInt32
  version : UInt32
  version_rolling_allowed : Bool
  merkle_path : List Hash256
  coinbase_tx_prefix : Bytes
  coinbase_tx_suffix : Bytes
deriving DecidableEq

namespace NewExtendedMiningJob

def encode_payload (message : NewExtendedMiningJob) : Except String Bytes :=
  writes [u32 message.channel_id, u32 message.job_id, option_u32 message.minimum_ntime,
    u32 message.version, boolean message.version_rolling_allowed,
    sequence_u256 message.merkle_path, b0_64k message.coinbase_tx_prefix,
    b0_64k message.coinbase_tx_suffix]

def parse : Reader UInt8 String NewExtendedMiningJob := do
  let channel_id ← Reader.u32
  let job_id ← Reader.u32
  let minimum_ntime ← Reader.option_u32
  let version ← Reader.u32
  let version_rolling_allowed ← Reader.boolean
  let merkle_path ← Reader.sequence_u256
  let coinbase_tx_prefix ← Reader.b0_64k
  let coinbase_tx_suffix ← Reader.b0_64k
  return ⟨channel_id, job_id, minimum_ntime, version, version_rolling_allowed, merkle_path, coinbase_tx_prefix,
    coinbase_tx_suffix⟩

def Fits (message : NewExtendedMiningJob) : Prop :=
  message.merkle_path.length ≤ 255 ∧ message.coinbase_tx_prefix.length ≤ 65535 ∧
    message.coinbase_tx_suffix.length ≤ 65535

/-- Where the BOOL byte of a payload is: two U32 fields, an OPTION and a third U32 come before it. -/
def bool_offset (payload : Bytes) : Nat := 8 + (if payload.getD 8 0 = 0 then 1 else 5) + 4

/-- A payload with its BOOL byte replaced by the low bit. -/
def canonical (payload : Bytes) : Bytes := payload.modify (bool_offset payload) (· &&& 1)

theorem bool_offset_append {channel_id job_id ntime version : Bytes} (hchannel_id : channel_id.length = 4)
    (hjob_id : job_id.length = 4) (hntime : ntime.length = if ntime.getD 0 0 = 0 then 1 else 5)
    (hversion : version.length = 4) (rest : Bytes) :
    bool_offset (channel_id ++ (job_id ++ (ntime ++ (version ++ rest)))) =
      (channel_id ++ (job_id ++ (ntime ++ version))).length := by
  have hpositive : 0 < ntime.length := by
    rw [hntime]
    split <;> omega
  have hcount : (channel_id ++ (job_id ++ (ntime ++ (version ++ rest)))).getD 8 0 = ntime.getD 0 0 := by
    simp [List.getElem?_append, hchannel_id, hjob_id, hpositive]
  rw [bool_offset, hcount, ← hntime]
  simp only [List.length_append]
  omega

theorem modify_append (before : Bytes) (byte : UInt8) (after : Bytes) (f : UInt8 → UInt8) :
    (before ++ byte :: after).modify before.length f = before ++ f byte :: after := by
  induction before with
  | nil => rfl
  | cons first before ih => simp [ih]

theorem codec : Total encode_payload parse Fits (fun used bytes => bytes = canonical used) := by
  have hu32 := u32_codec.noting (·.length = 4) fun value bytes hwrite => by cases hwrite; simp
  have hntime := option_u32_codec.noting (fun bytes => bytes.length = if bytes.getD 0 0 = 0 then 1 else 5)
    fun value bytes hwrite => by cases value <;> cases hwrite <;> simp
  have hcodec : Total encode_payload parse Fits _ := Lossless.refit (.field channel_id hu32 fun _ =>
    .field job_id hu32 fun _ => .field minimum_ntime hntime fun _ => .field version hu32 fun _ =>
    .field version_rolling_allowed boolean_codec fun _ => .exact merkle_path sequence_u256_codec fun _ =>
    .exact coinbase_tx_prefix b0_64k_codec fun _ => .exact coinbase_tx_suffix b0_64k_codec fun _ => .done ?_) ?_
  · refine ⟨hcodec.writes_iff, hcodec.encodes, ?_⟩
    intro input message rest hread
    obtain ⟨-, used, bytes, hinput, hencodes, hbytes, hsame⟩ := hcodec.rewrites input message rest hread
    refine ⟨trivial, used, bytes, hinput, hencodes, hbytes, ?_⟩
    obtain ⟨channel_id, _, _, _, rfl, rfl, ⟨rfl, hchannel_id⟩, job_id, _, _, _, rfl, rfl, ⟨rfl, hjob_id⟩, ntime, _, _, _,
      rfl, rfl, ⟨rfl, hntime⟩, version, _, _, _, rfl, rfl, ⟨rfl, hversion⟩, _, tail, _, _, rfl, rfl, ⟨byte, rfl, rfl⟩,
      rfl⟩ := hsame
    rw [canonical, bool_offset_append hchannel_id hjob_id hntime hversion]
    have hmodify := modify_append (channel_id ++ (job_id ++ (ntime ++ version))) byte tail (· &&& 1)
    simp only [List.append_assoc] at hmodify
    exact hmodify.symm
  · rintro ⟨⟩
    simp [and_assoc]
  · simp [Fits]

end NewExtendedMiningJob

def decode_new_extended_mining_job (payload : Bytes) : Except String NewExtendedMiningJob :=
  decode NewExtendedMiningJob.parse payload

structure SetNewPrevHash where
  channel_id : UInt32
  job_id : UInt32
  previous_hash : Hash256
  minimum_ntime : UInt32
  nbits : UInt32
deriving DecidableEq

namespace SetNewPrevHash

def encode_payload (message : SetNewPrevHash) : Except String Bytes :=
  writes [u32 message.channel_id, u32 message.job_id, u256 message.previous_hash,
    u32 message.minimum_ntime, u32 message.nbits]

def parse : Reader UInt8 String SetNewPrevHash := do
  let channel_id ← Reader.u32
  let job_id ← Reader.u32
  let previous_hash ← Reader.u256
  let minimum_ntime ← Reader.u32
  let nbits ← Reader.u32
  return ⟨channel_id, job_id, previous_hash, minimum_ntime, nbits⟩

theorem codec : Total encode_payload parse (fun _ => True) Eq := by
  refine Lossless.refit (.exact channel_id u32_codec fun _ => .exact job_id u32_codec fun _ =>
    .exact previous_hash u256_codec fun _ => .exact minimum_ntime u32_codec fun _ =>
    .exact nbits u32_codec fun _ => .done ?_) ?_
  · rintro ⟨⟩
    simp [and_assoc]
  · simp

end SetNewPrevHash

def decode_set_new_prev_hash (payload : Bytes) : Except String SetNewPrevHash :=
  decode SetNewPrevHash.parse payload

structure SetTarget where
  channel_id : UInt32
  maximum_target : Hash256
deriving DecidableEq

namespace SetTarget

def encode_payload (message : SetTarget) : Except String Bytes :=
  writes [u32 message.channel_id, u256 message.maximum_target]

def parse : Reader UInt8 String SetTarget := do
  let channel_id ← Reader.u32
  let maximum_target ← Reader.u256
  return ⟨channel_id, maximum_target⟩

theorem codec : Total encode_payload parse (fun _ => True) Eq := by
  refine Lossless.refit (.exact channel_id u32_codec fun _ => .exact maximum_target u256_codec fun _ =>
    .done ?_) ?_
  · rintro ⟨⟩
    simp
  · simp

end SetTarget

def decode_set_target (payload : Bytes) : Except String SetTarget := decode SetTarget.parse payload

end erikslund.sv2.wire
