import SoloPool.Sv2.Wire.Messages

namespace erikslund.sv2.wire

open util Codec

/-- The messages of the protocol that the pool encodes or decodes. -/
inductive MessageType where
  | setup_connection
  | setup_connection_success
  | setup_connection_error
  | open_standard_mining_channel
  | open_standard_mining_channel_success
  | open_mining_channel_error
  | open_extended_mining_channel
  | open_extended_mining_channel_success
  | new_mining_job
  | update_channel
  | update_channel_error
  | close_channel
  | set_extranonce_prefix
  | submit_shares_standard
  | submit_shares_extended
  | submit_shares_success
  | submit_shares_error
  | new_extended_mining_job
  | set_new_prev_hash
  | set_target
deriving DecidableEq

namespace MessageType

def Value : MessageType → Type
  | setup_connection => SetupConnection
  | setup_connection_success => SetupConnectionSuccess
  | setup_connection_error => SetupConnectionError
  | open_standard_mining_channel => OpenStandardMiningChannel
  | open_standard_mining_channel_success => OpenStandardMiningChannelSuccess
  | open_mining_channel_error => OpenMiningChannelError
  | open_extended_mining_channel => OpenExtendedMiningChannel
  | open_extended_mining_channel_success => OpenExtendedMiningChannelSuccess
  | new_mining_job => NewMiningJob
  | update_channel => UpdateChannel
  | update_channel_error => UpdateChannelError
  | close_channel => CloseChannel
  | set_extranonce_prefix => SetExtranoncePrefix
  | submit_shares_standard => SubmitSharesStandard
  | submit_shares_extended => SubmitSharesExtended
  | submit_shares_success => SubmitSharesSuccess
  | submit_shares_error => SubmitSharesError
  | new_extended_mining_job => NewExtendedMiningJob
  | set_new_prev_hash => SetNewPrevHash
  | set_target => SetTarget

/-- The overloads of `encode_payload`. -/
def encode_payload : (type : MessageType) → type.Value → Except String Bytes
  | setup_connection => SetupConnection.encode_payload
  | setup_connection_success => SetupConnectionSuccess.encode_payload
  | setup_connection_error => SetupConnectionError.encode_payload
  | open_standard_mining_channel => OpenStandardMiningChannel.encode_payload
  | open_standard_mining_channel_success => OpenStandardMiningChannelSuccess.encode_payload
  | open_mining_channel_error => OpenMiningChannelError.encode_payload
  | open_extended_mining_channel => OpenExtendedMiningChannel.encode_payload
  | open_extended_mining_channel_success => OpenExtendedMiningChannelSuccess.encode_payload
  | new_mining_job => NewMiningJob.encode_payload
  | update_channel => UpdateChannel.encode_payload
  | update_channel_error => UpdateChannelError.encode_payload
  | close_channel => CloseChannel.encode_payload
  | set_extranonce_prefix => SetExtranoncePrefix.encode_payload
  | submit_shares_standard => SubmitSharesStandard.encode_payload
  | submit_shares_extended => SubmitSharesExtended.encode_payload
  | submit_shares_success => SubmitSharesSuccess.encode_payload
  | submit_shares_error => SubmitSharesError.encode_payload
  | new_extended_mining_job => NewExtendedMiningJob.encode_payload
  | set_new_prev_hash => SetNewPrevHash.encode_payload
  | set_target => SetTarget.encode_payload

/-- The `decode_` function of each message. -/
def decode_payload : (type : MessageType) → Bytes → Except String type.Value
  | setup_connection => decode_setup_connection
  | setup_connection_success => decode_setup_connection_success
  | setup_connection_error => decode_setup_connection_error
  | open_standard_mining_channel => decode_open_standard_mining_channel
  | open_standard_mining_channel_success => decode_open_standard_mining_channel_success
  | open_mining_channel_error => decode_open_mining_channel_error
  | open_extended_mining_channel => decode_open_extended_mining_channel
  | open_extended_mining_channel_success => decode_open_extended_mining_channel_success
  | new_mining_job => decode_new_mining_job
  | update_channel => decode_update_channel
  | update_channel_error => decode_update_channel_error
  | close_channel => decode_close_channel
  | set_extranonce_prefix => decode_set_extranonce_prefix
  | submit_shares_standard => decode_submit_shares_standard
  | submit_shares_extended => decode_submit_shares_extended
  | submit_shares_success => decode_submit_shares_success
  | submit_shares_error => decode_submit_shares_error
  | new_extended_mining_job => decode_new_extended_mining_job
  | set_new_prev_hash => decode_set_new_prev_hash
  | set_target => decode_set_target

/-- Every variable-length field is within its wire limit. -/
def Fits : (type : MessageType) → type.Value → Prop
  | setup_connection => SetupConnection.Fits
  | setup_connection_error => SetupConnectionError.Fits
  | open_standard_mining_channel => OpenStandardMiningChannel.Fits
  | open_standard_mining_channel_success => OpenStandardMiningChannelSuccess.Fits
  | open_mining_channel_error => OpenMiningChannelError.Fits
  | open_extended_mining_channel => OpenExtendedMiningChannel.Fits
  | open_extended_mining_channel_success => OpenExtendedMiningChannelSuccess.Fits
  | update_channel_error => UpdateChannelError.Fits
  | close_channel => CloseChannel.Fits
  | set_extranonce_prefix => SetExtranoncePrefix.Fits
  | submit_shares_extended => SubmitSharesExtended.Fits
  | submit_shares_error => SubmitSharesError.Fits
  | new_extended_mining_job => NewExtendedMiningJob.Fits
  | _ => fun _ => True

/-- The payload with its BOOL bytes replaced by their low bits. -/
def canonical : MessageType → Bytes → Bytes
  | new_extended_mining_job => NewExtendedMiningJob.canonical
  | _ => id

/-- The parser of each message undoes its writer. -/
theorem codec (type : MessageType) : ∃ parse : Reader UInt8 String type.Value,
    type.decode_payload = decode parse ∧
      Total type.encode_payload parse type.Fits (fun used bytes => bytes = type.canonical used) := by
  have exact_codec : ∀ {α : Type} {write : α → Except String Bytes} {read : Reader UInt8 String α} {fits : α → Prop},
      Total write read fits Eq → Total write read fits (fun used bytes => bytes = id used) := by
    intro α write read fits h
    refine ⟨h.writes_iff, h.encodes, ?_⟩
    intro input a rest hread
    obtain ⟨ha, used, bytes, hinput, hencodes, hbytes, hsame⟩ := h.rewrites input a rest hread
    exact ⟨ha, used, bytes, hinput, hencodes, hbytes, hsame.symm⟩
  cases type with
  | setup_connection => exact ⟨_, rfl, exact_codec SetupConnection.codec⟩
  | setup_connection_success => exact ⟨_, rfl, exact_codec SetupConnectionSuccess.codec⟩
  | setup_connection_error => exact ⟨_, rfl, exact_codec SetupConnectionError.codec⟩
  | open_standard_mining_channel => exact ⟨_, rfl, exact_codec OpenStandardMiningChannel.codec⟩
  | open_standard_mining_channel_success => exact ⟨_, rfl, exact_codec OpenStandardMiningChannelSuccess.codec⟩
  | open_mining_channel_error => exact ⟨_, rfl, exact_codec OpenMiningChannelError.codec⟩
  | open_extended_mining_channel => exact ⟨_, rfl, exact_codec OpenExtendedMiningChannel.codec⟩
  | open_extended_mining_channel_success => exact ⟨_, rfl, exact_codec OpenExtendedMiningChannelSuccess.codec⟩
  | new_mining_job => exact ⟨_, rfl, exact_codec NewMiningJob.codec⟩
  | update_channel => exact ⟨_, rfl, exact_codec UpdateChannel.codec⟩
  | update_channel_error => exact ⟨_, rfl, exact_codec UpdateChannelError.codec⟩
  | close_channel => exact ⟨_, rfl, exact_codec CloseChannel.codec⟩
  | set_extranonce_prefix => exact ⟨_, rfl, exact_codec SetExtranoncePrefix.codec⟩
  | submit_shares_standard => exact ⟨_, rfl, exact_codec SubmitSharesStandard.codec⟩
  | submit_shares_extended => exact ⟨_, rfl, exact_codec SubmitSharesExtended.codec⟩
  | submit_shares_success => exact ⟨_, rfl, exact_codec SubmitSharesSuccess.codec⟩
  | submit_shares_error => exact ⟨_, rfl, exact_codec SubmitSharesError.codec⟩
  | new_extended_mining_job => exact ⟨_, rfl, NewExtendedMiningJob.codec⟩
  | set_new_prev_hash => exact ⟨_, rfl, exact_codec SetNewPrevHash.codec⟩
  | set_target => exact ⟨_, rfl, exact_codec SetTarget.codec⟩

/-- A message can be encoded exactly when its fields are within the wire limits, and is then decoded as it
was. What a decoder accepts is encoded again to the same bytes, up to BOOL bytes. So no proper prefix of an
encoding is accepted, and no encoding with bytes after it. -/
theorem codec_lossless (type : MessageType) :
    (∀ msg : type.Value, (∃ payload, type.encode_payload msg = .ok payload) ↔ type.Fits msg) ∧
    (∀ (msg : type.Value) payload, type.encode_payload msg = .ok payload →
      type.decode_payload payload = .ok msg ∧
      (∀ count < payload.length, ∃ error, type.decode_payload (payload.take count) = .error error) ∧
      (∀ extra, extra ≠ [] → ∃ error, type.decode_payload (payload ++ extra) = .error error)) ∧
    (∀ payload (msg : type.Value), type.decode_payload payload = .ok msg →
      type.encode_payload msg = .ok (type.canonical payload)) := by
  obtain ⟨parse, hdecode, hcodec⟩ := type.codec
  rw [hdecode]
  -- A decoder that reads one payload and a shorter or longer one would leave two different rests.
  have hrefused : ∀ {payload extra : Bytes} {msg : type.Value}, extra ≠ [] →
      parse.Encodes payload msg → ∃ error, decode parse (payload ++ extra) = .error error := by
    intro payload extra msg hextra hencodes
    cases hdecoded : decode parse (payload ++ extra) with
    | error error => exact ⟨error, rfl⟩
    | ok msg' =>
      have hread := decode_eq_ok.mp hdecoded
      exact absurd (hread.unique (hencodes extra)).2.symm hextra
  have hread : ∀ {payload : Bytes} {msg : type.Value}, decode parse payload = .ok msg →
      parse.Encodes payload msg ∧ type.encode_payload msg = .ok (type.canonical payload) := by
    intro payload msg hdecoded
    obtain ⟨-, used, bytes, hpayload, hencodes, hbytes, rfl⟩ := hcodec.rewrites _ _ _ (decode_eq_ok.mp hdecoded)
    rw [List.append_nil] at hpayload
    rw [hpayload]
    exact ⟨hencodes, hbytes⟩
  refine ⟨fun msg => hcodec.writes_iff msg trivial, ?_, fun payload msg hdecoded => (hread hdecoded).2⟩
  intro msg payload hpayload
  have hencodes := hcodec.encodes msg payload trivial hpayload
  have hwhole : decode parse payload = .ok msg := by
    apply decode_eq_ok.mpr
    have hnothing := hencodes []
    rwa [List.append_nil] at hnothing
  refine ⟨hwhole, ?_, fun extra hextra => hrefused hextra hencodes⟩
  intro count hcount
  cases hdecoded : decode parse (payload.take count) with
  | error error => exact ⟨error, rfl⟩
  | ok msg' =>
    have hrest : payload.drop count ≠ [] := by
      intro hnil
      have hlength := congrArg List.length hnil
      rw [List.length_drop, List.length_nil] at hlength
      omega
    obtain ⟨error, herror⟩ := hrefused hrest (hread hdecoded).1
    rw [List.take_append_drop, hwhole] at herror
    cases herror

/-- A job whose BOOL byte is 3 is decoded, and encoded again with 1. -/
theorem codec_lossless_bool :
    decode_new_extended_mining_job [1, 0, 0, 0, 2, 0, 0, 0, 0, 0, 0, 0, 32, 3, 0, 0, 0, 0, 0] =
      .ok ⟨1, 2, none, 0x20000000, true, [], [], []⟩ ∧
    NewExtendedMiningJob.encode_payload ⟨1, 2, none, 0x20000000, true, [], [], []⟩ =
      .ok [1, 0, 0, 0, 2, 0, 0, 0, 0, 0, 0, 0, 32, 1, 0, 0, 0, 0, 0] :=
  ⟨rfl, (codec_lossless .new_extended_mining_job).2.2
    [1, 0, 0, 0, 2, 0, 0, 0, 0, 0, 0, 0, 32, 3, 0, 0, 0, 0, 0] _ rfl⟩

end MessageType

end erikslund.sv2.wire
