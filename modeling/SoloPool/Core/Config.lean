import SoloPool.Bitcoin.Coinbase
import Mathlib.Data.Rat.Defs

namespace erikslund

/-- The options a reload may change, as far as the sessions and the pool read them. -/
structure RuntimeConfig where
  initial_difficulty : ℚ := 1
  minimum_difficulty : ℚ := 1 / 1000
  maximum_difficulty : ℚ := 0
  variable_difficulty : Bool := true
  vardiff_target_shares_per_minute : ℚ := 12
  vardiff_retarget_seconds : Int := 60
  work_rebroadcast_seconds : ℚ := 30
  fast_block_notify : Bool := true
deriving DecidableEq

structure Config extends RuntimeConfig where
  version_rolling_mask : UInt32 := 0x1fffe000
  extranonce1_size : Nat := 4
  extranonce2_size : Nat := 8
  extranonce1_prefix : Bytes := []
  coinbase_signature : Text := "/erikslund-pool/".toList
  coinbase_version : UInt32 := 1
  donation_percent : ℚ := 0
  donation_address : Text := []
deriving DecidableEq

namespace Config

/-- The checks of `finalize_and_validate` over these options, in its order. -/
def finalize_and_validate (config : Config) : Except String Config :=
  let rollable := config.version_rolling_mask &&& 0x1fffe000
  if rollable = 0 then .error "version_rolling_mask must set at least one BIP320 bit (1fffe000)"
  else if config.donation_percent < 0 ∨ config.donation_percent > 100 then
    .error "donation_percent must be in [0.0, 100.0]"
  else if config.donation_percent > 0 ∧ config.donation_address.isEmpty then
    .error "donation_percent > 0 requires a donation_address"
  else if config.initial_difficulty ≤ 0 then .error "initial_difficulty must be > 0"
  else if config.minimum_difficulty ≤ 0 then .error "minimum_difficulty must be > 0"
  else if config.maximum_difficulty < 0 then .error "maximum_difficulty must be >= 0 (0 = no maximum)"
  else if config.maximum_difficulty > 0 ∧ config.maximum_difficulty < config.minimum_difficulty then
    .error "maximum_difficulty must be >= minimum_difficulty (or 0 for no maximum)"
  else if config.vardiff_target_shares_per_minute ≤ 0 then
    .error "vardiff_target_shares_per_minute must be > 0"
  else if config.vardiff_retarget_seconds < 1 then .error "vardiff_retarget_seconds must be >= 1"
  else if config.work_rebroadcast_seconds < 1 then .error "work_rebroadcast_seconds must be >= 1"
  else if config.extranonce1_size < 4 ∨ config.extranonce1_size > 8 then
    .error "extranonce1_size must be in [4, 8]"
  else if config.extranonce1_prefix.length > config.extranonce1_size - 4 then
    .error "extranonce1_prefix must leave at least 4 counter bytes"
  else if config.extranonce2_size < 2 ∨ config.extranonce2_size > 8 then
    .error "extranonce2_size must be in [2, 8]"
  else if bitcoin.kMaxHeightPush + config.extranonce1_size + config.extranonce2_size +
      config.coinbase_signature.length > bitcoin.kMaxScriptSig then
    .error ("coinbase_signature too long: it must leave room in the 100-byte coinbase scriptSig for " ++
      "the height push and extranonces")
  else .ok { config with version_rolling_mask := rollable }

/-- A configuration the pool can run with. -/
def Accepted (config : Config) : Prop := ∃ raw, finalize_and_validate raw = .ok config

theorem Accepted.extranonce_sizes {config : Config} (haccepted : config.Accepted) :
    config.extranonce1_size ≤ 8 ∧ 2 ≤ config.extranonce2_size ∧ config.extranonce2_size ≤ 8 := by
  obtain ⟨raw, hraw⟩ := haccepted
  simp only [finalize_and_validate, ite_eq_iff, reduceCtorEq, and_false, false_or, Except.ok.injEq] at hraw
  obtain ⟨-, -, -, -, -, -, -, -, -, -, hsize1, -, hsize2, -, rfl⟩ := hraw
  dsimp only
  omega

end Config

end erikslund
