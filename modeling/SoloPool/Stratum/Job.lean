import SoloPool.Bitcoin.BlockTemplate
import SoloPool.Lib.NearestEven
import SoloPool.Util.Hex
import SoloPool.Util.Merkle
import SoloPool.Util.UInt256

namespace erikslund.stratum

open util bitcoin List

inductive ShareReject where
  | None
  | InvalidExtranonce2Size
  | MalformedField
  | NtimeOutOfRange
  | MalformedVersionBits
  | VersionRollingNotNegotiated
  | VersionBitsOutsideMask
  | AboveTarget
deriving DecidableEq

inductive RejectClass where
  | Stale
  | Duplicate
  | Malformed
  | Ntime
  | Version
  | LowDifficulty
deriving DecidableEq

def reject_reason : ShareReject → String
  | .None => "ok"
  | .InvalidExtranonce2Size => "invalid extranonce2 size"
  | .MalformedField => "malformed share field"
  | .NtimeOutOfRange => "ntime out of range"
  | .MalformedVersionBits => "malformed version bits"
  | .VersionRollingNotNegotiated => "version rolling not negotiated"
  | .VersionBitsOutsideMask => "version bits outside negotiated mask"
  | .AboveTarget => "above target"

def reject_class_of : ShareReject → RejectClass
  | .NtimeOutOfRange => .Ntime
  | .MalformedVersionBits | .VersionRollingNotNegotiated | .VersionBitsOutsideMask => .Version
  | .AboveTarget => .LowDifficulty
  | .None | .InvalidExtranonce2Size | .MalformedField => .Malformed

structure ShareRejection where
  reason : ShareReject
  difficulty : Option ℚ := some 0
deriving DecidableEq

structure ShareResult where
  difficulty : Option ℚ
  is_block : Bool
  header : Bytes
  legacy_coinbase : Bytes
  block_hash_hex : Text
deriving DecidableEq

structure StandardWork where
  legacy_coinbase : Bytes
  merkle_root : Hash256
deriving DecidableEq

structure ExtendedWork where
  coinbase_tx_prefix : Bytes
  coinbase_tx_suffix : Bytes
  merkle_path : List Hash256
deriving DecidableEq

/-- Display hex to `mining.notify` form: each 4-byte word byte-reversed. -/
def swap_words : Bytes → Bytes
  | a :: b :: c :: d :: rest => d :: c :: b :: a :: swap_words rest
  | rest => rest

/-- One template as mineable work. The texts the constructor caches are
functions of the other fields here, and the bounds it checks are fields. -/
structure Job where
  job_id : Text
  clean : Bool
  height : Int
  version : UInt32
  curtime : UInt32
  bits : UInt32
  coinbase_value : UInt64
  prevhash_internal : Hash256
  coinbase_sequence : UInt32
  coinbase_lock_time : UInt32
  coinbase_witness : Option Bytes
  coinbase_required_outputs : List CoinbaseOutput
  tag : Bytes
  extranonce_size : Nat
  extranonce2_size : Nat
  donation_script : Bytes
  donation_percent : ℚ
  txn_count : UInt32
  txn_data : Bytes
  merkle_branch : List Hash256
  coinbase1 : Bytes
  nbits_hex : Text
  publication_sequence : Nat
  extranonce2_le : extranonce2_size ≤ extranonce_size
  coinbase1_le : coinbase1.length ≤ 142
deriving DecidableEq

namespace Job

variable (job : Job)

def network_target : uint256 := target_from_compact job.bits

def prevhash_stratum : Text := to_hex (swap_words job.prevhash_internal.val)

def coinbase1_hex : Text := to_hex job.coinbase1

def merkle_branch_hex : List Text := job.merkle_branch.map (fun node => to_hex node.val)

def version_hex : Text := format_08x job.version.toNat

def ntime_hex : Text := format_08x job.curtime.toNat

/-- Identity of the mining work: equal signatures mean identical headers for any
extranonce and nonce. -/
def work_signature : Text :=
  job.prevhash_stratum ++ '|' :: job.version_hex ++ '|' :: job.nbits_hex ++ '|' :: job.ntime_hex ++
    '|' :: job.coinbase1_hex ++ '|' :: to_hex job.tag ++
    '|' :: to_string job.coinbase_value.toNat ++ '|' :: to_string job.coinbase_sequence.toNat ++
    '|' :: to_string job.coinbase_lock_time.toNat ++
    (match job.coinbase_witness with
      | some witness => '|' :: to_hex witness
      | none => []) ++
    job.coinbase_required_outputs.flatMap
      (fun output => '|' :: to_string output.value.toNat ++ ':' :: to_hex output.script) ++
    job.merkle_branch_hex.flatMap (fun branch => '|' :: branch)

theorem coinbase1_length {script_start : Bytes} {extranonce_total : Nat} {tag : Bytes} {version : UInt32}
    {coinbase1 : Bytes} (hbuilt : build_coinbase1 script_start extranonce_total tag version = .ok coinbase1) :
    coinbase1.length ≤ 142 := by
  by_cases hlong : script_start.length + extranonce_total + tag.length > kMaxScriptSig
  · simp [build_coinbase1, hlong] at hbuilt
  · simp only [build_coinbase1, if_neg hlong, Except.ok.injEq] at hbuilt
    subst hbuilt
    simp only [kMaxScriptSig, gt_iff_lt, Nat.not_lt] at hlong
    rw [encode_varint, if_pos (by omega)]
    simp only [length_append, le32_bytes_length, length_replicate, length_cons, length_nil]
    omega

/-- The constructor. -/
def new (job_id : Text) (block_template : BlockTemplate) (tag : Bytes)
    (extranonce1_size extranonce2_size : Nat) (coinbase_version : UInt32) (clean : Bool)
    (donation_script : Bytes) (donation_percent : ℚ) : Except String Job :=
  match from_hex block_template.previousblockhash with
  | .error message => .error message
  | .ok display =>
    if hprevhash : (reversed display).length = 32 then
      if block_template.coinbase_script_sig_prefix.isEmpty then .error "coinbase scriptSig prefix is empty"
      else
        match hbuilt : build_coinbase1 block_template.coinbase_script_sig_prefix
            (extranonce1_size + extranonce2_size) tag
            (block_template.coinbase_version.getD coinbase_version) with
        | .error message => .error message
        | .ok coinbase1 => .ok {
            job_id, clean, tag, extranonce2_size, donation_script, donation_percent, coinbase1
            height := block_template.height
            version := block_template.version
            curtime := block_template.curtime
            bits := block_template.bits
            coinbase_value := block_template.coinbase_value
            prevhash_internal := ⟨reversed display, hprevhash⟩
            coinbase_sequence := block_template.coinbase_sequence
            coinbase_lock_time := block_template.coinbase_lock_time
            coinbase_witness := block_template.coinbase_witness
            coinbase_required_outputs := block_template.coinbase_required_outputs
            extranonce_size := extranonce1_size + extranonce2_size
            txn_count := block_template.txn_count
            txn_data := block_template.txn_data
            merkle_branch := block_template.merkle_branch_internal
            nbits_hex := block_template.bits_hex
            publication_sequence := 0
            extranonce2_le := Nat.le_add_left _ _
            coinbase1_le := coinbase1_length hbuilt }
    else .error "previousblockhash is not 32 bytes"

def set_publication_sequence (sequence : Nat) : Job :=
  { job with publication_sequence := sequence }

/-- The nearest `double` to a number that is not negative. -/
def nearest_double (q : ℚ) : ℚ := NearestEven.round 52 (-1022) q

/-- The amount that `build_coinbase2` takes out of the coinbase value. Each operation rounds and
the cast back drops the fraction; from `2 ^ 64` on the cast has no meaning in the source. -/
def donation_amount : UInt64 :=
  let share := nearest_double (nearest_double job.coinbase_value.toNat * job.donation_percent)
  UInt64.ofNat ⌊nearest_double (share / 100)⌋₊

def build_coinbase2 (payout_script : Bytes) : Bytes :=
  let outputs : List CoinbaseOutput :=
    if job.donation_percent > 0 ∧ ¬ job.donation_script.isEmpty then
      let donation_amount := job.donation_amount
      [⟨job.coinbase_value - donation_amount, payout_script⟩, ⟨donation_amount, job.donation_script⟩]
    else [⟨job.coinbase_value, payout_script⟩]
  bitcoin.build_coinbase2 outputs job.coinbase_required_outputs job.tag job.coinbase_sequence
    job.coinbase_lock_time

def build_standard_work (payout_script extranonce_prefix : Bytes) : Except String StandardWork :=
  if extranonce_prefix.length ≠ job.extranonce_size then
    .error "SV2 extranonce prefix does not fill the template extranonce"
  else
    let legacy_coinbase := job.coinbase1 ++ extranonce_prefix ++ job.build_coinbase2 payout_script
    .ok ⟨legacy_coinbase, merkle_root_from_branch (sha256d legacy_coinbase) job.merkle_branch⟩

def build_extended_work (payout_script : Bytes) : ExtendedWork :=
  ⟨job.coinbase1, job.build_coinbase2 payout_script, job.merkle_branch⟩

def mines_on (tip_display_hex : Text) : Bool :=
  match from_hex tip_display_hex with
  | .ok display => reversed display = job.prevhash_internal.val
  | .error _ => false

/-- A template with no transactions at height one, for runs worked by hand. -/
def minimal_template (parent : UInt8) (curtime : UInt32) : BlockTemplate where
  height := 1
  version := 0x20000000
  curtime := curtime
  bits := 0x207fffff
  bits_hex := "207fffff".toList
  coinbase_value := 5000000000
  previousblockhash := to_hex (replicate 32 parent)
  coinbase_script_sig_prefix := [0x51]

/-- The job of a minimal template, as published with a sequence number. -/
def minimal (job_id : Text) (parent : UInt8) (curtime : UInt32) (publication_sequence : Nat) : Job where
  job_id := job_id
  clean := true
  height := 1
  version := 0x20000000
  curtime := curtime
  bits := 0x207fffff
  coinbase_value := 5000000000
  prevhash_internal := .filled parent
  coinbase_sequence := 0xffffffff
  coinbase_lock_time := 0
  coinbase_witness := none
  coinbase_required_outputs := []
  tag := []
  extranonce_size := 12
  extranonce2_size := 8
  donation_script := []
  donation_percent := 0
  txn_count := 0
  txn_data := []
  merkle_branch := []
  coinbase1 := [1, 0, 0, 0, 1] ++ replicate 32 0x00 ++ replicate 4 0xff ++ [13, 0x51]
  nbits_hex := "207fffff".toList
  publication_sequence := publication_sequence
  extranonce2_le := by decide
  coinbase1_le := by decide

-- Three tenths of a percent of 3.125 coins: 0.3 as a double is a little less, and rounding the
-- product makes up for it.
example : { minimal [] 1 0 0 with
    coinbase_value := 312500000, donation_percent := 5404319552844595 / 2 ^ 54 }.donation_amount = 937500 := by
  decide +kernel

example : Job.new "1".toList (minimal_template 1 900) [] 4 8 1 true [] 0 = .ok (minimal "1".toList 1 900 0) := by
  decide

end Job

end erikslund.stratum
