import SoloPool.Stratum.Message
import SoloPool.Stratum.Parent
import SoloPool.Stratum.Validators

namespace erikslund.stratum

open util bitcoin List

/-- A header word from its big-endian hex. -/
def header_word (text : Text) : Option Bytes := (try_parse_hex_u32 text).map le32_bytes

/-- The merkle root a miner computes: its coinbase hashed twice, folded with the announced
branch. -/
def miner_root (coinbase : Bytes) (branch : List Bytes) : Hash256 :=
  branch.foldl (fun node sibling => sha256d (node.val ++ sibling)) (sha256d coinbase)

/-- The header a Stratum V1 miner assembles from the parameters of `mining.notify`. -/
def Notify.header (notify : Notify) (extranonce1 extranonce2 : Bytes) (ntime_hex nonce_hex : Text) : Option Bytes := do
  let coinbase1 ← try_from_hex notify.coinbase1
  let coinbase2 ← try_from_hex notify.coinbase2
  let branch ← notify.merkle_branch.mapM try_from_hex
  let prevhash ← try_from_hex notify.prevhash
  let version ← header_word notify.version
  let nbits ← header_word notify.nbits
  let ntime ← header_word ntime_hex
  let nonce ← header_word nonce_hex
  let root := miner_root (coinbase1 ++ extranonce1 ++ extranonce2 ++ coinbase2) branch
  return version ++ swap_words prevhash ++ root.val ++ ntime ++ nbits ++ nonce

theorem miner_root_eq (coinbase : Bytes) (branch : List Hash256) :
    miner_root coinbase (branch.map Subtype.val) = merkle_root_from_branch (sha256d coinbase) branch := by
  rw [miner_root, merkle_root_from_branch, foldl_map]
  rfl

theorem mapM_try_from_hex (branch : List Hash256) :
    (branch.map (fun node => to_hex node.val)).mapM try_from_hex = some (branch.map Subtype.val) := by
  induction branch with
  | nil => rfl
  | cons node rest ih =>
    rw [map_cons, mapM_cons, try_from_hex_to_hex, ih]
    rfl

/-- The parameters of the notify for a job are decoded to what the job was built from. -/
theorem notify_header_eq {job : Job} (hnbits : try_parse_hex_u32 job.nbits_hex = some job.bits)
    (payout_script extranonce1 extranonce2 : Bytes) (clean : Bool) {ntime_hex nonce_hex : Text} {ntime nonce : UInt32}
    (hntime : try_parse_hex_u32 ntime_hex = some ntime) (hnonce : try_parse_hex_u32 nonce_hex = some nonce)
    {notify : Notify}
    (hnotify : make_notify_line job (to_hex (job.build_coinbase2 payout_script)) clean = .notify notify) :
    notify.header extranonce1 extranonce2 ntime_hex nonce_hex =
      some (job.build_header (job.merkle_root payout_script (extranonce1 ++ extranonce2)) ntime nonce job.version) := by
  cases hnotify
  have hversion : try_parse_hex_u32 job.version_hex = some job.version := try_parse_format_08x job.version
  have hroot : miner_root (job.coinbase1 ++ extranonce1 ++ extranonce2 ++ job.build_coinbase2 payout_script)
      (job.merkle_branch.map Subtype.val) = job.merkle_root payout_script (extranonce1 ++ extranonce2) := by
    rw [miner_root_eq, Job.merkle_root, Job.coinbase, append_assoc job.coinbase1]
  simp only [Notify.header, Job.coinbase1_hex, Job.merkle_branch_hex, Job.prevhash_stratum, try_from_hex_to_hex,
    mapM_try_from_hex, header_word, hversion, hnbits, hntime, hnonce, Option.map_some, Option.pure_def,
    Option.bind_eq_bind, Option.bind_some, swap_words_swap_words, hroot]
  rfl

/-- A miner that decodes the notify of a job built from a valid template, with extranonces of
the configured sizes and eight digits of ntime and nonce, assembles the header that
`validate_share` hashes, holds against the targets and returns for the same submission. -/
theorem miner_assembles_validated_header {job_id : Text} {block_template : BlockTemplate} {tag : Bytes}
    {extranonce1_size extranonce2_size : Nat} {coinbase_version : UInt32} {clean clean_jobs : Bool}
    {donation_script : Bytes} {donation_percent : ℚ} {job : Job} {notify : Notify}
    {payout_script extranonce1 extranonce2 : Bytes} {extranonce2_hex ntime_hex nonce_hex : Text}
    (share_target : uint256) (version_mask : UInt32) (now_unix : Int) (hvalid : block_template.Valid)
    (hjob : Job.new job_id block_template tag extranonce1_size extranonce2_size coinbase_version clean donation_script
      donation_percent = .ok job)
    (hnotify : make_notify_line job (to_hex (job.build_coinbase2 payout_script)) clean_jobs = .notify notify)
    (hextranonce2 : try_from_hex extranonce2_hex = some extranonce2)
    (hsize2 : extranonce2.length = extranonce2_size) (hntime : HexDigits ntime_hex ∧ ntime_hex.length = 8)
    (hnonce : HexDigits nonce_hex ∧ nonce_hex.length = 8) :
    ∃ header ntime, notify.header extranonce1 extranonce2 ntime_hex nonce_hex = some header ∧
      header.length = 80 ∧ try_parse_hex_u32 ntime_hex = some ntime ∧
      job.validate_share ⟨job.build_coinbase2 payout_script, extranonce1, extranonce2_hex, ntime_hex, nonce_hex,
          share_target, none, version_mask, now_unix⟩ =
        if ¬ job.ntime_in_range ntime now_unix then .error ⟨.NtimeOutOfRange, some 0⟩
        else job.verdict header (job.coinbase payout_script (extranonce1 ++ extranonce2)) share_target := by
  have hparse {text : Text} (h : HexDigits text ∧ text.length = 8) :=
    try_parse_hex_u32_eq h.1 (by omega) h.2.le
  have hbuilt := Job.new_spec hjob
  have hnbits : try_parse_hex_u32 job.nbits_hex = some job.bits := by
    rw [hbuilt.nbits_hex, hbuilt.bits]
    exact hvalid.parsed
  have hsize : extranonce2.length = job.extranonce2_size := by rw [hsize2, hbuilt.extranonce2_size]
  have hheader := notify_header_eq hnbits payout_script extranonce1 extranonce2 clean_jobs (hparse hntime)
    (hparse hnonce) hnotify
  refine ⟨_, _, hheader, Job.build_header_length .., hparse hntime, ?_⟩
  exact Job.validate_share_eq hextranonce2 hsize (hparse hntime) (hparse hnonce) rfl

/-- A template with two siblings on the path of its coinbase. -/
def branched_template : BlockTemplate :=
  { Job.minimal_template 1 900 with
    txn_count := 2
    merkle_branch_internal := [⟨replicate 32 2, by simp⟩, ⟨replicate 32 3, by simp⟩] }

/-- On that template the miner and the pool build one header. -/
theorem miner_assembles_validated_header_branched :
    ∃ job notify header, Job.new "1".toList branched_template [] 4 8 1 true [] 0 = .ok job ∧
      make_notify_line job (to_hex (job.build_coinbase2 [0x51])) true = .notify notify ∧
      notify.header [0, 0, 0, 1] [0, 0, 0, 0, 0, 0, 0, 2] "000003e8".toList "0000002A".toList = some header ∧
      header.length = 80 := by
  have hbuilt : ∃ job, Job.new "1".toList branched_template [] 4 8 1 true [] 0 = .ok job := by
    have hok : (Job.new "1".toList branched_template [] 4 8 1 true [] 0).isOk = true := by decide
    cases hjob : Job.new "1".toList branched_template [] 4 8 1 true [] 0 with
    | error message =>
      rw [hjob] at hok
      cases hok
    | ok job => exact ⟨job, rfl⟩
  obtain ⟨job, hjob⟩ := hbuilt
  obtain ⟨header, ntime, hheader, hlength, -⟩ :=
    @miner_assembles_validated_header "1".toList branched_template [] 4 8 1 true true [] 0 job _ [0x51] [0, 0, 0, 1]
      [0, 0, 0, 0, 0, 0, 0, 2] "0000000000000002".toList "000003e8".toList "0000002A".toList (.ofNat 0) 0 1000
      (by unfold BlockTemplate.Valid; decide) hjob rfl (by decide) (by decide)
      (by decide) (by decide)
  exact ⟨job, _, header, hjob, rfl, hheader, hlength⟩

end erikslund.stratum
