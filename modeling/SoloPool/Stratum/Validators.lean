import SoloPool.Stratum.Validate

namespace erikslund.stratum

open util bitcoin

namespace Job

/-- The coinbase that pays `payout_script`, with its extranonce filled in. -/
def coinbase (job : Job) (payout_script extranonce : Bytes) : Bytes :=
  job.coinbase1 ++ extranonce ++ job.build_coinbase2 payout_script

/-- The merkle root of the block with that coinbase. -/
def merkle_root (job : Job) (payout_script extranonce : Bytes) : Hash256 :=
  merkle_root_from_branch (sha256d (job.coinbase payout_script extranonce)) job.merkle_branch

/-- What the three validators compute once a submission is decoded: the ntime window, and the
header over the work of `payout_script` and `extranonce`. -/
def validate_work (job : Job) (payout_script extranonce : Bytes) (ntime nonce version : UInt32)
    (share_target : uint256) (now_unix : Int) : Except ShareRejection ShareResult :=
  if ¬ job.ntime_in_range ntime now_unix then .error ⟨.NtimeOutOfRange, some 0⟩
  else
    job.validate_header (job.coinbase payout_script extranonce) (job.merkle_root payout_script extranonce) ntime nonce
      version share_target

/-- What the hash of a header is worth on the job: a block, a share, or nothing. -/
def verdict (job : Job) (header legacy_coinbase : Bytes) (share_target : uint256) :
    Except ShareRejection ShareResult :=
  let hash_value := uint256.from_le_bytes (sha256d header)
  if ¬ meets_target hash_value job.network_target ∧ ¬ meets_target hash_value share_target then
    .error ⟨.AboveTarget, difficulty_from_target hash_value⟩
  else .ok ⟨difficulty_from_target hash_value, meets_target hash_value job.network_target, header,
    legacy_coinbase, to_hex_reversed (sha256d header).val⟩

theorem validate_header_eq (job : Job) (legacy_coinbase : Bytes) (root : Hash256)
    (ntime nonce version : UInt32) (share_target : uint256) :
    job.validate_header legacy_coinbase root ntime nonce version share_target =
      job.verdict (job.build_header root ntime nonce version) legacy_coinbase share_target := rfl

/-- The version a miner that may roll `version_mask` is paid for. -/
def version_with (job : Job) (version_mask rolled : UInt32) : UInt32 := (job.version &&& ~~~version_mask) ||| rolled

variable {job : Job} {payout_script extranonce1 extranonce2 : Bytes} {ntime nonce version_mask rolled : UInt32}
  {share_target : uint256} {now_unix : Int}

theorem and_or_distrib (a b c : UInt32) : a &&& (b ||| c) = (a &&& b) ||| (a &&& c) := by
  apply UInt32.eq_of_toBitVec_eq
  simp only [UInt32.toBitVec_and, UInt32.toBitVec_or, BitVec.and_or_distrib_left]

theorem version_with_fixed (job : Job) (hrolled : rolled &&& ~~~version_mask = 0) :
    job.version_with version_mask rolled &&& ~~~version_mask = job.version &&& ~~~version_mask := by
  rw [UInt32.and_comm] at hrolled
  rw [version_with, UInt32.and_comm, and_or_distrib, hrolled, UInt32.or_zero, UInt32.and_comm, UInt32.and_assoc,
    UInt32.and_self]

theorem rolled_version_eq {bits_hex : Text} (hbits : try_parse_hex_u32 bits_hex = some rolled)
    (hrolled : rolled &&& ~~~version_mask = 0) :
    job.rolled_version (some bits_hex) version_mask = .ok (job.version_with version_mask rolled) := by
  by_cases hmask : version_mask = 0
  · subst hmask
    have hzero : rolled = 0 := by simpa using hrolled
    subst hzero
    simp [rolled_version, hbits, version_with]
  · have hkept : rolled &&& version_mask = rolled := by
      have hsplit : rolled &&& (version_mask ||| ~~~version_mask) = rolled := by simp
      rwa [and_or_distrib, hrolled, UInt32.or_zero] at hsplit
    simp [rolled_version, hbits, hmask, hrolled, hkept, version_with]

/-- The SV1 validator on a submission that decodes. -/
theorem validate_share_eq {extranonce2_hex ntime_hex nonce_hex : Text} {version_bits_hex : Option Text}
    {version : UInt32} (hextranonce2 : try_from_hex extranonce2_hex = some extranonce2)
    (hsize : extranonce2.length = job.extranonce2_size) (hntime : try_parse_hex_u32 ntime_hex = some ntime)
    (hnonce : try_parse_hex_u32 nonce_hex = some nonce)
    (hversion : job.rolled_version version_bits_hex version_mask = .ok version) :
    job.validate_share ⟨job.build_coinbase2 payout_script, extranonce1, extranonce2_hex, ntime_hex, nonce_hex,
        share_target, version_bits_hex, version_mask, now_unix⟩ =
      job.validate_work payout_script (extranonce1 ++ extranonce2) ntime nonce version share_target now_unix := by
  have hlength : ¬ extranonce2_hex.length > job.extranonce2_size * 2 := by
    rw [try_from_hex_length hextranonce2, hsize]
    omega
  simp only [validate_share, if_neg hlength, hextranonce2, hntime, hnonce, hsize, ne_eq, not_true_eq_false, if_false,
    hversion, validate_work, merkle_root, coinbase, List.append_assoc]

/-- The SV2 validator for Extended channels, on the work it is given and any split of the
extranonce. -/
theorem validate_extended_share_eq {start extranonce : Bytes} {version : UInt32}
    (hsize : (start ++ extranonce).length = job.extranonce_size)
    (hversion : version &&& ~~~version_mask = job.version &&& ~~~version_mask) :
    job.validate_extended_share (job.build_extended_work payout_script)
        ⟨start, extranonce, extranonce.length, ntime, nonce, version, version_mask, share_target, now_unix⟩ =
      job.validate_work payout_script (start ++ extranonce) ntime nonce version share_target now_unix := by
  rw [List.length_append] at hsize
  have hfits : ¬ (extranonce.length ≠ extranonce.length ∨ start.length > job.extranonce_size ∨
      extranonce.length ≠ job.extranonce_size - start.length) := by omega
  unfold validate_extended_share
  rw [if_neg hfits]
  simp only [build_extended_work, validate_standard_share, hversion, ne_eq, not_true_eq_false, if_false, validate_work,
    merkle_root, coinbase, List.append_assoc]

/-- The SV2 validator for Standard channels, on work built with the whole extranonce. -/
theorem validate_standard_share_eq {extranonce : Bytes} {work : StandardWork} {version : UInt32}
    (hwork : job.build_standard_work payout_script extranonce = .ok work)
    (hversion : version &&& ~~~version_mask = job.version &&& ~~~version_mask) :
    job.validate_standard_share
        ⟨work.legacy_coinbase, work.merkle_root, ntime, nonce, version, version_mask, share_target, now_unix⟩ =
      job.validate_work payout_script extranonce ntime nonce version share_target now_unix := by
  unfold build_standard_work at hwork
  split at hwork
  · cases hwork
  · cases hwork
    simp only [validate_standard_share, hversion, ne_eq, not_true_eq_false, if_false, validate_work, merkle_root,
      coinbase]

end Job

/-- One submission, put to the three validators in their own encodings, gets one answer. -/
theorem validators_agree (job : Job) (payout_script extranonce1 extranonce2 : Bytes) {extranonce2_hex : Text}
    {start extranonce : Bytes} {ntime nonce version_mask rolled : UInt32}
    {ntime_hex nonce_hex version_bits_hex : Text} (share_target : uint256) (now_unix : Int)
    (hsize : (extranonce1 ++ extranonce2).length = job.extranonce_size)
    (hsize2 : extranonce2.length = job.extranonce2_size)
    (hsplit : start ++ extranonce = extranonce1 ++ extranonce2)
    (hextranonce2 : try_from_hex extranonce2_hex = some extranonce2)
    (hntime : try_parse_hex_u32 ntime_hex = some ntime) (hnonce : try_parse_hex_u32 nonce_hex = some nonce)
    (hbits : try_parse_hex_u32 version_bits_hex = some rolled) (hrolled : rolled &&& ~~~version_mask = 0) :
    ∃ work, job.build_standard_work payout_script (extranonce1 ++ extranonce2) = .ok work ∧
      job.validate_extended_share (job.build_extended_work payout_script)
          ⟨start, extranonce, extranonce.length, ntime, nonce,
            (job.version &&& ~~~version_mask) ||| rolled, version_mask, share_target, now_unix⟩ =
        job.validate_share ⟨job.build_coinbase2 payout_script, extranonce1, extranonce2_hex, ntime_hex, nonce_hex,
          share_target, some version_bits_hex, version_mask, now_unix⟩ ∧
      job.validate_standard_share
          ⟨work.legacy_coinbase, work.merkle_root, ntime, nonce, (job.version &&& ~~~version_mask) ||| rolled,
            version_mask, share_target, now_unix⟩ =
        job.validate_share ⟨job.build_coinbase2 payout_script, extranonce1, extranonce2_hex, ntime_hex, nonce_hex,
          share_target, some version_bits_hex, version_mask, now_unix⟩ := by
  have hversion := job.version_with_fixed hrolled
  have hbuilt : ∃ work, job.build_standard_work payout_script (extranonce1 ++ extranonce2) = .ok work := by
    unfold Job.build_standard_work
    rw [if_neg (not_not.mpr hsize)]
    exact ⟨_, rfl⟩
  obtain ⟨work, hwork⟩ := hbuilt
  refine ⟨work, hwork, ?_, ?_⟩
  · rw [Job.validate_share_eq hextranonce2 hsize2 hntime hnonce (Job.rolled_version_eq hbits hrolled), ← hsplit]
    exact Job.validate_extended_share_eq (by rw [hsplit, hsize]) hversion
  · rw [Job.validate_share_eq hextranonce2 hsize2 hntime hnonce (Job.rolled_version_eq hbits hrolled)]
    exact Job.validate_standard_share_eq hwork hversion

namespace RolledShare

def job : Job := .minimal "1".toList 1 900 1

def share_target : uint256 := .ofNat (2 ^ 256 - 1)

/-- A share with one version bit rolled, as SV1 submits it. -/
def submitted : ShareInput where
  coinbase2 := job.build_coinbase2 []
  extranonce1 := [0, 0, 0, 1]
  extranonce2_hex := "0000000000000002".toList
  ntime_hex := "000003e8".toList
  nonce_hex := "00000007".toList
  share_target := share_target
  version_bits_hex := some "00002000".toList
  version_mask := 0x1fffe000
  now_unix := 1000

end RolledShare

open RolledShare in
/-- All three accept that share. -/
theorem validators_agree_rolled :
    (job.validate_share submitted).isOk = true ∧
      ∃ work, job.build_standard_work [] [0, 0, 0, 1, 0, 0, 0, 0, 0, 0, 0, 2] = .ok work ∧
        job.validate_extended_share (job.build_extended_work []) ⟨[0, 0, 0, 1, 0, 0], [0, 0, 0, 0, 0, 2], 6, 1000, 7,
          (job.version &&& ~~~0x1fffe000) ||| 0x2000, 0x1fffe000, share_target, 1000⟩ = job.validate_share submitted ∧
        job.validate_standard_share ⟨work.legacy_coinbase, work.merkle_root, 1000, 7,
          (job.version &&& ~~~0x1fffe000) ||| 0x2000, 0x1fffe000, share_target, 1000⟩ = job.validate_share submitted :=
  ⟨by decide +kernel, validators_agree job [] [0, 0, 0, 1] [0, 0, 0, 0, 0, 0, 0, 2] share_target 1000 (by decide)
    (by decide) (by decide) (by decide) (by decide) (by decide) (by decide) (by decide)⟩

end erikslund.stratum
