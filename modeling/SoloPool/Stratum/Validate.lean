import SoloPool.Stratum.Job

namespace erikslund.stratum

open util bitcoin

def kNtimeSlack : Int := 7200

def kNtimeSubmitMargin : Int := 120

structure ShareInput where
  coinbase2 : Bytes
  extranonce1 : Bytes
  extranonce2_hex : Text
  ntime_hex : Text
  nonce_hex : Text
  share_target : uint256
  version_bits_hex : Option Text
  version_mask : UInt32
  now_unix : Int

structure StandardShareInput where
  legacy_coinbase : Bytes
  merkle_root : Hash256
  ntime : UInt32
  nonce : UInt32
  version : UInt32
  version_mask : UInt32
  share_target : uint256
  now_unix : Int

structure ExtendedShareInput where
  extranonce_prefix : Bytes
  extranonce : Bytes
  extranonce_size : Nat
  ntime : UInt32
  nonce : UInt32
  version : UInt32
  version_mask : UInt32
  share_target : uint256
  now_unix : Int

namespace Job

variable (job : Job)

/-- The 80 bytes that are hashed: version, parent, merkle root, time, bits, nonce. -/
def build_header (merkle_root : Hash256) (ntime nonce version : UInt32) : Bytes :=
  le32_bytes version ++ job.prevhash_internal.val ++ merkle_root.val ++ le32_bytes ntime ++
    le32_bytes job.bits ++ le32_bytes nonce

def validate_header (legacy_coinbase : Bytes) (merkle_root : Hash256)
    (ntime nonce version : UInt32) (share_target : uint256) : Except ShareRejection ShareResult :=
  let header := job.build_header merkle_root ntime nonce version
  let block_hash := sha256d header
  let hash_value := uint256.from_le_bytes block_hash
  let difficulty := difficulty_from_target hash_value
  let is_block := meets_target hash_value job.network_target
  if ¬ is_block ∧ ¬ meets_target hash_value share_target then .error ⟨.AboveTarget, difficulty⟩
  else .ok ⟨difficulty, is_block, header, legacy_coinbase, to_hex_reversed block_hash.val⟩

/-- The ntime window every share protocol applies to a job. -/
def ntime_in_range (ntime : UInt32) (now_unix : Int) : Bool :=
  decide ((job.curtime.toNat : Int) ≤ ntime.toNat) &&
    decide ((ntime.toNat : Int) ≤ now_unix + kNtimeSlack - kNtimeSubmitMargin)

/-- The version a Stratum V1 share is hashed with. -/
def rolled_version (version_bits_hex : Option Text) (version_mask : UInt32) :
    Except ShareReject UInt32 :=
  match version_bits_hex with
  | none => .ok job.version
  | some bits_hex =>
    match try_parse_hex_u32 bits_hex with
    | none => .error .MalformedVersionBits
    | some rolled =>
      if version_mask = 0 then
        if rolled ≠ 0 then .error .VersionRollingNotNegotiated else .ok job.version
      else if rolled &&& ~~~version_mask ≠ 0 then .error .VersionBitsOutsideMask
      else .ok ((job.version &&& ~~~version_mask) ||| (rolled &&& version_mask))

def validate_share (input : ShareInput) : Except ShareRejection ShareResult :=
  if input.extranonce2_hex.length > job.extranonce2_size * 2 then .error ⟨.InvalidExtranonce2Size, some 0⟩
  else
    match try_from_hex input.extranonce2_hex, try_parse_hex_u32 input.ntime_hex,
        try_parse_hex_u32 input.nonce_hex with
    | some extranonce2, some ntime, some nonce =>
      if extranonce2.length ≠ job.extranonce2_size then .error ⟨.InvalidExtranonce2Size, some 0⟩
      else if ¬ job.ntime_in_range ntime input.now_unix then .error ⟨.NtimeOutOfRange, some 0⟩
      else
        match job.rolled_version input.version_bits_hex input.version_mask with
        | .error reason => .error ⟨reason, some 0⟩
        | .ok version =>
          let coinbase := job.coinbase1 ++ input.extranonce1 ++ extranonce2 ++ input.coinbase2
          let root := merkle_root_from_branch (sha256d coinbase) job.merkle_branch
          job.validate_header coinbase root ntime nonce version input.share_target
    | _, _, _ => .error ⟨.MalformedField, some 0⟩

def validate_standard_share (input : StandardShareInput) : Except ShareRejection ShareResult :=
  if ¬ job.ntime_in_range input.ntime input.now_unix then .error ⟨.NtimeOutOfRange, some 0⟩
  else if input.version &&& ~~~input.version_mask ≠ job.version &&& ~~~input.version_mask then
    .error ⟨.VersionBitsOutsideMask, some 0⟩
  else
    job.validate_header input.legacy_coinbase input.merkle_root input.ntime input.nonce input.version
      input.share_target

def validate_extended_share (work : ExtendedWork) (input : ExtendedShareInput) :
    Except ShareRejection ShareResult :=
  if input.extranonce.length ≠ input.extranonce_size ∨
      input.extranonce_prefix.length > job.extranonce_size ∨
      input.extranonce_size ≠ job.extranonce_size - input.extranonce_prefix.length then
    .error ⟨.InvalidExtranonce2Size, some 0⟩
  else
    let coinbase := work.coinbase_tx_prefix ++ input.extranonce_prefix ++ input.extranonce ++
      work.coinbase_tx_suffix
    job.validate_standard_share {
      legacy_coinbase := coinbase
      merkle_root := merkle_root_from_branch (sha256d coinbase) work.merkle_path
      ntime := input.ntime
      nonce := input.nonce
      version := input.version
      version_mask := input.version_mask
      share_target := input.share_target
      now_unix := input.now_unix }

theorem build_header_length (merkle_root : Hash256) (ntime nonce version : UInt32) :
    (job.build_header merkle_root ntime nonce version).length = 80 := by
  simp [build_header, job.prevhash_internal.property, merkle_root.property]

/-- Equal headers come from equal fields. -/
theorem build_header_inj {job job' : Job} {root root' : Hash256} {ntime ntime' nonce nonce' version version' : UInt32}
    (h : job.build_header root ntime nonce version = job'.build_header root' ntime' nonce' version') :
    version = version' ∧ job.prevhash_internal = job'.prevhash_internal ∧ root = root' ∧
      ntime = ntime' ∧ job.bits = job'.bits ∧ nonce = nonce' := by
  have hprev : job.prevhash_internal.val.length = job'.prevhash_internal.val.length := by
    rw [job.prevhash_internal.property, job'.prevhash_internal.property]
  have hroot : root.val.length = root'.val.length := by rw [root.property, root'.property]
  unfold build_header at h
  obtain ⟨h, hnonce⟩ := List.append_inj' h (by simp)
  obtain ⟨h, hbits⟩ := List.append_inj' h (by simp)
  obtain ⟨h, hntime⟩ := List.append_inj' h (by simp)
  obtain ⟨h, hroots⟩ := List.append_inj' h hroot
  obtain ⟨hversion, hparents⟩ := List.append_inj' h hprev
  exact ⟨le32_bytes_injective hversion, Subtype.ext hparents, Subtype.ext hroots,
    le32_bytes_injective hntime, le32_bytes_injective hbits, le32_bytes_injective hnonce⟩

/-- A hash that meets the share target is accepted. -/
theorem validate_header_of_meets (coinbase : Bytes) (root : Hash256) (ntime nonce version : UInt32)
    {target : uint256} (hmeets : ∀ hash, meets_target hash target = true) :
    (job.validate_header coinbase root ntime nonce version target).isOk = true := by
  simp [validate_header, hmeets, Except.isOk, Except.toBool]

/-- The easiest target is met by every hash. -/
theorem meets_easiest {target : uint256} (htarget : target.toNat = 2 ^ 256 - 1) (hash : uint256) :
    meets_target hash target = true := by
  have hlt := hash.toNat_lt
  rw [meets_target, decide_eq_true_eq, uint256.le_iff_toNat, htarget]
  omega

end Job

end erikslund.stratum
