import SoloPool.Sv2.Session.Channels

namespace erikslund.sv2.Session

open util stratum

variable (channel : Channel) (context : PoolContext) (session : Session)

def remember_share_locked (key : ShareKey) : Bool × Session :=
  let (fresh, seen_shares) := session.seen_shares.remember kMaxSeenShares key
  (fresh, { session with seen_shares })

def send_share_rejection_locked (channel : Option Channel) (share : ShareSubmission)
    (error_code : String) : Session :=
  let session := { session with shares_rejected := session.shares_rejected + 1 }
  let session := match channel with
    | some channel => session.store_channel { channel with shares_rejected := channel.shares_rejected + 1 }
    | none => session
  session.send_locked [.submit_shares_error share.channel_id share.sequence_number error_code]

def reject_share_locked (channel : Option Channel) (share : ShareSubmission)
    (error_code : String) (reason : RejectClass) : Session :=
  let call : PoolCall := .note_rejected_share (channel.elim [] (·.address)) (channel.elim [] (·.worker)) reason
  (session.call_pool call).send_share_rejection_locked channel share error_code

/-- The ntime window of a channel at a moment of the steady clock: the last prevhash
curtime may have grown by the whole seconds passed since. -/
def maximum_ntime (steady_seconds : ℚ) : Nat :=
  let seconds_since_prevhash := max 0 (steady_seconds - channel.previous_hash_received_at_steady)
  min (channel.previous_hash_minimum_ntime.toNat + ⌊seconds_since_prevhash⌋₊) (2 ^ 32 - 1)

def minimum_ntime (issued_job : IssuedJob) : Nat :=
  max channel.previous_hash_minimum_ntime.toNat issued_job.minimum_ntime.toNat

/-- `std::ranges::find_if` over the jobs of a channel. -/
def find_job (job_id : UInt32) : Option IssuedJob :=
  (channel.jobs.find? (fun entry => entry.1 = job_id)).map (·.2)

def prepare_share_locked (share : ShareSubmission) :
    Session × Option PreparedShare :=
  match session.find_channel share.channel_id with
  | none =>
    (session.protocol_error.reject_share_locked none share "invalid-channel" .Malformed, none)
  | some channel =>
    if channel.kind ≠ share.kind then
      (session.protocol_error.reject_share_locked channel share "invalid-channel-type" .Malformed, none)
    else
      match find_job channel share.job_id with
      | none => (session.reject_share_locked channel share "stale-share" .Stale, none)
      | some issued_job =>
        if share.kind = .Extended ∧ share.extranonce.length ≠ issued_job.extranonce_size then
          (session.reject_share_locked channel share "invalid-extranonce-size" .Malformed, none)
        else
          let (fresh, session) := session.remember_share_locked share.key
          if ¬ fresh then
            (session.reject_share_locked channel share "duplicate-share" .Duplicate, none)
          else if channel.previous_hash = none ∨ share.ntime.toNat < minimum_ntime channel issued_job ∨
              share.ntime.toNat > maximum_ntime channel context.steady_seconds then
            (session.reject_share_locked channel share "invalid-ntime" .Ntime, none)
          else
            (session, some {
              issued_job := issued_job
              submitted_extranonce := share.extranonce
              issued_target := issued_job.target
              version_rolling_mask := session.version_mask
              address := channel.address
              worker := channel.worker })

/-- The pure half of `validate_and_account_share`. The variant a channel's jobs hold is
the one of its kind, which the submission was checked against. -/
def validate_share (share : ShareSubmission) (prepared : PreparedShare) (now_unix : Int) :
    Except ShareRejection ShareResult :=
  let issued_job := prepared.issued_job
  match issued_job.work with
  | .standard work =>
    issued_job.source_job.validate_standard_share
      { legacy_coinbase := work.legacy_coinbase
        merkle_root := work.merkle_root
        ntime := share.ntime
        nonce := share.nonce
        version := share.version
        version_mask := prepared.version_rolling_mask
        share_target := prepared.issued_target
        now_unix := now_unix }
  | .extended work =>
    issued_job.source_job.validate_extended_share work
      { extranonce_prefix := issued_job.extranonce_prefix
        extranonce := prepared.submitted_extranonce
        extranonce_size := issued_job.extranonce_size
        ntime := share.ntime
        nonce := share.nonce
        version := share.version
        version_mask := prepared.version_rolling_mask
        share_target := prepared.issued_target
        now_unix := now_unix }

/-- `std::uint64_t` of the rounded credited difficulty, at least one. -/
def accepted_share_sum (credited_difficulty : Option ℚ) : Nat :=
  match credited_difficulty with
  | some difficulty => min (max 1 ⌊difficulty + 1 / 2⌋₊) (2 ^ 64 - 1)
  | none => 2 ^ 64 - 1

/-- `validate_and_account_share` and `finish_share_locked`. The first runs without the
mutex and reads only the prepared share and the clock; the second finds the channel
again. -/
def finish_share (share : ShareSubmission)
    (prepared : PreparedShare) : Session :=
  let channel := session.find_channel share.channel_id
  match validate_share share prepared context.time with
  | .error rejection =>
    let call : PoolCall :=
      .note_rejected_share prepared.address prepared.worker (reject_class_of rejection.reason)
    (session.call_pool call).send_share_rejection_locked channel share
      (if rejection.reason = ShareReject.AboveTarget then "too-low-difficulty" else "invalid-share")
  | .ok result =>
    let credited_difficulty := difficulty_from_target prepared.issued_target
    let call : PoolCall :=
      .note_accepted_share prepared.address prepared.worker credited_difficulty result.difficulty
    let session := { session.call_pool call with
      protocol_errors := 0
      shares_accepted := session.shares_accepted + 1 }
    let session := match channel with
      | some channel => session.store_channel { channel with
          shares_since_retarget := channel.shares_since_retarget + 1
          shares_accepted := channel.shares_accepted + 1 }
      | none => session
    let session := session.send_locked [.submit_shares_success share.channel_id share.sequence_number 1
      (accepted_share_sum credited_difficulty)]
    if result.is_block then
      { session with pending_blocks := session.pending_blocks ++
          [⟨prepared.issued_job.source_job, result, prepared.address, prepared.worker⟩] }
    else session

end erikslund.sv2.Session
