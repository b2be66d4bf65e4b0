import SoloPool.Lib.Generations
import SoloPool.Stratum.Message

namespace erikslund.stratum

open util

structure Coinbase2Cache where
  job_id : Text
  coinbase2 : Bytes
  coinbase2_hex : Text
deriving DecidableEq

/-- The session under its mutex. `sent` and `pool_calls` record the lines sent and the
pool callbacks made, oldest first. -/
structure Session where
  extranonce1 : Bytes
  subscribed : Bool
  authorized : Bool
  protocol_errors : Nat
  address : Option Text
  worker : Option Text
  payout_script : Option Bytes
  difficulty : ℚ
  previous_difficulty : ℚ
  pending_difficulty_change : Bool
  last_retarget : ℚ
  shares_since_retarget : Nat
  version_mask : UInt32
  user_agent : Text
  shares_accepted : Nat
  shares_rejected : Nat
  coinbase2_cache : Option Coinbase2Cache
  seen_shares : Generations Text
  last_notified_publication_sequence : Nat
  sent : List Line
  pool_calls : List PoolCall
deriving DecidableEq

/-- What `handle_submit` carries out of its first critical section. -/
structure PreparedSubmit where
  id : RequestId
  job : Job
  coinbase2 : Bytes
  address : Text
  worker : Text
  extranonce2 : Text
  ntime : Text
  nonce : Text
  version_bits : Option Text
  snap_difficulty : ℚ
  snap_previous : ℚ
  snap_pending : Bool
  snap_version_mask : UInt32
deriving DecidableEq

/-- The fields that identify a submission: those of the request, and the version mask it
was made under. -/
structure Submission where
  job_id : Text
  extranonce2 : Text
  ntime : Text
  nonce : Text
  version_bits : Option Text
  version_mask : UInt32
deriving DecidableEq

def append_lower (value : Text) : Text := value.map Char.toLower

def append_canonical_hex (value : Text) (width : Nat) : Text :=
  List.replicate (width - value.length) '0' ++ append_lower value

def Submission.make_dedup_key (submission : Submission) : Text :=
  append_lower submission.job_id ++ '|' :: append_lower submission.extranonce2 ++
    '|' :: append_canonical_hex submission.ntime 8 ++ '|' :: append_canonical_hex submission.nonce 8 ++
    '|' :: (submission.version_bits.map (fun bits => append_canonical_hex bits 8)).getD [] ++
    '|' :: format_08x submission.version_mask.toNat

namespace Session

/-- The constructor. -/
def new (context : PoolContext) (extranonce1 : Bytes) : Session where
  extranonce1 := extranonce1
  subscribed := false
  authorized := false
  protocol_errors := 0
  address := none
  worker := none
  payout_script := none
  difficulty := max context.runtime_config.initial_difficulty context.runtime_config.minimum_difficulty
  previous_difficulty := 0
  pending_difficulty_change := false
  last_retarget := context.steady_seconds
  shares_since_retarget := 0
  version_mask := 0
  user_agent := ['?']
  shares_accepted := 0
  shares_rejected := 0
  coinbase2_cache := none
  seen_shares := .empty
  last_notified_publication_sequence := 0
  sent := []
  pool_calls := []

variable (session : Session)

def send_line (line : Line) : Session := { session with sent := session.sent ++ [line] }

def send_result (id : RequestId) (result : Bool) : Session :=
  session.send_line (.result id result)

/-- Errors a well-behaved miner never causes count towards the disconnect budget. -/
def send_error (id : RequestId) (error : StratumError) : Session :=
  let counted := error.code = ERR_OTHER.code ∨ error.code = ERR_UNAUTHORIZED.code ∨
    error.code = ERR_NOT_SUBSCRIBED.code
  { session with
    protocol_errors := if counted then session.protocol_errors + 1 else session.protocol_errors }.send_line
      (.error id error)

def call_pool (call : PoolCall) : Session :=
  { session with pool_calls := session.pool_calls ++ [call] }

/-- A rejection of the first critical section of `handle_submit`. -/
def reject_submit (id : RequestId) (reason : RejectClass) (error : StratumError) : Session :=
  ({ session with shares_rejected := session.shares_rejected + 1 }.call_pool
    (.note_rejected_share (session.address.getD []) (session.worker.getD []) reason)).send_error id error

def coinbase2_for (session : Session) (job : Job) : Except String (Coinbase2Cache × Session) :=
  match session.payout_script with
  | none => .error "coinbase2_for called before payout_script_ was set"
  | some payout_script =>
    match session.coinbase2_cache.filter (fun cache => cache.job_id = job.job_id) with
    | some cache => .ok (cache, session)
    | none =>
      let coinbase2 := job.build_coinbase2 payout_script
      let cache : Coinbase2Cache := ⟨job.job_id, coinbase2, to_hex coinbase2⟩
      .ok (cache, { session with coinbase2_cache := some cache })

end Session

end erikslund.stratum
