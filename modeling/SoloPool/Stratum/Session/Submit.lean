import SoloPool.Stratum.Session.Handlers

namespace erikslund.stratum

open util

def PreparedSubmit.accept_difficulty (prepared : PreparedSubmit) : ℚ :=
  if prepared.snap_pending then min prepared.snap_difficulty prepared.snap_previous
  else prepared.snap_difficulty

/-- What `handle_submit` gives to `validate_share`. -/
def PreparedSubmit.input (prepared : PreparedSubmit) (extranonce1 : Bytes) (now_unix : Int) : ShareInput where
  coinbase2 := prepared.coinbase2
  extranonce1 := extranonce1
  extranonce2_hex := prepared.extranonce2
  ntime_hex := prepared.ntime
  nonce_hex := prepared.nonce
  share_target := target_from_difficulty prepared.accept_difficulty
  version_bits_hex := prepared.version_bits
  version_mask := prepared.snap_version_mask
  now_unix := now_unix

/-- The same for the fields of a submission as they arrived, on a given coinbase. -/
def Submission.input (submission : Submission) (coinbase2 extranonce1 : Bytes) (share_target : uint256)
    (now_unix : Int) : ShareInput :=
  ⟨coinbase2, extranonce1, submission.extranonce2, submission.ntime, submission.nonce, share_target,
    submission.version_bits, submission.version_mask, now_unix⟩

/-- A share found before a difficulty change is credited at the difficulty it meets. -/
def PreparedSubmit.credited (prepared : PreparedSubmit) (difficulty : Option ℚ) : ℚ :=
  if prepared.snap_pending then
    let hi := max prepared.snap_difficulty prepared.snap_previous
    let lo := min prepared.snap_difficulty prepared.snap_previous
    if difficulty.all (fun difficulty => decide (difficulty ≥ hi)) then hi else lo
  else prepared.snap_difficulty

namespace Session

variable (config : Config) (context : PoolContext) (session : Session)

/-- The fields of a `mining.submit` line, under the version mask of the session. -/
def submission (request : Request) : Option Submission :=
  match request.params with
  | _ :: job_id :: extranonce2 :: ntime :: nonce :: rest =>
    let version_bits := rest.head?.filter (fun bits => ¬ bits.isEmpty)
    some ⟨job_id, extranonce2, ntime, nonce, version_bits, session.version_mask⟩
  | _ => none

def oversized (submission : Submission) : Prop :=
  submission.extranonce2.length > config.extranonce2_size * 2 ∨ submission.ntime.length > 8 ∨
    submission.nonce.length > 8 ∨ (submission.version_bits.any (fun bits => decide (bits.length > 8))) = true

instance (config : Config) (submission : Submission) : Decidable (oversized config submission) :=
  inferInstanceAs (Decidable (_ ∨ _ ∨ _ ∨ _))

/-- The first critical section of `handle_submit`. -/
def handle_submit (request : Request) :
    Session × Option PreparedSubmit :=
  if ¬ session.authorized then (session.send_error request.id ERR_UNAUTHORIZED, none)
  else if ¬ session.subscribed then (session.send_error request.id ERR_NOT_SUBSCRIBED, none)
  else
    match session.submission request with
    | none => (session.send_error request.id ERR_OTHER, none)
    | some submission =>
      match context.recent_job submission.job_id with
      | none => (session.reject_submit request.id .Stale ERR_STALE, none)
      | some job =>
        if oversized config submission then (session.reject_submit request.id .Malformed ERR_OTHER, none)
        else
          match session.seen_shares.remember kMaxSeenShares submission.make_dedup_key with
          | (false, _) => (session.reject_submit request.id .Duplicate ERR_DUPLICATE, none)
          | (true, seen_shares) =>
            let session := { session with seen_shares }
            match session.coinbase2_for job with
            | .error _ => (session, none)
            | .ok (coinbase2, session) =>
              (session, some {
                id := request.id
                job := job
                coinbase2 := coinbase2.coinbase2
                address := session.address.getD []
                worker := session.worker.getD []
                extranonce2 := submission.extranonce2
                ntime := submission.ntime
                nonce := submission.nonce
                version_bits := submission.version_bits
                snap_difficulty := session.difficulty
                snap_previous := session.previous_difficulty
                snap_pending := session.pending_difficulty_change
                snap_version_mask := session.version_mask })

def record_accepted_share_locked : Session :=
  { session with
    shares_accepted := session.shares_accepted + 1
    protocol_errors := 0
    shares_since_retarget := session.shares_since_retarget + 1 }

/-- The rest of `handle_submit`: the validation, which reads nothing of the session that
can change, and the second critical section. -/
def finish_submit (prepared : PreparedSubmit) : Session :=
  match prepared.job.validate_share (prepared.input session.extranonce1 context.time) with
  | .error rejection =>
    let session := session.call_pool
      (.note_rejected_share prepared.address prepared.worker (reject_class_of rejection.reason))
    { session with shares_rejected := session.shares_rejected + 1 }.send_error prepared.id
      (if rejection.reason = ShareReject.AboveTarget then ERR_LOW_DIFFICULTY else ERR_OTHER)
  | .ok result =>
    let session := if result.is_block then
        session.call_pool (.on_block_found prepared.address prepared.worker prepared.job result)
      else session
    let session := session.call_pool (.note_accepted_share prepared.address prepared.worker
      (some (prepared.credited result.difficulty)) result.difficulty)
    session.record_accepted_share_locked.send_result prepared.id true

end Session

/-- A session with the share its connection's thread is validating. `remembered` and
`accepted` are the submissions whose keys `remember` has taken and those accepted, and
`announced` the notifies sent with the payout script they were built for, newest first. -/
structure Server where
  session : Session
  share : Option (Submission × PreparedSubmit)
  remembered : List Submission
  accepted : List Submission
  announced : List (Notify × Option Bytes)
deriving DecidableEq

/-- The atomic steps. A line is handled only by the connection's thread, so never while
that thread is validating a share. -/
inductive Event where
  | line (request : Request)
  | finish_submit
  | send_notify (job : Job) (clean : Bool)
  | send_set_difficulty
  | maybe_retarget
deriving DecidableEq

namespace Server

variable (config : Config) (context : PoolContext) (server : Server) (extranonce1 : Bytes)

def init : Server := ⟨.new context extranonce1, none, [], [], []⟩

/-- The notifies that `session'` has sent since `session`, newest first. -/
def new_notifies (session session' : Session) : List (Notify × Option Bytes) :=
  ((session'.sent.drop session.sent.length).filterMap Line.notify?).reverse.map
    (fun notify => (notify, session'.payout_script))

/-- Move on to `session`, recording the notifies sent on the way. -/
def advance (session : Session) : Server :=
  { server with session, announced := new_notifies server.session session ++ server.announced }

def handle_line (request : Request) : Server :=
  match request.method with
  | .submit =>
    let (session, prepared) := server.session.handle_submit config context request
    let submission := server.session.submission request
    let taken := submission.filter (fun submission =>
      ¬ server.session.seen_shares.Remembers submission.make_dedup_key ∧
        session.seen_shares.Remembers submission.make_dedup_key)
    { server.advance session with
      share := submission.bind (fun submission => prepared.map (fun prepared => (submission, prepared)))
      remembered := taken.toList ++ server.remembered }
  | _ => server.advance (server.session.dispatch config context request)

def step (action : PoolContext × Event) : Server :=
  let (context, event) := action
  let session := server.session
  match event with
  | .line request =>
    match server.share with
    | some _ => server
    | none => server.handle_line config context request
  | .finish_submit =>
    match server.share with
    | none => server
    | some (submission, prepared) =>
      { server.advance (session.finish_submit context prepared) with
        share := none
        accepted :=
          if (prepared.job.validate_share (prepared.input session.extranonce1 context.time)).isOk then
            submission :: server.accepted
          else server.accepted }
  | .send_notify job clean => server.advance (session.send_notify job clean)
  | .send_set_difficulty => server.advance session.do_send_set_difficulty
  | .maybe_retarget => server.advance (session.maybe_retarget context)

/-- The state a fresh session reaches by taking `actions` in order. -/
def reached (actions : List (PoolContext × Event)) : Server :=
  Transition.run (step config) (init context extranonce1) actions

theorem reached_append
    (as bs : List (PoolContext × Event)) : reached config context extranonce1 (as ++ bs) =
      Transition.run (step config) (reached config context extranonce1 as) bs :=
  Transition.run_append _ _ _ _

end Server

end erikslund.stratum
