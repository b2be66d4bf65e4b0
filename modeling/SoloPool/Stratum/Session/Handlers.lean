import SoloPool.Lib.Run
import SoloPool.Stratum.Session.State

namespace erikslund.stratum

open util

namespace Session

variable (config : Config) (context : PoolContext) (session : Session) (job : Job) (clean : Bool)

def do_send_set_difficulty : Session :=
  session.send_line (.set_difficulty session.difficulty)

/-- The session after `build_notify_line`, with its line sent if there is one. A clean
job keeps one generation of lookback. -/
def build_notify_line : Session × Option Line :=
  if ¬ session.subscribed ∨ ¬ session.authorized ∨ session.payout_script.isNone then (session, none)
  else
    let session := { session with
      last_notified_publication_sequence :=
        max session.last_notified_publication_sequence job.publication_sequence }
    match session.coinbase2_for job with
    | .error _ => (session, none)
    | .ok (coinbase2, session) =>
      ({ session with
        seen_shares := if clean then session.seen_shares.rotateIfNonempty else session.seen_shares
        pending_difficulty_change := false },
      some (make_notify_line job coinbase2.coinbase2_hex clean))

def send_notify : Session :=
  if job.publication_sequence ≠ 0 ∧
      job.publication_sequence ≤ session.last_notified_publication_sequence then session
  else
    match session.build_notify_line job clean with
    | (session, none) => session
    | (session, some line) => session.send_line line

def send_difficulty_then_work : Session :=
  let difficulty := Line.set_difficulty session.difficulty
  match context.current_job with
  | none => session.send_line difficulty
  | some job =>
    match session.build_notify_line job true with
    | (session, none) => session.send_line difficulty
    | (session, some line) => (session.send_line difficulty).send_line line

def begin_difficulty_change (new_difficulty : ℚ) : Session :=
  { session with
    previous_difficulty :=
      if session.pending_difficulty_change then session.previous_difficulty else session.difficulty
    difficulty := new_difficulty
    pending_difficulty_change := true }

def maybe_retarget : Session :=
  let config := context.runtime_config
  if ¬ config.variable_difficulty ∨ ¬ session.authorized then session
  else
    let elapsed := context.steady_seconds - session.last_retarget
    if elapsed < config.vardiff_retarget_seconds then session
    else
      let shares_per_minute := if elapsed > 0 then session.shares_since_retarget / elapsed * 60 else 0
      let new_difficulty := vardiff_next session.difficulty shares_per_minute
        config.vardiff_target_shares_per_minute config.minimum_difficulty config.maximum_difficulty
      let session := { session with shares_since_retarget := 0, last_retarget := context.steady_seconds }
      if new_difficulty ≠ session.difficulty then
        (session.begin_difficulty_change new_difficulty).do_send_set_difficulty
      else session

def requested_user_agent : List Text → Text
  | agent :: _ => if agent.isEmpty then session.user_agent else log.sanitize agent
  | [] => session.user_agent

def handle_subscribe (request : Request) : Session :=
  let session := { session with
    user_agent := session.requested_user_agent request.params
    subscribed := true }
  let session := session.send_line
    (.subscribed request.id (to_hex session.extranonce1) config.extranonce2_size)
  if session.authorized ∧ session.payout_script.isSome then session.send_difficulty_then_work context
  else session

/-- The extensions a configure answer reports `false` for, each once. -/
def unsupported_extensions (request : Request) : List Text :=
  request.configure_extensions.foldl (fun unsupported extension =>
    if extension = "version-rolling".toList ∨ extension ∈ unsupported ∨
        request.configure_version_rolling ∧ extension = "version-rolling.mask".toList then unsupported
    else unsupported ++ [extension]) []

def handle_configure (request : Request) : Session :=
  if ¬ request.configure_version_rolling then
    session.send_line (.configured request.id none (unsupported_extensions request))
  else
    let client_mask :=
      if ¬ request.version_rolling_mask_present then 0xffffffff
      else (request.version_rolling_mask.bind try_parse_hex_u32).getD 0
    let session := { session with version_mask := client_mask &&& config.version_rolling_mask }
    session.send_line (.configured request.id (some session.version_mask) (unsupported_extensions request))

def handle_authorize (request : Request) : Session :=
  match request.params with
  | [] => session.send_error request.id ERR_OTHER
  | name :: _ =>
    if name.isEmpty then session.send_error request.id ERR_OTHER
    else
      let address := (log.sanitize name).takeWhile (fun c => c ≠ '.')
      match context.validate_address address with
      | none => session.send_result request.id false
      | some script =>
        let session := { session with
          coinbase2_cache := if session.payout_script = some script then session.coinbase2_cache else none
          address := some address
          worker := some (match name.dropWhile (fun c => c ≠ '.') with
            | [] => []
            | _ :: suffix => log.ascii_only suffix)
          payout_script := some script
          authorized := true }
        (session.send_result request.id true).send_difficulty_then_work context

def handle_suggest_difficulty (request : Request) : Session :=
  let clamped := request.suggested_difficulty.bind (fun suggested =>
    clamp_suggested_difficulty suggested context.runtime_config.minimum_difficulty
      context.runtime_config.maximum_difficulty)
  let session := match clamped with
    | none => session
    | some clamped =>
      if clamped = session.difficulty then session
      else
        let session := { session.begin_difficulty_change clamped with
          shares_since_retarget := 0
          last_retarget := context.steady_seconds }
        if session.subscribed then session.do_send_set_difficulty else session
  session.send_result request.id true

/-- `dispatch`, for the requests other than `mining.submit`. -/
def dispatch (request : Request) : Session :=
  match request.method with
  | .subscribe => session.handle_subscribe config context request
  | .authorize => session.handle_authorize context request
  | .configure => session.handle_configure config request
  | .suggest_difficulty => session.handle_suggest_difficulty context request
  | .extranonce_subscribe => session.send_result request.id true
  | .submit | .other _ =>
    if request.id = .null then session else session.send_line (.error request.id ERR_OTHER)

end Session

end erikslund.stratum
