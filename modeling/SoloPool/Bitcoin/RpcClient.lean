import Mathlib.Data.Rat.Defs
import SoloPool.Bitcoin.Gbt
import SoloPool.Bitcoin.SubmitBlock
import SoloPool.Lib.Run

namespace erikslund.bitcoin.rpc

open util (to_string)

def kRpcClientNotConnected : Int := -9
def kRpcClientInInitialDownload : Int := -10
def kRpcInWarmup : Int := -28

/-- What `post_one` gives: the HTTP status and the body of a response, or a transport error. -/
abbrev Post := Except String (Nat × Text)

/-- What a request to one endpoint gives: a result, an `RpcError` or an `RpcConnectionError`. -/
inductive Reply (α : Type) where
  | result (value : α)
  | rpc_error (what : String) (code : Option Int)
  | connection_error (what : String)

def Reply.map {α β : Type} (f : α → β) : Reply α → Reply β
  | .result value => .result (f value)
  | .rpc_error what code => .rpc_error what code
  | .connection_error what => .connection_error what

def endpoint_unavailable (code : Option Int) : Bool :=
  code = some kRpcClientNotConnected ∨ code = some kRpcClientInInitialDownload ∨ code = some kRpcInWarmup

/-- The endpoint could not serve the request, so the next one is tried. -/
def Reply.unavailable {α : Type} : Reply α → Bool
  | .result _ => false
  | .rpc_error _ code => endpoint_unavailable code
  | .connection_error _ => true

/-- The members of a parsed reply; an `error` that is null is none. -/
structure RpcEnvelope (J : Type) where
  error : Option GbtFault
  result : Option J

/-- The JSON library, as far as it is asked: how it reads a reply and a template, the string a
value is, and how `submitblock_rejection` reads a value. -/
structure JsonReader (J : Type) where
  read : Text → Option (RpcEnvelope J)
  read_template : Text → Except String GbtEnvelope
  get_string : J → Option Text
  submitblock_rejection : J → Option Text

variable {J : Type}

variable (json : JsonReader J) (count : Nat)

def call_one : Post → Reply J
  | .error what => .connection_error what
  | .ok (http_status, response) =>
    match json.read response with
    | none => .connection_error ("unparseable body (HTTP " ++ String.ofList (to_string http_status) ++ ")")
    | some ⟨some error, _⟩ => .rpc_error error.json error.code
    | some ⟨none, none⟩ =>
      .connection_error ("reply has no result (HTTP " ++ String.ofList (to_string http_status) ++ ")")
    | some ⟨none, some result⟩ => .result result

/-- The end of `fetch_template_from`, on the body it finds in the buffer. -/
def parse_template (http_status : Nat) (gbt_body : Text) : Reply BlockTemplate :=
  let unparseable (what : String) : Reply BlockTemplate :=
    .connection_error ("unparseable body (HTTP " ++ String.ofList (to_string http_status) ++ "): " ++ what)
  match json.read_template gbt_body with
  | .error what => unparseable ("getblocktemplate reply is not valid JSON: " ++ what)
  | .ok envelope =>
    match BlockTemplate.from_gbt envelope with
    | .ok block_template => .result block_template
    | .error (.RpcError what code) => .rpc_error what code
    | .error (.invalid_argument what) => unparseable what

/-- `fetch_template_from` without anything between the response and its parsing. -/
def fetch_template_from : Post → Reply BlockTemplate
  | .error what => .connection_error what
  | .ok (http_status, body) => parse_template json http_status body

inductive Request where
  | call_payload
  | getblocktemplate_parsed
  | maybe_failback (expected_tip : Text)
  | submitblock
deriving DecidableEq

/-- The requests that go around the endpoints. -/
def Request.cyclic : Request → Bool
  | .call_payload | .getblocktemplate_parsed => true
  | .maybe_failback _ | .submitblock => false

inductive Answer (J : Type) where
  | json (value : J)
  | block_template (block_template : BlockTemplate)

/-- What an endpoint's response means to a request that goes around the endpoints. -/
def Request.reply (request : Request) (post : Post) : Reply (Answer J) :=
  if request = .getblocktemplate_parsed then (fetch_template_from json post).map .block_template
  else (call_one json post).map .json

inductive Outcome (J : Type) where
  | returned (answer : Answer J)
  | failed_back (block_template : BlockTemplate)
  | rpc_error (what : String) (code : Option Int)
  | unavailable (what : String)
  | submitted (reply : SubmitReply)
  | finished

/-- Where a call is: each phase ends with one access to what the threads share or with one
response. -/
inductive Phase (J : Type) where
  | take_tip
  | check_active (expected_tip : Text)
  | failback_post (expected_tip : Text)
  | failback_parse (expected_tip : Text) (http_status : Nat)
  | failback_install (expected_tip : Text) (block_template : BlockTemplate)
  | load
  | attempt (start offset : Nat) (last_error : String)
  | parse (start offset : Nat) (http_status : Nat)
  | install (start index : Nat) (answer : Answer J)
  | probe_check (expected_tip : Text)
  | probe_time (expected_tip : Text)
  | probe_store (expected_tip : Text) (now : ℚ)
  | probe_post (expected_tip : Text)
  | probe_schedule (expected_tip : Text)
  | submit (replies : List SubmitReply)
  | done (outcome : Outcome J)

/-- A call of one of the threads, with the history of its own requests: the active index it read,
the endpoints its loop asked and their responses, and the same for its failback and its probe,
which go to endpoint 0. -/
structure Call (J : Type) where
  request : Request
  phase : Phase J
  start : Nat := 0
  asked : List (Nat × Post) := []
  failback : List (Nat × Post) := []
  probe : Option (Nat × Post) := none

/-- What the threads share. -/
structure Shared where
  current : Nat := 0
  failback_expected_tip : Option Text := none
  last_failback_probe : Option ℚ := none
  gbt_body : Text := []

/-- History: the calls that changed the active index, and the tips that endpoint 0 reported to
`maybe_failback` as they were given to it. -/
inductive Note where
  | changed (call before after : Nat)
  | probed (call : Nat) (tip : Text)

structure RpcClient (J : Type) where
  shared : Shared := {}
  calls : List (Call J) := []
  log : List Note := []

def kFailbackProbeSeconds : ℚ := 60

def Request.first_phase : Request → Phase J
  | .call_payload => .load
  | .getblocktemplate_parsed => .take_tip
  | .maybe_failback expected_tip => .probe_check expected_tip
  | .submitblock => .submit []

/-- The loop after the reply of the endpoint at `offset`. -/
def Phase.after_reply (start offset : Nat) : Reply (Answer J) → Phase J
  | .result answer =>
    let index := (start + offset) % count
    if index ≠ start then .install start index answer else .done (.returned answer)
  | .rpc_error what code =>
    if endpoint_unavailable code then .attempt start (offset + 1) what else .done (.rpc_error what code)
  | .connection_error what => .attempt start (offset + 1) what

def Request.all_unavailable (request : Request) (last_error : String) : String :=
  if request = .getblocktemplate_parsed then "all bitcoind endpoints unavailable for mining work: " ++ last_error
  else "all bitcoind endpoints unavailable: " ++ last_error

/-- An exchange or a compare-and-swap of the active index that stores `after`. -/
def Note.change (call before after : Nat) : List Note := if before = after then [] else [.changed call before after]

def submit_reply (post : Post) : SubmitReply :=
  match call_one json post with
  | .result value => .ok (json.submitblock_rejection value)
  | .rpc_error what _ => .error what
  | .connection_error what => .error what

/-- One step of the call with number `id`, on the response or at the time it waits for. -/
def Call.step (id : Nat) (shared : Shared) (call : Call J) (post : Post)
    (now : ℚ) : Shared × Call J × List Note :=
  match call.phase with
  | .take_tip =>
    let taken := { shared with failback_expected_tip := none }
    match shared.failback_expected_tip with
    | none => (taken, { call with phase := .load }, [])
    | some expected_tip => (taken, { call with phase := .check_active expected_tip }, [])
  | .check_active expected_tip =>
    if shared.current = 0 then (shared, { call with phase := .load }, [])
    else (shared, { call with phase := .failback_post expected_tip }, [])
  | .failback_post expected_tip =>
    let asking := { call with failback := call.failback ++ [(0, post)] }
    match post with
    | .error _ => (shared, { asking with phase := .load }, [])
    | .ok (http_status, body) =>
      ({ shared with gbt_body := body }, { asking with phase := .failback_parse expected_tip http_status }, [])
  | .failback_parse expected_tip http_status =>
    match parse_template json http_status shared.gbt_body with
    | .result block_template =>
      if block_template.previousblockhash ≠ expected_tip then (shared, { call with phase := .load }, [])
      else (shared, { call with phase := .failback_install expected_tip block_template }, [])
    | _ => (shared, { call with phase := .load }, [])
  | .failback_install _ block_template =>
    ({ shared with current := 0 }, { call with phase := .done (.failed_back block_template) },
      Note.change id shared.current 0)
  | .load => (shared, { call with phase := .attempt shared.current 0 "", start := shared.current }, [])
  | .attempt start offset last_error =>
    if offset < count then
      let asking := { call with asked := call.asked ++ [((start + offset) % count, post)] }
      if call.request = .getblocktemplate_parsed then
        match post with
        | .error what => (shared, { asking with phase := .attempt start (offset + 1) what }, [])
        | .ok (http_status, body) =>
          ({ shared with gbt_body := body }, { asking with phase := .parse start offset http_status }, [])
      else (shared, { asking with phase := .after_reply count start offset (call.request.reply json post) }, [])
    else (shared, { call with phase := .done (.unavailable (call.request.all_unavailable last_error)) }, [])
  | .parse start offset http_status =>
    let reply := (parse_template json http_status shared.gbt_body).map .block_template
    (shared, { call with phase := .after_reply count start offset reply }, [])
  | .install start index answer =>
    let returned := { call with phase := .done (.returned answer) }
    if shared.current = start then ({ shared with current := index }, returned, Note.change id start index)
    else (shared, returned, [])
  | .probe_check expected_tip =>
    if shared.current = 0 ∨ expected_tip.isEmpty then (shared, { call with phase := .done .finished }, [])
    else (shared, { call with phase := .probe_time expected_tip }, [])
  | .probe_time expected_tip =>
    if shared.last_failback_probe.any (fun last => now - last < kFailbackProbeSeconds) then
      (shared, { call with phase := .done .finished }, [])
    else (shared, { call with phase := .probe_store expected_tip now }, [])
  | .probe_store expected_tip now =>
    ({ shared with last_failback_probe := some now }, { call with phase := .probe_post expected_tip }, [])
  | .probe_post expected_tip =>
    let probing := { call with probe := some (0, post) }
    match call_one json post with
    | .result value =>
      if json.get_string value = some expected_tip then
        (shared, { probing with phase := .probe_schedule expected_tip }, [.probed id expected_tip])
      else (shared, { probing with phase := .done .finished }, [])
    | _ => (shared, { probing with phase := .done .finished }, [])
  | .probe_schedule expected_tip =>
    ({ shared with failback_expected_tip := some expected_tip }, { call with phase := .done .finished }, [])
  | .submit replies =>
    if replies.length < count then
      (shared, { call with phase := .submit (replies ++ [submit_reply json post]) }, [])
    else (shared, { call with phase := .done (.submitted (submitblock replies)) }, [])
  | .done _ => (shared, call, [])

/-- A thread makes a call, or a call takes its next step. -/
inductive Event where
  | start (request : Request)
  | advance (call : Nat) (post : Post) (now : ℚ)

def RpcClient.step (client : RpcClient J) : Event → RpcClient J
  | .start request => { client with calls := client.calls ++ [⟨request, request.first_phase, 0, [], [], none⟩] }
  | .advance id post now =>
    match client.calls[id]? with
    | none => client
    | some call =>
      let (shared, call, notes) := call.step json count id client.shared post now
      { shared := shared, calls := client.calls.set id call, log := client.log ++ notes }

end erikslund.bitcoin.rpc
