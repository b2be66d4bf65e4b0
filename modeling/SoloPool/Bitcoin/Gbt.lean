import SoloPool.Bitcoin.BlockTemplate
import SoloPool.Lib.Result
import SoloPool.Util.Merkle

namespace erikslund.bitcoin

open util

structure GbtTransaction where
  data : Option Text
  txid : Option Text
  hash : Option Text

/-- The members of a reply that are read; a rule that is not a string is `none`. -/
structure GbtReply where
  height : Option Int
  version : Option Int
  curtime : Option Int
  bits : Option Text
  coinbasevalue : Option UInt64
  previousblockhash : Option Text
  rules : Option (List (Option Text)) := none
  default_witness_commitment : Option Text := none
  transactions : Option (List GbtTransaction) := none

/-- The `error` member: its JSON text and its `rpc_error_code`. -/
structure GbtFault where
  json : String
  code : Option Int

structure GbtEnvelope where
  result : Option GbtReply
  error : Option GbtFault

inductive GbtError where
  | RpcError (message : String) (code : Option Int)
  | invalid_argument (message : String)

def require_field {α : Type} (field : Option α) (name : String) : Except String α :=
  match field with
  | some value => .ok value
  | none => .error ("getblocktemplate missing field: " ++ name)

def require_header_u32 (value : Int) (field : String) : Except String UInt32 :=
  if value < 0 ∨ value > 0xffffffff then .error ("getblocktemplate " ++ field ++ " out of uint32 range")
  else .ok (UInt32.ofNat value.toNat)

def check_mandatory_rule (name : Text) : Except String Unit :=
  if name.head? = some '!' ∧ name ≠ "!segwit".toList then
    .error ("unsupported mandatory template rule: " ++ String.ofList name)
  else .ok ()

/-- The field that names a transaction. -/
def id_field (segwit_aware : Bool) (txid hash : Option Text) : Except String Text :=
  match txid, segwit_aware, hash with
  | some text, _, _ => .ok text
  | none, true, _ => .error "segwit template transaction missing txid (refusing wtxid fallback)"
  | none, false, some text => .ok text
  | none, false, none => .error "template transaction has neither txid nor hash"

def parse_txid (segwit_aware : Bool) (txid hash : Option Text) : Except String Hash256 := do
  let id_hex ← id_field segwit_aware txid hash
  match try_from_hex id_hex with
  | none => .error "template txid is not a 32-byte hex string"
  | some display =>
    if hsize : display.reverse.length = 32 then .ok ⟨display.reverse, hsize⟩
    else .error "template txid is not a 32-byte hex string"

/-- One turn of the loop over the transactions: the bytes it appends and the id it pushes. -/
def parse_transaction (segwit_aware : Bool) (transaction : GbtTransaction) : Except String (Bytes × Hash256) := do
  let text ← require_field transaction.data "transaction data"
  let data ← from_hex text
  let txid ← parse_txid segwit_aware transaction.txid transaction.hash
  return (data, txid)

/-- The transactions of the reply, without their data fields missing. -/
def parse_transactions (segwit_aware : Bool) (transactions : List GbtTransaction) :
    Except String (List (Bytes × Hash256)) := do
  if transactions.length > 0xffffffff then throw "getblocktemplate has too many transactions"
  else
    let _ ← transactions.mapM fun transaction => require_field transaction.data "transaction data"
    transactions.mapM (parse_transaction segwit_aware)

/-- The witness and the outputs that a witness commitment adds to the coinbase. -/
def commitment_outputs (commitment : Option Text) : Except String (Option Bytes × List CoinbaseOutput) :=
  match commitment with
  | none | some [] => .ok (none, [])
  | some text => do
    let script ← from_hex text
    return (some (List.replicate 32 0), [⟨0, script⟩])

/-- What `from_gbt` makes of the `result` of a reply without an error. -/
def GbtReply.block_template (reply : GbtReply) : Except String BlockTemplate := do
  let height ← require_field reply.height "height"
  let version ← require_header_u32 (← require_field reply.version "version") "version"
  let curtime ← require_header_u32 (← require_field reply.curtime "curtime") "curtime"
  let bits_hex ← require_field reply.bits "bits"
  let bits ← parse_hex_u32 bits_hex
  let coinbase_value ← require_field reply.coinbasevalue "coinbasevalue"
  let previousblockhash ← require_field reply.previousblockhash "previousblockhash"
  let script_sig ← serialize_height height
  let _ ← ((reply.rules.getD []).filterMap id).mapM check_mandatory_rule
  let coinbase ← commitment_outputs reply.default_witness_commitment
  let parsed ← parse_transactions reply.default_witness_commitment.isSome (reply.transactions.getD [])
  return {
    height, version, curtime, bits, bits_hex, coinbase_value, previousblockhash
    coinbase_script_sig_prefix := script_sig
    coinbase_witness := coinbase.1
    coinbase_required_outputs := coinbase.2
    txn_count := UInt32.ofNat parsed.length
    txn_data := (parsed.map Prod.fst).flatten
    merkle_branch_internal := merkle_branch (parsed.map Prod.snd) }

/-- `from_gbt` on a reply that was read as JSON. -/
def BlockTemplate.from_gbt (envelope : GbtEnvelope) : Except GbtError BlockTemplate :=
  match envelope.error, envelope.result with
  | some fault, _ => .error (.RpcError fault.json fault.code)
  | none, none => .error (.invalid_argument "getblocktemplate reply has no result")
  | none, some reply => reply.block_template.mapError .invalid_argument

theorem require_field_ok {α : Type} {field : Option α} {name : String} {value : α} :
    require_field field name = .ok value ↔ field = some value := by
  cases field <;> simp [require_field]

/-- The id of a parsed transaction is the one its fields show. -/
theorem parse_txid_ok {segwit_aware : Bool} {txid hash : Option Text} {id : Hash256}
    (h : parse_txid segwit_aware txid hash = .ok id) :
    ∃ id_hex, (txid <|> hash) = some id_hex ∧ try_from_hex id_hex = some (reversed id.val) := by
  obtain ⟨id_hex, hfield, h⟩ := Result.bind_eq_ok.mp h
  have hshown : (txid <|> hash) = some id_hex := by
    unfold id_field at hfield
    split at hfield
    · cases hfield
      rfl
    · cases hfield
    · cases hfield
      rfl
    · cases hfield
  refine ⟨id_hex, hshown, ?_⟩
  split at h
  · cases h
  rename_i display hdisplay
  split at h
  · cases h
    rw [hdisplay, reversed, List.reverse_reverse]
  · cases h

/-- What a template takes over from a reply whose transactions were parsed. -/
structure GbtReply.Fills (reply : GbtReply) (parsed : List (Bytes × Hash256)) (block_template : BlockTemplate) :
    Prop where
  valid : block_template.Valid
  coinbase : commitment_outputs reply.default_witness_commitment =
    .ok (block_template.coinbase_witness, block_template.coinbase_required_outputs)
  transactions : parse_transactions reply.default_witness_commitment.isSome (reply.transactions.getD []) = .ok parsed
  txn_count : block_template.txn_count = UInt32.ofNat parsed.length
  txn_data : block_template.txn_data = (parsed.map Prod.fst).flatten
  merkle_branch : block_template.merkle_branch_internal = util.merkle_branch (parsed.map Prod.snd)

theorem GbtReply.fills_of_block_template {reply : GbtReply} {block_template : BlockTemplate}
    (h : reply.block_template = .ok block_template) : ∃ parsed, reply.Fills parsed block_template := by
  unfold GbtReply.block_template at h
  simp only [Result.bind_eq_ok, Result.pure_eq_ok] at h
  obtain ⟨height, -, _, -, version, -, _, -, curtime, -, bits_hex, -, bits, hbits, coinbase_value, -,
    previousblockhash, -, script_sig, -, -, -, coinbase, hcoinbase, parsed, hparsed, rfl⟩ := h
  exact ⟨parsed, hbits, hcoinbase, hparsed, rfl, rfl, rfl⟩

theorem BlockTemplate.from_gbt_ok {envelope : GbtEnvelope} {block_template : BlockTemplate}
    (h : BlockTemplate.from_gbt envelope = .ok block_template) :
    ∃ reply parsed, envelope.result = some reply ∧ reply.Fills parsed block_template := by
  unfold BlockTemplate.from_gbt at h
  split at h
  · cases h
  · cases h
  · rename_i reply _ hresult
    cases hfilled : reply.block_template with
    | error message =>
      rw [hfilled] at h
      cases h
    | ok filled =>
      rw [hfilled] at h
      cases h
      obtain ⟨parsed, hfills⟩ := GbtReply.fills_of_block_template hfilled
      exact ⟨reply, parsed, hresult, hfills⟩

/-- A coinbase witness comes with exactly one required output, and is the zero item. -/
theorem commitment_outputs_ok {commitment : Option Text} {witness : Option Bytes} {outputs : List CoinbaseOutput}
    (h : commitment_outputs commitment = .ok (witness, outputs)) :
    witness = none ∧ outputs = [] ∨
      ∃ text script, commitment = some text ∧ from_hex text = .ok script ∧
        witness = some (List.replicate 32 0) ∧ outputs = [⟨0, script⟩] := by
  unfold commitment_outputs at h
  split at h
  · cases h
    exact .inl ⟨rfl, rfl⟩
  · cases h
    exact .inl ⟨rfl, rfl⟩
  · rename_i text _
    obtain ⟨script, hscript, h⟩ := Result.bind_eq_ok.mp h
    cases h
    exact .inr ⟨text, script, rfl, hscript, rfl, rfl⟩

/-- A template from a reply of the node is valid, and its witness comes with the commitment. -/
theorem BlockTemplate.from_gbt_paired {envelope : GbtEnvelope} {block_template : BlockTemplate}
    (h : BlockTemplate.from_gbt envelope = .ok block_template) : block_template.Valid ∧ block_template.Paired := by
  obtain ⟨reply, parsed, -, hfills⟩ := BlockTemplate.from_gbt_ok h
  refine ⟨hfills.valid, fun hwitness => ?_⟩
  rcases commitment_outputs_ok hfills.coinbase with ⟨hnone, -⟩ | ⟨_, script, -, -, -, houtputs⟩
  · rw [hnone] at hwitness
    cases hwitness
  · rw [houtputs]
    exact List.cons_ne_nil _ _

theorem parse_transactions_ok {segwit_aware : Bool} {transactions : List GbtTransaction}
    {parsed : List (Bytes × Hash256)} (h : parse_transactions segwit_aware transactions = .ok parsed) :
    parsed.length < 2 ^ 32 ∧
      List.Forall₂ (fun transaction entry => parse_transaction segwit_aware transaction = .ok entry) transactions
        parsed := by
  unfold parse_transactions at h
  split at h
  · cases h
  rename_i hcount
  obtain ⟨_, -, h⟩ := Result.bind_eq_ok.mp h
  have hparsed := Result.mapM_eq_ok.mp h
  refine ⟨?_, hparsed⟩
  rw [← hparsed.length_eq]
  omega

end erikslund.bitcoin
