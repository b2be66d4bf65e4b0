import SoloPool.Bitcoin.BlockTemplate
import SoloPool.Bitcoin.Transaction
import SoloPool.Lib.Result
import SoloPool.Util.Merkle

namespace erikslund.bitcoin

open util Reader

def kMaxMoney : Nat := 2100000000000000

def read_le32 (bytes : Bytes) : UInt32 := UInt32.ofNat (Radix.value (bytes.take 4))

structure HeaderFields where
  version : UInt32
  curtime : UInt32
  bits : UInt32
  bits_hex : Text
  previousblockhash : Text

def fill_header_fields (header : Bytes) : Except String HeaderFields :=
  if header.length ≠ 80 then .error "IPC block header must be exactly 80 bytes"
  else .ok {
    version := read_le32 header
    curtime := read_le32 (header.drop 68)
    bits := read_le32 (header.drop 72)
    bits_hex := to_hex_reversed ((header.drop 72).take 4)
    previousblockhash := to_hex_reversed ((header.drop 4).take 32) }

def parse_coinbase_output (serialized : Bytes) : Except String CoinbaseOutput := do
  let (value, rest) ← (Cursor.take 8).run serialized
  if Radix.value value > kMaxMoney then throw "IPC required coinbase output value is out of range"
  else
    let (script_size, rest) ← Cursor.compact_size.run rest
    let (script, rest) ← (Reader.take "IPC required coinbase output script is truncated" script_size).run rest
    if rest.length ≠ 0 then throw "IPC required coinbase output has trailing data"
    else return ⟨UInt64.ofNat (Radix.value value), script⟩

/-- The transactions of a block behind its dummy coinbase: their number and bytes. -/
def skip_dummy_coinbase : Cursor Nat := do
  let total_transactions ← Cursor.compact_size
  if total_transactions = 0 then throw "IPC block contains no coinbase transaction"
  else if total_transactions > 0xffffffff then throw "IPC block contains too many transactions"
  else
    let _ ← skip_transaction
    return total_transactions - 1

def fill_block_fields (block : Bytes) : Except String (HeaderFields × Nat × Bytes) := do
  if block.length ≤ 80 then throw "IPC block is missing its transaction count"
  else
    let fields ← fill_header_fields (block.take 80)
    let transactions ← skip_dummy_coinbase.run (block.drop 80)
    return (fields, transactions)

def is_witness_commitment (output : CoinbaseOutput) : Bool :=
  decide (output.script.length ≥ 38) && output.script.take 6 == [0x6a, 0x24, 0xaa, 0x21, 0xa9, 0xed]

/-- The loop that halves the width of a level up to the root; `fuel` bounds its turns. -/
def expected_depth : Nat → Nat → Nat
  | 0, _ => 0
  | fuel + 1, width => if width > 1 then expected_depth fuel ((width + 1) / 2) + 1 else 0

def validate_template (block_template : BlockTemplate) : Except String Unit :=
  if block_template.merkle_branch_internal.length ≠ expected_depth 64 (block_template.txn_count.toNat + 1) then
    .error "IPC template returned an inconsistent coinbase merkle path"
  else if block_template.coinbase_witness.isSome ≠
      block_template.coinbase_required_outputs.any is_witness_commitment then
    .error "IPC template returned inconsistent coinbase witness requirements"
  else .ok ()

/-- What `getCoinbaseTx` answers. -/
structure IpcCoinbase where
  version : UInt32
  sequence : UInt32
  script_sig : Bytes
  witness : Bytes
  block_reward_remaining : Int
  required_outputs : List Bytes
  lock_time : UInt32

/-- The answers of a node to the requests of one `create_block`. -/
structure IpcReply where
  block : Bytes
  coinbase : IpcCoinbase
  merkle_path : List Bytes

def coinbase_witness (witness : Bytes) : Except String (Option Bytes) :=
  if witness.isEmpty then .ok none
  else if witness.length ≠ 32 then .error "IPC template coinbase witness is not 32 bytes"
  else .ok (some witness)

def merkle_node (node : Bytes) : Except String Hash256 :=
  if hsize : node.length = 32 then .ok ⟨node, hsize⟩ else .error "IPC template merkle path node is not 32 bytes"

/-- `create_block` on answers that all came. -/
def create_block (reply : IpcReply) : Except String BlockTemplate := do
  let (fields, txn_count, txn_data) ← fill_block_fields reply.block
  let coinbase := reply.coinbase
  if coinbase.block_reward_remaining < 0 then throw "IPC template returned a negative coinbase reward"
  else if coinbase.script_sig.isEmpty then throw "IPC template returned an empty coinbase scriptSig prefix"
  else
    let witness ← coinbase_witness coinbase.witness
    let required_outputs ← coinbase.required_outputs.mapM parse_coinbase_output
    let merkle_branch ← reply.merkle_path.mapM merkle_node
    let block_template : BlockTemplate := {
      height := (coinbase.lock_time.toNat : Int) + 1
      version := fields.version
      curtime := fields.curtime
      bits := fields.bits
      bits_hex := fields.bits_hex
      coinbase_value := UInt64.ofNat coinbase.block_reward_remaining.toNat
      previousblockhash := fields.previousblockhash
      coinbase_script_sig_prefix := coinbase.script_sig
      coinbase_version := some coinbase.version
      coinbase_sequence := coinbase.sequence
      coinbase_lock_time := coinbase.lock_time
      coinbase_witness := witness
      coinbase_required_outputs := required_outputs
      txn_count := UInt32.ofNat txn_count
      txn_data := txn_data
      merkle_branch_internal := merkle_branch }
    let _ ← validate_template block_template
    return block_template

theorem fill_header_fields_valid {header : Bytes} {fields : HeaderFields} (h : fill_header_fields header = .ok fields) :
    parse_hex_u32 fields.bits_hex = .ok fields.bits := by
  unfold fill_header_fields at h
  split at h
  · cases h
  rename_i hsize
  cases h
  have hlength : ((header.drop 72).take 4).length = 4 := by
    rw [List.length_take, List.length_drop]
    omega
  rw [parse_hex_u32, try_parse_to_hex_reversed hlength]
  rfl

theorem validate_template_paired {block_template : BlockTemplate} {result : Unit}
    (h : validate_template block_template = .ok result) : block_template.Paired := by
  unfold validate_template at h
  split at h
  · cases h
  split at h
  · cases h
  rename_i hsame
  intro hwitness hnone
  rw [hwitness, hnone] at hsame
  exact hsame Bool.noConfusion

/-- A template that was created over IPC is valid, and its witness comes with a commitment. -/
theorem create_block_paired {reply : IpcReply} {block_template : BlockTemplate}
    (h : create_block reply = .ok block_template) : block_template.Valid ∧ block_template.Paired := by
  unfold create_block at h
  obtain ⟨⟨fields, txn_count, txn_data⟩, hblock, h⟩ := Result.bind_eq_ok.mp h
  have hfields : parse_hex_u32 fields.bits_hex = .ok fields.bits := by
    unfold fill_block_fields at hblock
    split at hblock
    · cases hblock
    obtain ⟨fields', hfields, hblock⟩ := Result.bind_eq_ok.mp hblock
    obtain ⟨transactions, -, hblock⟩ := Result.bind_eq_ok.mp hblock
    cases hblock
    exact fill_header_fields_valid hfields
  dsimp only at h
  split at h
  · cases h
  split at h
  · cases h
  obtain ⟨witness, -, h⟩ := Result.bind_eq_ok.mp h
  obtain ⟨required_outputs, -, h⟩ := Result.bind_eq_ok.mp h
  obtain ⟨merkle_branch, -, h⟩ := Result.bind_eq_ok.mp h
  obtain ⟨checked, hchecked, h⟩ := Result.bind_eq_ok.mp h
  cases h
  exact ⟨hfields, validate_template_paired hchecked⟩

/-- Any number of turns that reaches the root counts the same levels. -/
theorem expected_depth_turns {turns turns' width : Nat} (h : width ≤ 2 ^ turns) (h' : width ≤ 2 ^ turns') :
    expected_depth turns width = expected_depth turns' width := by
  induction turns generalizing turns' width with
  | zero =>
    have hroot : ¬ width > 1 := by omega
    cases turns' with
    | zero => rfl
    | succ turns' => rw [expected_depth, expected_depth, if_neg hroot]
  | succ turns ih =>
    by_cases hroot : width > 1
    · obtain ⟨turns', rfl⟩ : ∃ less, turns' = less + 1 := by
        refine ⟨turns' - 1, (Nat.succ_pred_eq_of_pos ?_).symm⟩
        apply Nat.pos_of_ne_zero
        rintro rfl
        omega
      rw [Nat.pow_succ] at h h'
      have hhalf : (width + 1) / 2 ≤ 2 ^ turns := by omega
      have hhalf' : (width + 1) / 2 ≤ 2 ^ turns' := by omega
      rw [expected_depth, expected_depth, if_pos hroot, if_pos hroot, ih hhalf hhalf']
    · cases turns' with
      | zero => rw [expected_depth, expected_depth, if_neg hroot]
      | succ turns' => rw [expected_depth, expected_depth, if_neg hroot, if_neg hroot]

open MerkleTree

/-- One sibling is kept at each level the halved width passes. -/
theorem siblings_length {α : Type} (combine : α → α → α) (turns : Nat) {level : List α} (hpos : 0 < level.length) :
    (siblings combine turns level).length = expected_depth turns level.length := by
  induction turns generalizing level with
  | zero => rfl
  | succ turns ih =>
    unfold siblings expected_depth
    split
    · have hcompleted := completed_length hpos
      have hcollapsed := collapse_length combine (completed level)
      have hsecond : 1 < (completed level).length := by omega
      have hwidth : (collapse combine (completed level)).length = (level.length + 1) / 2 := by
        omega
      rw [List.getElem?_eq_getElem hsecond, Option.toList_some, List.length_append, ih (by omega), hwidth,
        List.length_singleton, Nat.add_comm]
    · rfl

/-- The branch of a coinbase leads to the root whatever the hash is, the loop having ended with one
node, and has the length that `validate_template` asks for. Sixty-four turns are enough for a width
of its type. -/
theorem merkle_branch_leads_to_root (hash : Hash256 → Hash256 → Hash256) (coinbase : Hash256) (others : List Hash256) :
    merkle_root_from_branch_with hash coinbase (merkle_branch_with hash others) =
        merkle_root_with hash (coinbase :: others) ∧
      (climb hash (coinbase :: others).length (coinbase :: others)).length = 1 ∧
      ∀ turns, others.length + 1 ≤ 2 ^ turns →
        (merkle_branch_with hash others).length = expected_depth turns (others.length + 1) := by
  refine ⟨merkle_root_from_merkle_branch_with hash coinbase others,
    climb_length hash (Nat.succ_pos others.length) (Nat.le_succ _), ?_⟩
  intro turns hturns
  have hlength : (merkle_branch_with hash others).length = expected_depth (others.length + 1) (others.length + 1) :=
    siblings_length hash (others.length + 1) (Nat.succ_pos others.length)
  rw [hlength]
  exact expected_depth_turns Nat.lt_two_pow_self.le hturns

/-- Three transactions beside the coinbase: two levels. -/
theorem merkle_branch_leads_to_root_of_three :
    (merkle_branch_with hash_pair [zero_hash, zero_hash, zero_hash]).length = expected_depth 64 4 ∧
      expected_depth 64 4 = 2 :=
  ⟨(merkle_branch_leads_to_root hash_pair zero_hash [zero_hash, zero_hash, zero_hash]).2.2 64 (by decide), by decide⟩

end erikslund.bitcoin
