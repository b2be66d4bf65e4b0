import SoloPool.Bitcoin.Ipc
import SoloPool.Lib.Turns

namespace erikslund.bitcoin

open util Reader List

section Turns

/-! The functions with loops, with their turns counted. -/

namespace counted

open Counted (lift)

def skip_inputs : Counted UInt8 String Nat := do
  let input_count ← lift Cursor.compact_size
  if input_count = 0 then lift (throw "IPC block transaction has no inputs")
  else
    let _ ← Counted.times input_count (lift skip_input)
    return input_count

def skip_outputs : Counted UInt8 String Unit := do
  let output_count ← lift Cursor.compact_size
  let _ ← Counted.times output_count (lift skip_output)
  return ()

def skip_stack : Counted UInt8 String Unit := do
  let item_count ← lift Cursor.compact_size
  let _ ← Counted.times item_count (lift Cursor.skip_compact_bytes)
  return ()

def skip_witness (has_witness : Bool) (input_count : Nat) : Counted UInt8 String (Option Bytes) :=
  if has_witness then do
    let skipped ← Counted.span (Counted.times input_count skip_stack)
    return some skipped.2
  else return none

def skip_transaction : Counted UInt8 String Transaction := do
  let version ← lift (Cursor.take 4)
  let has_witness ← lift skip_flags
  let inputs ← Counted.span skip_inputs
  let outputs ← Counted.span skip_outputs
  let witness ← skip_witness has_witness inputs.1
  let lock_time ← lift (Cursor.take 4)
  return ⟨version, inputs.2, outputs.2, witness, lock_time⟩

theorem erase_skip_inputs : skip_inputs.erase = bitcoin.skip_inputs := by
  simp only [skip_inputs, bitcoin.skip_inputs, Counted.erase_bind, Counted.erase_lift, Counted.erase_ite,
    Counted.erase_times, Counted.erase_pure]

theorem erase_skip_outputs : skip_outputs.erase = bitcoin.skip_outputs := by
  simp only [skip_outputs, bitcoin.skip_outputs, Counted.erase_bind, Counted.erase_lift, Counted.erase_times,
    Counted.erase_pure]

theorem erase_skip_stack : skip_stack.erase = bitcoin.skip_stack := by
  simp only [skip_stack, bitcoin.skip_stack, Counted.erase_bind, Counted.erase_lift, Counted.erase_times,
    Counted.erase_pure]

theorem erase_skip_witness (has_witness : Bool) (input_count : Nat) :
    (skip_witness has_witness input_count).erase = bitcoin.skip_witness has_witness input_count := by
  simp only [skip_witness, bitcoin.skip_witness, Counted.erase_ite, Counted.erase_bind, Counted.erase_span,
    Counted.erase_times, Counted.erase_pure, erase_skip_stack]

/-- Without its count it is `skip_transaction`. -/
theorem erase_skip_transaction : skip_transaction.erase = bitcoin.skip_transaction := by
  simp only [skip_transaction, bitcoin.skip_transaction, Counted.erase_bind, Counted.erase_lift, Counted.erase_span,
    Counted.erase_pure, erase_skip_inputs, erase_skip_outputs, erase_skip_witness]

end counted

/-- The turns of all the loops of `skip_transaction`, those that fail included. -/
def skip_transaction_turns (input : Bytes) : Nat := (counted.skip_transaction input).2

theorem compact_size_consumes : Consumes 1 Cursor.compact_size := by
  intro input value rest h
  obtain ⟨consumed, hdecoded, rfl, -⟩ := Cursor.of_reads_compact_size h
  have hlength := (decode_varint_append hdecoded []).2
  have hpos := decode_varint_consumed_pos hdecoded
  rw [length_drop]
  omega

theorem skip_compact_bytes_consumes : Consumes 1 Cursor.skip_compact_bytes :=
  (compact_size_consumes.bind fun size => (Consumes.take _ size).mono (Nat.zero_le size)).mono (by decide)

theorem skip_input_consumes : Consumes 1 skip_input :=
  ((Consumes.take _ 36).bind fun _ => skip_compact_bytes_consumes.bind fun _ => (Consumes.take _ 4).bind fun _ =>
    .pure ()).mono (by decide)

theorem skip_output_consumes : Consumes 1 skip_output :=
  ((Consumes.take _ 8).bind fun _ => skip_compact_bytes_consumes.bind fun _ => .pure ()).mono (by decide)

theorem skip_flags_consumes : Consumes 0 skip_flags := by
  have hpeek (lookahead : Nat) : Consumes 0 (Cursor.peek lookahead) := by
    intro input byte rest h
    obtain ⟨-, rfl⟩ := Cursor.of_reads_peek h
    omega
  exact (hpeek 0).bind fun _ => .ite ((hpeek 1).bind fun _ => .ite (.pure _) (.ite (.throw 0 _)
    (((Consumes.take _ 2).bind fun _ => .pure _).mono (by decide)))) (.pure _)

theorem skip_inputs_paid : Paid 1 0 counted.skip_inputs :=
  (Paid.lift compact_size_consumes 0).bind (fun count => .ite (Paid.lift (.throw 0 _) 1)
    ((Paid.times (.lift skip_input_consumes 0) count).map _)) (by decide)

theorem skip_outputs_paid : Paid 1 0 counted.skip_outputs :=
  (Paid.lift compact_size_consumes 0).bind (fun count =>
    (Paid.times (.lift skip_output_consumes 0) count).map _) (by decide)

theorem skip_stack_paid : Paid 1 0 counted.skip_stack :=
  (Paid.lift compact_size_consumes 0).bind (fun count =>
    (Paid.times (.lift skip_compact_bytes_consumes 0) count).map _) (by decide)

theorem skip_witness_paid (has_witness : Bool) (input_count : Nat) :
    Paid 0 1 (counted.skip_witness has_witness input_count) :=
  .ite ((skip_stack_paid.times input_count).span.map _) (.pure 1 none)

/-- The loops of `skip_transaction` turn at most once for each byte they are given, whatever the
counts say. -/
theorem skip_transaction_paid : Paid 10 0 counted.skip_transaction := by
  have hend (result : Bytes → Transaction) : Paid 4 0 (do
      let lock_time ← Counted.lift (Cursor.take 4)
      return result lock_time) :=
    (Paid.lift (Consumes.take _ 4) 0).map _
  exact (Paid.lift (Consumes.take _ 4) 0).bind (fun _ => (Paid.lift skip_flags_consumes 0).bind (fun has_witness =>
    skip_inputs_paid.span.bind (fun inputs => skip_outputs_paid.span.bind (fun outputs =>
      (skip_witness_paid has_witness inputs.1).bind (fun _ => hend _) (by decide)) (by decide)) (by decide))
        (by decide)) (by decide)

end Turns

/-- The fields of a block header. -/
structure BlockHeader where
  version : UInt32
  previous : Hash256
  merkle_root : Hash256
  time : UInt32
  bits : UInt32
  nonce : UInt32

def BlockHeader.serialize (header : BlockHeader) : Bytes :=
  le32_bytes header.version ++ (header.previous.val ++ (header.merkle_root.val ++
    (le32_bytes header.time ++ (le32_bytes header.bits ++ le32_bytes header.nonce))))

structure TransactionInput where
  prevout : Bytes
  script : Bytes
  sequence : UInt32
  prevout_size : prevout.length = 36

def TransactionInput.serialize (input : TransactionInput) : Bytes :=
  input.prevout ++ ((encode_varint input.script.length ++ input.script) ++ le32_bytes input.sequence)

/-- A transaction with an input at least, in the legacy form or with one witness stack for each
input. -/
structure RawTransaction where
  version : UInt32
  inputs : List TransactionInput
  outputs : List CoinbaseOutput
  witness : Option (List (List Bytes))
  lock_time : UInt32
  some_input : inputs ≠ []
  stack_count : ∀ witness', witness = some witness' → witness'.length = inputs.length

namespace RawTransaction

def serialize_item (item : Bytes) : Bytes := encode_varint item.length ++ item

def serialize_stack (stack : List Bytes) : Bytes := encode_varint stack.length ++ (stack.map serialize_item).flatten

/-- The parts that `skip_transaction` tells apart. -/
def parts (tx : RawTransaction) : Transaction where
  version := le32_bytes tx.version
  inputs := encode_varint tx.inputs.length ++ (tx.inputs.map TransactionInput.serialize).flatten
  outputs := encode_varint tx.outputs.length ++ (tx.outputs.map append_output).flatten
  witness := tx.witness.map fun witness => (witness.map serialize_stack).flatten
  lock_time := le32_bytes tx.lock_time

def serialize (tx : RawTransaction) : Bytes := tx.parts.serialize

end RawTransaction

/-- A block as the node serializes it. The transactions behind the coinbase are bytes that the
pool does not look into. -/
def serialize_block (header : BlockHeader) (coinbase : RawTransaction) (transactions : List Bytes) : Bytes :=
  header.serialize ++ (encode_varint (transactions.length + 1) ++ (coinbase.serialize ++ transactions.flatten))

section Roundtrip

/-- Nothing that is part of a text is longer than it, nor are there more parts than elements. -/
theorem length_le_flatten {pieces : List Bytes} : ∀ piece ∈ pieces, piece.length ≤ pieces.flatten.length := by
  intro piece hmem
  exact (sublist_flatten_of_mem hmem).length_le

theorem count_le_flatten {pieces : List Bytes} (hpieces : ∀ piece ∈ pieces, 0 < piece.length) :
    pieces.length ≤ pieces.flatten.length := by
  induction pieces with
  | nil => exact Nat.le_refl 0
  | cons piece pieces ih =>
    obtain ⟨hpiece, hrest⟩ := forall_mem_cons.mp hpieces
    have hle := ih hrest
    rw [length_cons, flatten_cons, length_append]
    omega

theorem encode_varint_nonzero {value : Nat} (hpos : 0 < value) :
    ∃ first more, encode_varint value = first :: more ∧ first ≠ 0 := by
  unfold encode_varint
  split
  · rename_i hsmall
    refine ⟨UInt8.ofNat value, [], rfl, fun hzero => ?_⟩
    have hbyte := congrArg UInt8.toNat hzero
    rw [UInt8.toNat_ofNat'] at hbyte
    change value % 256 = 0 at hbyte
    omega
  split
  · exact ⟨0xfd, _, rfl, by decide⟩
  split
  · exact ⟨0xfe, _, rfl, by decide⟩
  · exact ⟨0xff, _, rfl, by decide⟩

theorem TransactionInput.encodes {input : TransactionInput} (hscript : input.script.length < 2 ^ 64) :
    Encodes skip_input input.serialize () :=
  (Cursor.take_encodes input.prevout_size).bind ((Cursor.skip_compact_bytes_encodes hscript).bind
    ((Cursor.take_encodes (le32_bytes_length input.sequence)).map _))

namespace RawTransaction

variable {tx : RawTransaction}

theorem stack_encodes {stack : List Bytes} (hsize : (serialize_stack stack).length < 2 ^ 64) :
    Encodes skip_stack (serialize_stack stack) () := by
  rw [serialize_stack, length_append] at hsize
  have hpieces : ∀ piece ∈ stack.map serialize_item, 0 < piece.length := by
    intro piece hmem
    obtain ⟨item, -, rfl⟩ := mem_map.mp hmem
    have hpos := encode_varint_length_pos item.length
    rw [serialize_item, length_append]
    omega
  have hcount := count_le_flatten hpieces
  rw [length_map] at hcount
  have heach : ∀ item ∈ stack, Encodes Cursor.skip_compact_bytes (serialize_item item) item := by
    intro item hmem
    have hlength := length_le_flatten _ (mem_map_of_mem (f := serialize_item) hmem)
    rw [serialize_item, length_append] at hlength
    exact Cursor.skip_compact_bytes_encodes (by omega)
  have hitems := times_map_encodes heach
  exact (Cursor.compact_size_encodes (by omega)).bind (hitems.map _)

theorem inputs_encodes (hsize : tx.parts.inputs.length < 2 ^ 64) :
    Encodes skip_inputs tx.parts.inputs tx.inputs.length := by
  change (encode_varint tx.inputs.length ++
    (tx.inputs.map TransactionInput.serialize).flatten).length < 2 ^ 64 at hsize
  rw [length_append] at hsize
  have hlong : ∀ input : TransactionInput, input.serialize.length = 40 + (encode_varint input.script.length).length +
      input.script.length := by
    intro input
    simp only [TransactionInput.serialize, length_append, input.prevout_size, le32_bytes_length]
    omega
  have hpieces : ∀ piece ∈ tx.inputs.map TransactionInput.serialize, 0 < piece.length := by
    intro piece hmem
    obtain ⟨input, -, rfl⟩ := mem_map.mp hmem
    rw [hlong]
    omega
  have hcount := count_le_flatten hpieces
  rw [length_map] at hcount
  have heach : ∀ input ∈ tx.inputs, Encodes skip_input input.serialize () := by
    intro input hmem
    have hlength := length_le_flatten _ (mem_map_of_mem (f := TransactionInput.serialize) hmem)
    rw [hlong] at hlength
    exact TransactionInput.encodes (by omega)
  have hnone : tx.inputs.length ≠ 0 := length_eq_zero_iff.not.mpr tx.some_input
  refine (Cursor.compact_size_encodes (by omega)).bind ?_
  rw [if_neg hnone]
  exact (times_map_encodes heach).map _

theorem outputs_encodes (hsize : tx.parts.outputs.length < 2 ^ 64) :
    Encodes skip_outputs tx.parts.outputs () := by
  change (encode_varint tx.outputs.length ++
    (tx.outputs.map append_output).flatten).length < 2 ^ 64 at hsize
  rw [length_append] at hsize
  have hlong : ∀ output : CoinbaseOutput, output.script.length + 8 ≤ (append_output output).length := by
    intro output
    have hvalue : (le64_bytes output.value).length = 8 := Radix.le_length 8 _
    simp only [append_output, length_append, hvalue]
    omega
  have hpieces : ∀ piece ∈ tx.outputs.map append_output, 0 < piece.length := by
    intro piece hmem
    obtain ⟨output, -, rfl⟩ := mem_map.mp hmem
    have houtput := hlong output
    omega
  have hcount := count_le_flatten hpieces
  rw [length_map] at hcount
  refine bitcoin.outputs_encodes (by omega) ?_
  intro output hmem
  have hlength := length_le_flatten _ (mem_map_of_mem (f := append_output) hmem)
  have houtput := hlong output
  omega

theorem witness_encodes {witness : List (List Bytes)} (hwitness : tx.witness = some witness)
    (hsize : (witness.map serialize_stack).flatten.length < 2 ^ 64) :
    Encodes (skip_witness true tx.inputs.length) (witness.map serialize_stack).flatten
      (some (witness.map serialize_stack).flatten) := by
  have heach : ∀ stack ∈ witness, Encodes skip_stack (serialize_stack stack) () := by
    intro stack hmem
    have hlength := length_le_flatten _ (mem_map_of_mem (f := serialize_stack) hmem)
    exact stack_encodes (by omega)
  rw [← tx.stack_count witness hwitness]
  exact (times_map_encodes heach).span.map _

/-- A transaction whose size is one of the machine is read to its end. -/
theorem encodes (hsize : tx.serialize.length < 2 ^ 64) :
    Encodes skip_transaction tx.serialize tx.parts := by
  have hinputs : tx.parts.inputs.length ≤ tx.serialize.length := by
    unfold serialize Transaction.serialize Transaction.legacy
    split <;> simp only [length_append] <;> omega
  have houtputs : tx.parts.outputs.length ≤ tx.serialize.length := by
    unfold serialize Transaction.serialize Transaction.legacy
    split <;> simp only [length_append] <;> omega
  refine skip_transaction_encodes (le32_bytes_length _) ?_ (inputs_encodes (by omega)) (outputs_encodes (by omega)) ?_
    (le32_bytes_length _)
  · obtain ⟨first, more, hcons, hne⟩ := encode_varint_nonzero (length_pos_iff.mpr tx.some_input)
    refine ⟨first, more ++ (tx.inputs.map TransactionInput.serialize).flatten, ?_, hne⟩
    change encode_varint tx.inputs.length ++ _ = _
    rw [hcons, cons_append]
  · intro bytes hbytes
    obtain ⟨witness, hwitness, rfl⟩ := Option.map_eq_some_iff.mp hbytes
    apply witness_encodes hwitness
    rw [serialize, Transaction.serialize, hbytes] at hsize
    simp only [length_append] at hsize
    omega

end RawTransaction

theorem BlockHeader.serialize_length (header : BlockHeader) : header.serialize.length = 80 := by
  simp only [BlockHeader.serialize, length_append, le32_bytes_length, header.previous.property,
    header.merkle_root.property]

theorem read_le32_append (value : UInt32) (rest : Bytes) : read_le32 (le32_bytes value ++ rest) = value := by
  have hlt := value.toNat_lt
  rw [read_le32, take_left' (le32_bytes_length value), le32_bytes, Radix.value_le]
  apply UInt32.toNat_inj.mp
  rw [UInt32.toNat_ofNat']
  omega

/-- The fields are read from where the header has them. -/
theorem fill_header_fields_serialize (header : BlockHeader) :
    fill_header_fields header.serialize = .ok {
      version := header.version
      curtime := header.time
      bits := header.bits
      bits_hex := to_hex (Radix.be 4 header.bits.toNat)
      previousblockhash := to_hex_reversed header.previous.val } := by
  have hprevious : header.serialize.drop 4 = header.previous.val ++ (header.merkle_root.val ++
      (le32_bytes header.time ++ (le32_bytes header.bits ++ le32_bytes header.nonce))) :=
    drop_left' (le32_bytes_length _)
  have htime : header.serialize.drop 68 =
      le32_bytes header.time ++ (le32_bytes header.bits ++ le32_bytes header.nonce) := by
    rw [show 68 = 4 + (32 + 32) by rfl, ← drop_drop, hprevious, ← drop_drop,
      drop_left' header.previous.property, drop_left' header.merkle_root.property]
  have hbits : header.serialize.drop 72 = le32_bytes header.bits ++ le32_bytes header.nonce := by
    rw [show 72 = 68 + 4 by rfl, ← drop_drop, htime, drop_left' (le32_bytes_length _)]
  rw [fill_header_fields, if_neg (fun hne => hne header.serialize_length), hprevious, htime, hbits,
    take_left' header.previous.property, take_left' (le32_bytes_length _), read_le32_append,
    read_le32_append, BlockHeader.serialize, read_le32_append]
  rfl

/-- The number of transactions behind the coinbase, and their bytes. -/
theorem skip_dummy_coinbase_reads {coinbase : RawTransaction} {count : Nat} (hcount : count + 1 < 2 ^ 32)
    (hsize : coinbase.serialize.length < 2 ^ 64) (rest : Bytes) :
    Reads skip_dummy_coinbase (encode_varint (count + 1) ++ (coinbase.serialize ++ rest)) count rest := by
  have hcompact := Cursor.compact_size_encodes (show count + 1 < 2 ^ 64 by omega)
  refine (hcompact _).bind ?_
  rw [if_neg (Nat.succ_ne_zero count), if_neg (by omega)]
  exact (coinbase.encodes hsize rest).bind (.pure _ rest)

theorem fill_block_fields_serialize {header : BlockHeader} {coinbase : RawTransaction} {transactions : List Bytes}
    (hcount : transactions.length + 1 < 2 ^ 32)
    (hsize : (serialize_block header coinbase transactions).length < 2 ^ 64) :
    fill_block_fields (serialize_block header coinbase transactions) = .ok ({
      version := header.version
      curtime := header.time
      bits := header.bits
      bits_hex := to_hex (Radix.be 4 header.bits.toNat)
      previousblockhash := to_hex_reversed header.previous.val }, transactions.length, transactions.flatten) := by
  have hheader := header.serialize_length
  have hpos := encode_varint_length_pos (transactions.length + 1)
  simp only [serialize_block, length_append] at hsize
  have hcoinbase : coinbase.serialize.length < 2 ^ 64 := by omega
  have hread := skip_dummy_coinbase_reads hcount hcoinbase transactions.flatten
  have hrun : skip_dummy_coinbase.run (encode_varint (transactions.length + 1) ++
      (coinbase.serialize ++ transactions.flatten)) = .ok (transactions.length, transactions.flatten) := hread
  rw [fill_block_fields, serialize_block, if_neg (by rw [length_append, length_append]; omega),
    take_left' hheader, drop_left' hheader, fill_header_fields_serialize, hrun]
  rfl

/-- What `parse_coinbase_output` reads before it looks whether anything is left. -/
def read_output : Cursor CoinbaseOutput := do
  let value ← Cursor.take 8
  if Radix.value value > kMaxMoney then throw "IPC required coinbase output value is out of range"
  else
    let script_size ← Cursor.compact_size
    let script ← Reader.take "IPC required coinbase output script is truncated" script_size
    return ⟨UInt64.ofNat (Radix.value value), script⟩

theorem parse_coinbase_output_iff {serialized : Bytes} {output : CoinbaseOutput} :
    parse_coinbase_output serialized = .ok output ↔ Reads read_output serialized output [] := by
  unfold parse_coinbase_output
  constructor
  · intro h
    obtain ⟨⟨value, rest⟩, hvalue, h⟩ := Result.bind_eq_ok.mp h
    dsimp only at h
    split at h
    · cases h
    rename_i hmoney
    obtain ⟨⟨script_size, rest'⟩, hscript_size, h⟩ := Result.bind_eq_ok.mp h
    obtain ⟨⟨script, last⟩, hscript, h⟩ := Result.bind_eq_ok.mp h
    dsimp only at h
    split at h
    · cases h
    rename_i hlast
    cases h
    rw [ne_eq, not_not, length_eq_zero_iff] at hlast
    subst hlast
    have hrest : Reads (do
        let script_size ← Cursor.compact_size
        let script ← Reader.take "IPC required coinbase output script is truncated" script_size
        return ⟨UInt64.ofNat (Radix.value value), script⟩ : Cursor CoinbaseOutput) rest
        ⟨UInt64.ofNat (Radix.value value), script⟩ [] :=
      Reads.bind hscript_size (Reads.bind hscript (.pure _ []))
    refine Reads.bind hvalue ?_
    rwa [if_neg hmoney]
  · intro h
    obtain ⟨value, rest, hvalue, h⟩ := reads_bind.mp h
    split at h
    · exact absurd h reads_throw
    rename_i hmoney
    obtain ⟨script_size, rest', hscript_size, h⟩ := reads_bind.mp h
    obtain ⟨script, last, hscript, h⟩ := reads_bind.mp h
    obtain ⟨rfl, rfl⟩ := reads_pure.mp h
    apply Result.bind_eq_ok.mpr
    refine ⟨_, hvalue, ?_⟩
    dsimp only
    rw [if_neg hmoney]
    apply Result.bind_eq_ok.mpr
    refine ⟨_, hscript_size, ?_⟩
    apply Result.bind_eq_ok.mpr
    exact ⟨_, hscript, rfl⟩

theorem read_output_local : Local read_output :=
  (Cursor.take_local 8).bind fun _ => .ite (.throw _) (Cursor.compact_size_local.bind fun _ =>
    (Reader.take_local _ _).bind fun _ => .pure _)

theorem read_output_encodes {output : CoinbaseOutput} (hvalue : output.value.toNat ≤ kMaxMoney)
    (hscript : output.script.length < 2 ^ 64) : Encodes read_output (append_output output) output := by
  have hlength : (le64_bytes output.value).length = 8 := Radix.le_length 8 _
  have hlt := output.value.toNat_lt
  have hnumber : Radix.value (le64_bytes output.value) = output.value.toNat := by
    rw [le64_bytes, Radix.value_le]
    omega
  rw [append_output, append_assoc]
  refine (Cursor.take_encodes hlength).bind ?_
  rw [hnumber, if_neg (by omega), UInt64.ofNat_toNat]
  exact (Cursor.compact_size_encodes hscript).bind ((Reader.take_encodes _ rfl).map _)

end Roundtrip

/-- The bytes of an output are read back, and no others that begin with them or that they begin
with. -/
theorem parse_coinbase_output_exact {output : CoinbaseOutput} (hvalue : output.value.toNat ≤ kMaxMoney)
    (hscript : output.script.length < 2 ^ 64) :
    parse_coinbase_output (append_output output) = .ok output ∧
      (∀ front more, append_output output = front ++ more → more ≠ [] →
        ∃ msg, parse_coinbase_output front = .error msg) ∧
      ∀ more, more ≠ [] → ∃ msg, parse_coinbase_output (append_output output ++ more) = .error msg := by
  have hencodes := read_output_encodes hvalue hscript
  refine ⟨parse_coinbase_output_iff.mpr hencodes.run, ?_, ?_⟩
  · intro front more hsplit hmore
    cases hparsed : parse_coinbase_output front with
    | error msg => exact ⟨msg, rfl⟩
    | ok output' =>
      have hread := (read_output_local.encodes (parse_coinbase_output_iff.mp hparsed)) more
      rw [← hsplit] at hread
      exact absurd (hread.unique hencodes.run).2 hmore
  · intro more hmore
    cases hparsed : parse_coinbase_output (append_output output ++ more) with
    | error msg => exact ⟨msg, rfl⟩
    | ok output' =>
      exact absurd ((hencodes more).unique (parse_coinbase_output_iff.mp hparsed)).2 hmore

/-- A serialized block gives the fields of its header and its transactions; no bytes keep
`skip_transaction` for more turns than there are bytes; and a required output is read from its own
encoding alone. -/
theorem serializations_read_exactly :
    (∀ (header : BlockHeader) (coinbase : RawTransaction) (transactions : List Bytes),
      transactions.length + 1 < 2 ^ 32 → (serialize_block header coinbase transactions).length < 2 ^ 64 →
      fill_block_fields (serialize_block header coinbase transactions) = .ok ({
        version := header.version
        curtime := header.time
        bits := header.bits
        bits_hex := to_hex (Radix.be 4 header.bits.toNat)
        previousblockhash := to_hex_reversed header.previous.val }, transactions.length, transactions.flatten)) ∧
    (∀ input : Bytes, (counted.skip_transaction input).1 = skip_transaction.run input ∧
      skip_transaction_turns input ≤ input.length ∧
      ∀ tx rest, Reads skip_transaction input tx rest →
        (∃ used, input = used ++ rest ∧ skip_transaction_turns input ≤ used.length)) ∧
    ∀ output : CoinbaseOutput, output.value.toNat ≤ kMaxMoney → output.script.length < 2 ^ 64 →
      parse_coinbase_output (append_output output) = .ok output ∧
      (∀ front more, append_output output = front ++ more → more ≠ [] →
        ∃ msg, parse_coinbase_output front = .error msg) ∧
      ∀ more, more ≠ [] → ∃ msg, parse_coinbase_output (append_output output ++ more) = .error msg := by
  refine ⟨?_, ?_, fun output => parse_coinbase_output_exact⟩
  · intro header coinbase transactions hcount hsize
    exact fill_block_fields_serialize hcount hsize
  · intro input
    refine ⟨congrFun counted.erase_skip_transaction input, skip_transaction_paid.always input, ?_⟩
    intro tx rest hread
    have hcounted : Reads counted.skip_transaction.erase input tx rest :=
      counted.erase_skip_transaction ▸ hread
    obtain ⟨⟨used, rfl⟩, -⟩ := skip_transaction_local input tx rest hread
    have hpaid := skip_transaction_paid.success _ tx rest hcounted
    rw [length_append] at hpaid
    refine ⟨used, rfl, ?_⟩
    rw [skip_transaction_turns]
    omega

theorem one_stack (witness : List (List Bytes)) (h : some [[]] = some witness) : witness.length = 1 := by
  cases h
  rfl

/-- A coinbase with an empty witness stack. -/
def empty_coinbase : RawTransaction where
  version := 1
  inputs := [⟨replicate 36 0, [], 0, length_replicate⟩]
  outputs := []
  witness := some [[]]
  lock_time := 0
  some_input := cons_ne_nil _ _
  stack_count := one_stack

theorem serializations_read_exactly_empty :
    fill_block_fields (serialize_block ⟨1, Hash256.filled 0, Hash256.filled 0, 2, 3, 4⟩ empty_coinbase [[0x05]]) =
        .ok (⟨1, 2, 3, "00000003".toList, replicate 64 '0'⟩, 1, [0x05]) ∧
      parse_coinbase_output (append_output ⟨5, [0x6a]⟩) = .ok ⟨5, [0x6a]⟩ := by
  refine ⟨?_, (serializations_read_exactly.2.2 ⟨5, [0x6a]⟩ (by decide) (by decide)).1⟩
  exact serializations_read_exactly.1 _ empty_coinbase [[0x05]] (by decide) (by decide +kernel)

end erikslund.bitcoin
