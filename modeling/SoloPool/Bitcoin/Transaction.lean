import SoloPool.Bitcoin.Coinbase
import SoloPool.Lib.Reader
import SoloPool.Util.Sha256

namespace erikslund.bitcoin

open util Reader List

/-- The bytes not yet read are the state. -/
abbrev Cursor := Reader UInt8 String

namespace Cursor

def peek (lookahead : Nat) : Cursor UInt8 := fun input =>
  match input[lookahead]? with
  | some byte => .ok (byte, input)
  | none => .error "IPC serialization is truncated"

def take (size : Nat) : Cursor Bytes := Reader.take "IPC serialization is truncated" size

def compact_size : Cursor Nat := fun input =>
  match decode_varint input with
  | .error message => .error message
  | .ok (value, consumed) =>
    if consumed = 3 ∧ value < 0xfd ∨ consumed = 5 ∧ value ≤ 0xffff ∨ consumed = 9 ∧ value ≤ 0xffffffff then
      .error "IPC serialization contains a non-canonical CompactSize"
    else .ok (value, input.drop consumed)

def skip_compact_bytes : Cursor Bytes := do
  let size ← compact_size
  Reader.take "IPC serialization contains a truncated byte array" size

end Cursor

/-- The parts `skip_transaction` skips, and the bytes of each. -/
structure Transaction where
  version : Bytes
  inputs : Bytes
  outputs : Bytes
  witness : Option Bytes
  lock_time : Bytes
deriving DecidableEq

namespace Transaction

/-- The serialization with marker, flag and witness removed. -/
def legacy (transaction : Transaction) : Bytes :=
  transaction.version ++ transaction.inputs ++ transaction.outputs ++ transaction.lock_time

def serialize (transaction : Transaction) : Bytes :=
  match transaction.witness with
  | none => transaction.legacy
  | some witness =>
    transaction.version ++ [0x00, 0x01] ++ transaction.inputs ++ transaction.outputs ++ witness ++ transaction.lock_time

def txid (transaction : Transaction) : Hash256 := sha256d transaction.legacy

end Transaction

def skip_input : Cursor Unit := do
  let _ ← Cursor.take 36
  let _ ← Cursor.skip_compact_bytes
  let _ ← Cursor.take 4
  return ()

def skip_inputs : Cursor Nat := do
  let input_count ← Cursor.compact_size
  if input_count = 0 then throw "IPC block transaction has no inputs"
  else
    let _ ← times input_count skip_input
    return input_count

def skip_output : Cursor Unit := do
  let _ ← Cursor.take 8
  let _ ← Cursor.skip_compact_bytes
  return ()

def skip_outputs : Cursor Unit := do
  let output_count ← Cursor.compact_size
  let _ ← times output_count skip_output
  return ()

def skip_stack : Cursor Unit := do
  let item_count ← Cursor.compact_size
  let _ ← times item_count Cursor.skip_compact_bytes
  return ()

/-- The marker and flag, when they are there. -/
def skip_flags : Cursor Bool := do
  let first ← Cursor.peek 0
  if first = 0 then
    let flags ← Cursor.peek 1
    if flags = 0 then return false
    else if flags ≠ 1 then throw "IPC block transaction has unsupported witness flags"
    else
      let _ ← Cursor.take 2
      return true
  else return false

def skip_witness (has_witness : Bool) (input_count : Nat) : Cursor (Option Bytes) :=
  if has_witness then do
    let skipped ← span (times input_count skip_stack)
    return some skipped.2
  else return none

def skip_transaction : Cursor Transaction := do
  let version ← Cursor.take 4
  let has_witness ← skip_flags
  let inputs ← span skip_inputs
  let outputs ← span skip_outputs
  let witness ← skip_witness has_witness inputs.1
  let lock_time ← Cursor.take 4
  return ⟨version, inputs.2, outputs.2, witness, lock_time⟩

/-- A block as a node reads it: its 80-byte header, and its transactions behind their number. -/
def read_block : Cursor (Bytes × List Transaction) := do
  let header ← Cursor.take 80
  let count ← Cursor.compact_size
  let transactions ← times count skip_transaction
  return (header, transactions)

namespace Cursor

theorem peek_reads {lookahead : Nat} {input : Bytes} {byte : UInt8} (h : input[lookahead]? = some byte) :
    Reads (peek lookahead) input byte input := by
  change (match input[lookahead]? with | some byte => _ | none => _) = _
  rw [h]

theorem take_encodes {taken : Bytes} {size : Nat} (hlength : taken.length = size) :
    Encodes (take size) taken taken :=
  Reader.take_encodes _ hlength

theorem compact_size_encodes {value : Nat} (hvalue : value < 2 ^ 64) :
    Encodes compact_size (encode_varint value) value := by
  intro rest
  have hcanonical : ¬ ((encode_varint value).length = 3 ∧ value < 0xfd ∨
      (encode_varint value).length = 5 ∧ value ≤ 0xffff ∨ (encode_varint value).length = 9 ∧ value ≤ 0xffffffff) := by
    unfold encode_varint
    split_ifs <;> simp only [length_cons, length_nil, Radix.le_length] <;> omega
  change (match decode_varint (encode_varint value ++ rest) with
    | .error message => _
    | .ok (value, consumed) => _) = _
  rw [decode_encode_varint hvalue]
  simp only [if_neg hcanonical, drop_left]

theorem skip_compact_bytes_encodes {bytes : Bytes} (hlength : bytes.length < 2 ^ 64) :
    Encodes skip_compact_bytes (encode_varint bytes.length ++ bytes) bytes :=
  (compact_size_encodes hlength).bind (Reader.take_encodes _ rfl)

theorem of_reads_peek {lookahead : Nat} {input rest : Bytes} {byte : UInt8} (h : Reads (peek lookahead) input byte rest) :
    input[lookahead]? = some byte ∧ rest = input := by
  change (match input[lookahead]? with | some byte => _ | none => _) = _ at h
  split at h
  · rename_i byte' hbyte
    cases h
    exact ⟨hbyte, rfl⟩
  · cases h

theorem peek_local (lookahead : Nat) : Local (peek lookahead) := by
  intro input byte rest h
  obtain ⟨hbyte, rfl⟩ := of_reads_peek h
  refine ⟨⟨[], rfl⟩, fun more => peek_reads ?_⟩
  rw [getElem?_append_left (List.getElem?_eq_some_iff.mp hbyte).1, hbyte]

theorem take_local (size : Nat) : Local (take size) := Reader.take_local _ size

theorem of_reads_compact_size {input rest : Bytes} {value : Nat} (h : Reads compact_size input value rest) :
    ∃ consumed, decode_varint input = .ok (value, consumed) ∧ rest = input.drop consumed ∧
      ¬ (consumed = 3 ∧ value < 0xfd ∨ consumed = 5 ∧ value ≤ 0xffff ∨ consumed = 9 ∧ value ≤ 0xffffffff) := by
  change (match decode_varint input with | .error message => _ | .ok (value, consumed) => _) = _ at h
  split at h
  · cases h
  rename_i value' consumed hdecoded
  split at h
  · cases h
  rename_i hcanonical
  cases h
  exact ⟨consumed, hdecoded, rfl, hcanonical⟩

theorem compact_size_local : Local compact_size := by
  intro input value rest h
  obtain ⟨consumed, hdecoded, rfl, hcanonical⟩ := of_reads_compact_size h
  refine ⟨⟨input.take consumed, (take_append_drop consumed input).symm⟩, fun more => ?_⟩
  obtain ⟨hmore, hlength⟩ := decode_varint_append hdecoded more
  change (match decode_varint (input ++ more) with | .error message => _ | .ok (value, consumed) => _) = _
  rw [hmore]
  simp only [if_neg hcanonical, drop_append_of_le_length hlength]

theorem skip_compact_bytes_local : Local skip_compact_bytes :=
  compact_size_local.bind fun _ => Reader.take_local _ _

end Cursor

/-- A transaction is read the same whatever follows it. -/
theorem skip_transaction_local : Local skip_transaction := by
  have hinput : Local skip_input :=
    (Cursor.take_local _).bind fun _ => Cursor.skip_compact_bytes_local.bind fun _ =>
      (Cursor.take_local _).bind fun _ => .pure _
  have hinputs : Local skip_inputs :=
    Cursor.compact_size_local.bind fun count => .ite (.throw _) ((hinput.times count).bind fun _ => .pure _)
  have houtput : Local skip_output :=
    (Cursor.take_local _).bind fun _ => Cursor.skip_compact_bytes_local.bind fun _ => .pure _
  have houtputs : Local skip_outputs :=
    Cursor.compact_size_local.bind fun count => (houtput.times count).bind fun _ => .pure _
  have hstack : Local skip_stack :=
    Cursor.compact_size_local.bind fun count => (Cursor.skip_compact_bytes_local.times count).bind fun _ => .pure _
  have hflags : Local skip_flags :=
    (Cursor.peek_local 0).bind fun _ => .ite
      ((Cursor.peek_local 1).bind fun _ => .ite (.pure _) (.ite (.throw _)
        ((Cursor.take_local 2).bind fun _ => .pure _)))
      (.pure _)
  have hwitness (has_witness : Bool) (count : Nat) : Local (skip_witness has_witness count) :=
    .ite ((hstack.times count).span.bind fun _ => .pure _) (.pure _)
  exact (Cursor.take_local 4).bind fun _ => hflags.bind fun _ => hinputs.span.bind fun _ =>
    houtputs.span.bind fun _ => (hwitness _ _).bind fun _ => (Cursor.take_local 4).bind fun _ => .pure _

theorem skip_flags_legacy {first : UInt8} (hfirst : first ≠ 0) (rest : Bytes) :
    Reads skip_flags (first :: rest) false (first :: rest) := by
  have hpeek : Reads (Cursor.peek 0) (first :: rest) first (first :: rest) := Cursor.peek_reads rfl
  refine hpeek.bind ?_
  rw [if_neg hfirst]
  exact .pure false _

theorem skip_flags_witness : Encodes skip_flags [0x00, 0x01] true := by
  intro rest
  have hmarker : Reads (Cursor.peek 0) (0x00 :: 0x01 :: rest) 0x00 (0x00 :: 0x01 :: rest) := Cursor.peek_reads rfl
  have hflag : Reads (Cursor.peek 1) (0x00 :: 0x01 :: rest) 0x01 (0x00 :: 0x01 :: rest) := Cursor.peek_reads rfl
  have htaken : ([0x00, 0x01] : Bytes).length = 2 := rfl
  exact hmarker.bind (hflag.bind ((Cursor.take_encodes htaken rest).bind (.pure true rest)))

/-- A transaction is read back in its parts when each part is. -/
theorem skip_transaction_encodes {tx : Transaction} {input_count : Nat}
    (hversion : tx.version.length = 4) (hfirst : ∃ first more, tx.inputs = first :: more ∧ first ≠ 0)
    (hinputs : Encodes skip_inputs tx.inputs input_count)
    (houtputs : Encodes skip_outputs tx.outputs ())
    (hwitness : ∀ witness, tx.witness = some witness →
      Encodes (skip_witness true input_count) witness (some witness))
    (hlock_time : tx.lock_time.length = 4) :
    Encodes skip_transaction tx.serialize tx := by
  obtain ⟨version, inputs, outputs, witness, lock_time⟩ := tx
  have htaken := Cursor.take_encodes hversion
  have hlast := Cursor.take_encodes hlock_time
  intro rest
  cases witness with
  | none =>
    simp only [Transaction.serialize, Transaction.legacy, append_assoc]
    have hflags (rest : Bytes) : Reads skip_flags (inputs ++ rest) false (inputs ++ rest) := by
      obtain ⟨first, more, hcons, hne⟩ := hfirst
      obtain rfl : inputs = first :: more := hcons
      exact skip_flags_legacy hne _
    have hnone (rest : Bytes) : Reads (skip_witness false input_count) rest none rest := .pure none rest
    exact (htaken _).bind ((hflags _).bind ((hinputs.span _).bind ((houtputs.span _).bind
      ((hnone _).bind ((hlast rest).bind (.pure _ rest))))))
  | some witness =>
    simp only [Transaction.serialize, append_assoc]
    exact (htaken _).bind ((skip_flags_witness _).bind ((hinputs.span _).bind ((houtputs.span _).bind
      ((hwitness witness rfl _).bind ((hlast rest).bind (.pure _ rest))))))

/-- A coinbase with its script filled in, in the parts it is read in. -/
def coinbase_transaction (version : UInt32) (script_sig : Bytes) (sequence : UInt32) (outputs : List CoinbaseOutput)
    (lock_time : UInt32) (witness_item : Option Bytes) : Transaction where
  version := le32_bytes version
  inputs := encode_varint 1 ++ ((replicate 32 0x00 ++ replicate 4 0xff) ++
    ((encode_varint script_sig.length ++ script_sig) ++ le32_bytes sequence))
  outputs := encode_varint outputs.length ++ (outputs.map append_output).flatten
  witness := witness_item.map fun item => encode_varint 1 ++ (encode_varint item.length ++ item)
  lock_time := le32_bytes lock_time

section Coinbase

variable {version sequence lock_time : UInt32} {script_sig : Bytes} {outputs : List CoinbaseOutput}
  {witness_item : Option Bytes}

theorem coinbase_inputs_encodes (hscript : script_sig.length < 2 ^ 64) :
    Encodes skip_inputs (coinbase_transaction version script_sig sequence outputs lock_time witness_item).inputs 1 := by
  have hprevout : (replicate 32 0x00 ++ replicate 4 0xff : Bytes).length = 36 := by simp
  have hinput : Encodes skip_input ((replicate 32 0x00 ++ replicate 4 0xff) ++
      ((encode_varint script_sig.length ++ script_sig) ++ le32_bytes sequence)) () :=
    (Cursor.take_encodes hprevout).bind ((Cursor.skip_compact_bytes_encodes hscript).bind
      ((Cursor.take_encodes (le32_bytes_length sequence)).map _))
  exact (Cursor.compact_size_encodes (by decide)).bind ((once_encodes hinput).map _)

theorem append_output_encodes {output : CoinbaseOutput} (hscript : output.script.length < 2 ^ 64) :
    Encodes skip_output (append_output output) () := by
  have hvalue : (le64_bytes output.value).length = 8 := Radix.le_length 8 _
  rw [append_output, append_assoc]
  exact (Cursor.take_encodes hvalue).bind ((Cursor.skip_compact_bytes_encodes hscript).map _)

theorem outputs_encodes (hcount : outputs.length < 2 ^ 64)
    (hscripts : ∀ output ∈ outputs, output.script.length < 2 ^ 64) :
    Encodes skip_outputs (encode_varint outputs.length ++ (outputs.map append_output).flatten) () := by
  have heach : ∀ output ∈ outputs, Encodes skip_output (append_output output) () :=
    fun output hmem => append_output_encodes (hscripts output hmem)
  exact (Cursor.compact_size_encodes hcount).bind ((times_map_encodes heach).map _)

theorem coinbase_witness_encodes {item : Bytes} (hitem : item.length < 2 ^ 64) :
    Encodes (skip_witness true 1) (encode_varint 1 ++ (encode_varint item.length ++ item))
      (some (encode_varint 1 ++ (encode_varint item.length ++ item))) := by
  have hstack : Encodes skip_stack (encode_varint 1 ++ (encode_varint item.length ++ item)) () :=
    (Cursor.compact_size_encodes (by decide)).bind ((once_encodes (Cursor.skip_compact_bytes_encodes hitem)).map _)
  exact (once_encodes hstack).span.map _

/-- The serialization of a coinbase, with or without a witness, is read back in its parts. -/
theorem coinbase_transaction_encodes (hscript : script_sig.length < 2 ^ 64) (hcount : outputs.length < 2 ^ 64)
    (hscripts : ∀ output ∈ outputs, output.script.length < 2 ^ 64)
    (hwitness : ∀ item, witness_item = some item → item.length < 2 ^ 64) :
    Encodes skip_transaction
      (coinbase_transaction version script_sig sequence outputs lock_time witness_item).serialize
      (coinbase_transaction version script_sig sequence outputs lock_time witness_item) := by
  refine skip_transaction_encodes (le32_bytes_length version) ⟨0x01, _, rfl, by decide⟩
    (coinbase_inputs_encodes hscript) (outputs_encodes hcount hscripts) ?_ (le32_bytes_length lock_time)
  intro witness hsome
  obtain ⟨item, hitem, rfl⟩ := Option.map_eq_some_iff.mp hsome
  exact coinbase_witness_encodes (hwitness item hitem)

/-- `legacy_to_witness` puts the witness item into a transaction. -/
theorem legacy_to_witness_eq {tx : Transaction} {item : Bytes} (hversion : tx.version.length = 4)
    (hlock_time : tx.lock_time.length = 4) (hitem : item.length = 32)
    (hwitness : tx.witness = some (encode_varint 1 ++ (encode_varint item.length ++ item))) :
    legacy_to_witness tx.legacy item = .ok tx.serialize := by
  have hsplit : tx.legacy =
      tx.version ++ ((tx.inputs ++ tx.outputs) ++ tx.lock_time) := by
    simp only [Transaction.legacy, append_assoc]
  have hlength : tx.legacy.length = 4 + ((tx.inputs ++ tx.outputs).length + 4) := by
    rw [hsplit, length_append, length_append, hversion, hlock_time]
  have hshort : ¬ tx.legacy.length < 8 := by omega
  have hbody : tx.legacy.length - 8 = (tx.inputs ++ tx.outputs).length := by omega
  have hlast : tx.legacy.length - 4 =
      (tx.version ++ tx.inputs ++ tx.outputs).length := by
    rw [append_assoc, length_append, hversion]
    omega
  have hfour : tx.legacy.take 4 = tx.version := by
    rw [hsplit, take_left' hversion]
  have hmiddle : (tx.legacy.drop 4).take (tx.legacy.length - 8) =
      tx.inputs ++ tx.outputs := by
    rw [hbody, hsplit, drop_left' hversion, take_left]
  have hend : tx.legacy.drop (tx.legacy.length - 4) = tx.lock_time := by
    rw [hlast]
    exact drop_left
  simp only [legacy_to_witness, if_neg hshort, hitem, ne_eq, not_true_eq_false, if_false, hfour, hmiddle, hend,
    Transaction.serialize, hwitness, append_assoc]

end Coinbase

/-- The two halves of a coinbase around an extranonce of the size they were built for. -/
theorem coinbase_halves {script_start extranonce tag coinbase1 : Bytes} {extranonce_total : Nat}
    {version : UInt32} (sequence lock_time : UInt32) (outputs required_outputs : List CoinbaseOutput)
    (witness_item : Option Bytes)
    (hcoinbase1 : build_coinbase1 script_start extranonce_total tag version = .ok coinbase1)
    (hextranonce : extranonce.length = extranonce_total) :
    coinbase1 ++ extranonce ++ build_coinbase2 outputs required_outputs tag sequence lock_time =
      (coinbase_transaction version (script_start ++ extranonce ++ tag) sequence (outputs ++ required_outputs)
        lock_time witness_item).legacy ∧ List.length (script_start ++ extranonce ++ tag) ≤ kMaxScriptSig := by
  simp only [build_coinbase1] at hcoinbase1
  split at hcoinbase1
  · cases hcoinbase1
  rename_i hlength
  cases hcoinbase1
  have hone : encode_varint 1 = [0x01] := rfl
  simp only [length_append, hextranonce]
  refine ⟨?_, Nat.le_of_not_lt hlength⟩
  simp only [build_coinbase2, Transaction.legacy, coinbase_transaction, hone, length_append, hextranonce,
    map_append, flatten_append, flatMap_def, append_assoc, Nat.add_assoc]

end erikslund.bitcoin
