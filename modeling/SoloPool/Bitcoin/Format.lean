import SoloPool.Bitcoin.Transaction

/-! The format of transactions, with and without witness data, given by a reader of it. -/

namespace erikslund.bitcoin

open util Reader List

structure TxInput where
  prevout_hash : Bytes
  prevout_index : UInt32
  script_sig : Bytes
  sequence : UInt32
deriving DecidableEq

/-- A transaction but for its witness data. -/
structure Tx where
  version : UInt32
  inputs : List TxInput
  outputs : List CoinbaseOutput
  lock_time : UInt32
deriving DecidableEq

namespace Tx

def read_u32 : Cursor UInt32 := do
  let bytes ← Cursor.take 4
  return UInt32.ofNat (Radix.value bytes)

def read_u64 : Cursor UInt64 := do
  let bytes ← Cursor.take 8
  return UInt64.ofNat (Radix.value bytes)

open Cursor

def read_input : Cursor TxInput := do
  let prevout_hash ← Cursor.take 32
  let prevout_index ← read_u32
  let script_sig ← skip_compact_bytes
  let sequence ← read_u32
  return ⟨prevout_hash, prevout_index, script_sig, sequence⟩

def read_output : Cursor CoinbaseOutput := do
  let value ← read_u64
  let script ← skip_compact_bytes
  return ⟨value, script⟩

/-- As many items as a CompactSize in front of them says. -/
def read_vector {α : Type} (read_item : Cursor α) : Cursor (List α) := do
  let count ← compact_size
  times count read_item

def read_legacy : Cursor Tx := do
  let version ← read_u32
  let inputs ← read_vector read_input
  let outputs ← read_vector read_output
  let lock_time ← read_u32
  return ⟨version, inputs, outputs, lock_time⟩

/-- Marker and flag behind the version, and a stack of witness items for each input in front of
the lock time. -/
def read_segwit : Cursor (Tx × List (List Bytes)) := do
  let version ← read_u32
  let marker ← Cursor.take 2
  if marker ≠ [0x00, 0x01] then throw "no witness data"
  else
    let inputs ← read_vector read_input
    let outputs ← read_vector read_output
    let witness ← times inputs.length (read_vector skip_compact_bytes)
    let lock_time ← read_u32
    return (⟨version, inputs, outputs, lock_time⟩, witness)

theorem read_u32_encodes (value : UInt32) : Encodes read_u32 (le32_bytes value) value := by
  have hvalue : UInt32.ofNat (Radix.value (le32_bytes value)) = value := by
    exact (congrArg UInt32.ofNat ((Radix.value_le 4 _).trans (Nat.mod_eq_of_lt value.toNat_lt))).trans UInt32.ofNat_toNat
  have hread := (Cursor.take_encodes (le32_bytes_length value)).map fun bytes => UInt32.ofNat (Radix.value bytes)
  rwa [hvalue] at hread

theorem read_u64_encodes (value : UInt64) : Encodes read_u64 (le64_bytes value) value := by
  have hvalue : UInt64.ofNat (Radix.value (le64_bytes value)) = value := by
    exact (congrArg UInt64.ofNat ((Radix.value_le 8 _).trans (Nat.mod_eq_of_lt value.toNat_lt))).trans UInt64.ofNat_toNat
  have hlength : (le64_bytes value).length = 8 := Radix.le_length 8 _
  have hread := (Cursor.take_encodes hlength).map fun bytes => UInt64.ofNat (Radix.value bytes)
  rwa [hvalue] at hread

theorem read_vector_encodes {α : Type} {read_item : Cursor α} {pieces : List Bytes} {items : List α}
    (hitems : Forall₂ (Encodes read_item) pieces items) (hcount : items.length < 2 ^ 64) :
    Encodes (read_vector read_item) (encode_varint items.length ++ pieces.flatten) items :=
  (compact_size_encodes hcount).bind (times_encodes hitems)

theorem read_output_encodes {output : CoinbaseOutput} (hscript : output.script.length < 2 ^ 64) :
    Encodes read_output (append_output output) output := by
  rw [append_output, append_assoc]
  exact (read_u64_encodes output.value).bind ((skip_compact_bytes_encodes hscript).map _)

end Tx

/-- The input that spends nothing. -/
def coinbase_input (script_sig : Bytes) (sequence : UInt32) : TxInput :=
  ⟨replicate 32 0x00, 0xffffffff, script_sig, sequence⟩

section Coinbase

variable {version sequence lock_time : UInt32} {script_sig : Bytes} {outputs : List CoinbaseOutput}
  {witness_item : Option Bytes}

open Tx

theorem coinbase_inputs_read (hscript : script_sig.length < 2 ^ 64) :
    Encodes (read_vector read_input)
      (coinbase_transaction version script_sig sequence outputs lock_time witness_item).inputs
      [coinbase_input script_sig sequence] := by
  have hhash : (replicate 32 0x00 : Bytes).length = 32 := length_replicate
  have hindex : Encodes read_u32 (replicate 4 0xff) 0xffffffff := read_u32_encodes 0xffffffff
  have hinput : Encodes read_input ((replicate 32 0x00 ++ replicate 4 0xff) ++
      ((encode_varint script_sig.length ++ script_sig) ++ le32_bytes sequence)) (coinbase_input script_sig sequence) := by
    rw [append_assoc]
    exact (Cursor.take_encodes hhash).bind (hindex.bind ((Cursor.skip_compact_bytes_encodes hscript).bind
      ((read_u32_encodes sequence).map _)))
  have hone := read_vector_encodes (.cons hinput .nil) (Nat.one_lt_two_pow (by decide))
  rwa [flatten_cons, flatten_nil, append_nil] at hone

theorem coinbase_outputs_read (hcount : outputs.length < 2 ^ 64)
    (hscripts : ∀ output ∈ outputs, output.script.length < 2 ^ 64) :
    Encodes (read_vector read_output)
      (coinbase_transaction version script_sig sequence outputs lock_time witness_item).outputs outputs := by
  refine read_vector_encodes ?_ hcount
  rw [forall₂_map_left_iff, forall₂_same]
  exact fun output hmem => read_output_encodes (hscripts output hmem)

/-- The legacy form of a coinbase is the format of a transaction. -/
theorem coinbase_legacy_read (hscript : script_sig.length < 2 ^ 64) (hcount : outputs.length < 2 ^ 64)
    (hscripts : ∀ output ∈ outputs, output.script.length < 2 ^ 64) :
    Encodes read_legacy (coinbase_transaction version script_sig sequence outputs lock_time witness_item).legacy
      ⟨version, [coinbase_input script_sig sequence], outputs, lock_time⟩ := by
  simp only [Transaction.legacy, append_assoc]
  exact (read_u32_encodes version).bind ((coinbase_inputs_read hscript).bind
    ((coinbase_outputs_read hcount hscripts).bind ((read_u32_encodes lock_time).map _)))

/-- Its serialization with a witness item is that of the same transaction with the item. -/
theorem coinbase_segwit_read {item : Bytes} (hscript : script_sig.length < 2 ^ 64) (hcount : outputs.length < 2 ^ 64)
    (hscripts : ∀ output ∈ outputs, output.script.length < 2 ^ 64) (hitem : item.length < 2 ^ 64) :
    Encodes read_segwit
      (coinbase_transaction version script_sig sequence outputs lock_time (some item)).serialize
      (⟨version, [coinbase_input script_sig sequence], outputs, lock_time⟩, [[item]]) := by
  have hmarker : Encodes (Cursor.take 2) [0x00, 0x01] [0x00, 0x01] := Cursor.take_encodes rfl
  have hstack : Encodes (read_vector Cursor.skip_compact_bytes)
      (encode_varint 1 ++ (encode_varint item.length ++ item)) [item] := by
    have hone := read_vector_encodes (.cons (Cursor.skip_compact_bytes_encodes hitem) .nil)
      (Nat.one_lt_two_pow (by decide))
    rwa [flatten_cons, flatten_nil, append_nil] at hone
  have hserialize : (coinbase_transaction version script_sig sequence outputs lock_time (some item)).serialize =
      le32_bytes version ++ ([0x00, 0x01] ++
        ((coinbase_transaction version script_sig sequence outputs lock_time (some item)).inputs ++
          ((coinbase_transaction version script_sig sequence outputs lock_time (some item)).outputs ++
            ((encode_varint 1 ++ (encode_varint item.length ++ item)) ++ le32_bytes lock_time)))) := by
    simp only [Transaction.serialize, coinbase_transaction, Option.map_some, append_assoc]
  rw [hserialize]
  refine (read_u32_encodes version).bind (hmarker.bind ?_)
  rw [if_neg (not_not.mpr rfl)]
  exact (coinbase_inputs_read hscript).bind ((coinbase_outputs_read hcount hscripts).bind
    ((once_encodes hstack).bind ((read_u32_encodes lock_time).map _)))

end Coinbase

/-- The outputs that a pool pays: the miner's, and the donation taken out of it. -/
def coinbase_outputs (coinbase_value : UInt64) (payout_script : Bytes) :
    Option CoinbaseOutput → List CoinbaseOutput
  | none => [⟨coinbase_value, payout_script⟩]
  | some donation => [⟨coinbase_value - donation.value, payout_script⟩, donation]

theorem coinbase_outputs_value {coinbase_value : UInt64} {donation : Option CoinbaseOutput} (payout_script : Bytes)
    (hdonation : ∀ output ∈ donation, output.value ≤ coinbase_value) :
    ((coinbase_outputs coinbase_value payout_script donation).map fun output => output.value.toNat).sum =
      coinbase_value.toNat := by
  cases donation with
  | none => simp [coinbase_outputs]
  | some output =>
    have hle := hdonation output rfl
    simp only [coinbase_outputs, map_cons, map_nil, sum_cons, sum_nil, Nat.add_zero,
      UInt64.toNat_sub_of_le _ _ hle]
    rw [UInt64.le_iff_toNat_le] at hle
    omega

end erikslund.bitcoin
