import SoloPool.Util.Varint

namespace erikslund.bitcoin

open util

def kMaxScriptSig : Nat := 100

def kMaxHeightPush : Nat := 10

structure CoinbaseOutput where
  value : UInt64
  script : Bytes
deriving DecidableEq

def append_output (output : CoinbaseOutput) : Bytes :=
  le64_bytes output.value ++ encode_varint output.script.length ++ output.script

def build_coinbase1 (script_start : Bytes) (extranonce_total : Nat) (tag : Bytes) (version : UInt32) :
    Except String Bytes :=
  let scriptsig_length := script_start.length + extranonce_total + tag.length
  if scriptsig_length > kMaxScriptSig then .error "coinbase scriptSig too long (> 100 bytes)"
  else
    let prevout_null := List.replicate 32 0x00 ++ List.replicate 4 0xff
    .ok (le32_bytes version ++ [0x01] ++ prevout_null ++ encode_varint scriptsig_length ++ script_start)

def build_coinbase2 (outputs required_outputs : List CoinbaseOutput) (tag : Bytes)
    (sequence lock_time : UInt32) : Bytes :=
  tag ++ le32_bytes sequence ++ encode_varint (outputs.length + required_outputs.length) ++
    outputs.flatMap append_output ++ required_outputs.flatMap append_output ++ le32_bytes lock_time

/-- The witness form of a coinbase: marker and flag after the version, and one witness item
before the lock time. -/
def legacy_to_witness (legacy_coinbase witness_item : Bytes) : Except String Bytes :=
  if legacy_coinbase.length < 8 then .error "legacy_to_witness: coinbase too short"
  else if witness_item.length ≠ 32 then .error "legacy_to_witness: witness item must be 32 bytes"
  else
    let version := legacy_coinbase.take 4
    let body := (legacy_coinbase.drop 4).take (legacy_coinbase.length - 8)
    let locktime := legacy_coinbase.drop (legacy_coinbase.length - 4)
    .ok (version ++ [0x00, 0x01] ++ body ++ encode_varint 1 ++ encode_varint witness_item.length ++ witness_item ++
      locktime)

end erikslund.bitcoin
