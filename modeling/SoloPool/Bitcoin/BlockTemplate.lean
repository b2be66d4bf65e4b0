import SoloPool.Bitcoin.Coinbase
import SoloPool.Util.Hex

namespace erikslund.bitcoin

/-- A mineable template, whichever work source produced it. -/
structure BlockTemplate where
  height : Int
  version : UInt32
  curtime : UInt32
  bits : UInt32
  bits_hex : Text
  coinbase_value : UInt64
  previousblockhash : Text
  coinbase_script_sig_prefix : Bytes
  coinbase_version : Option UInt32 := none
  coinbase_sequence : UInt32 := 0xffffffff
  coinbase_lock_time : UInt32 := 0
  coinbase_witness : Option Bytes := none
  coinbase_required_outputs : List CoinbaseOutput := []
  txn_count : UInt32 := 0
  txn_data : Bytes := []
  merkle_branch_internal : List util.Hash256 := []
deriving DecidableEq

/-- The text of `bits` is the one its value was parsed from. -/
def BlockTemplate.Valid (block_template : BlockTemplate) : Prop :=
  util.parse_hex_u32 block_template.bits_hex = .ok block_template.bits

theorem BlockTemplate.Valid.parsed {block_template : BlockTemplate} (h : block_template.Valid) :
    util.try_parse_hex_u32 block_template.bits_hex = some block_template.bits := by
  unfold BlockTemplate.Valid util.parse_hex_u32 at h
  split at h
  · rename_i bits hbits
    rw [hbits, Except.ok.inj h]
  · cases h

/-- A coinbase witness comes only together with a required output. -/
def BlockTemplate.Paired (block_template : BlockTemplate) : Prop :=
  block_template.coinbase_witness.isSome = true → block_template.coinbase_required_outputs ≠ []

/-- The little-endian magnitude loop of `serialize_height`; `fuel` bounds the
eight bytes of an `int64_t`. -/
def height_magnitude : Nat → Nat → Bytes
  | 0, _ => []
  | fuel + 1, n => if n = 0 then [] else UInt8.ofNat n :: height_magnitude fuel (n / 256)

/-- BIP34 block-height script encoding. -/
def serialize_height (height : Int) : Except String Bytes :=
  if height < 0 then .error "serialize_height: negative block height"
  else if height = 0 then .ok [0x00]
  else if height ≤ 16 then .ok [UInt8.ofNat (0x50 + height.toNat)]
  else
    let magnitude := height_magnitude 8 height.toNat
    let padded := if magnitude.getLastD 0 &&& 0x80 ≠ 0 then magnitude ++ [0x00] else magnitude
    .ok (UInt8.ofNat padded.length :: padded)

end erikslund.bitcoin
