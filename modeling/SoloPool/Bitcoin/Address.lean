import SoloPool.Util.Base58
import SoloPool.Util.SegwitAddress

namespace erikslund.bitcoin

open List

inductive Network
  | Mainnet
  | Testnet
  | Regtest
  | Signet
deriving DecidableEq

inductive AddressError
  | UnrecognizedOrWrongNetwork
deriving DecidableEq

structure Base58Versions where
  p2pkh : UInt8
  p2sh : UInt8

def base58_versions (network : Network) : Base58Versions :=
  if network = .Mainnet then ⟨0x00, 0x05⟩ else ⟨0x6f, 0xc4⟩

def bech32_hrp : Network → Text
  | .Mainnet => "bc".toList
  | .Regtest => "bcrt".toList
  | .Testnet => "tb".toList
  | .Signet => "tb".toList

def p2pkh_script (hash160 : Bytes) : Bytes := [0x76, 0xa9, 0x14] ++ hash160 ++ [0x88] ++ [0xac]

def p2sh_script (hash160 : Bytes) : Bytes := [0xa9, 0x14] ++ hash160 ++ [0x87]

def witness_script (version : Int) (program : Bytes) : Bytes :=
  [if version = 0 then 0x00 else UInt8.ofInt (0x50 + version)] ++ [UInt8.ofNat program.length] ++ program

section Decoding

variable (sha256d : Bytes → util.Hash256)

def address_to_script (address : Text) (network : Network) : Except AddressError Bytes :=
  match util.segwit_address_decode (bech32_hrp network) address with
  | some witness => .ok (witness_script witness.version witness.program)
  | none =>
    match util.try_base58check_decode sha256d address with
    | none => .error .UnrecognizedOrWrongNetwork
    | some payload =>
      if payload.length = 21 then
        let version := payload.headD 0
        let hash160 := payload.tail
        if version = (base58_versions network).p2pkh then .ok (p2pkh_script hash160)
        else if version = (base58_versions network).p2sh then .ok (p2sh_script hash160)
        else .error .UnrecognizedOrWrongNetwork
      else .error .UnrecognizedOrWrongNetwork

end Decoding

/-- What an output script of a standard form pays to. -/
inductive Destination
  | keyhash (hash160 : Bytes) (hlength : hash160.length = 20)
  | scripthash (hash160 : Bytes) (hlength : hash160.length = 20)
  | witness (program : util.WitnessProgram) (hvalid : program.Valid)

namespace Destination

/-- The output script: the byte of a version after the first is that of the opcode that pushes it. -/
def script : Destination → Bytes
  | keyhash hash160 _ => [0x76, 0xa9, 0x14] ++ hash160 ++ [0x88, 0xac]
  | scripthash hash160 _ => [0xa9, 0x14] ++ hash160 ++ [0x87]
  | witness program _ =>
    UInt8.ofNat (if program.version = 0 then 0x00 else 0x50 + program.version.toNat) ::
      UInt8.ofNat program.program.length :: program.program

variable (sha256d : Bytes → util.Hash256)

/-- The canonical address on a network. -/
def Address (network : Network) : Destination → Text → Prop
  | keyhash hash160 _, text =>
    text = util.base58check_encode sha256d ((base58_versions network).p2pkh :: hash160)
  | scripthash hash160 _, text =>
    text = util.base58check_encode sha256d ((base58_versions network).p2sh :: hash160)
  | witness program _, text =>
    util.segwit_address_encode (bech32_hrp network) program.version program.program = .ok text

/-- Witness programs alone may be written in upper case. -/
def IsWitness : Destination → Prop
  | witness _ _ => True
  | _ => False

/-- The text is read as the destination by the decoder for its form. -/
def Read (network : Network) : Destination → Text → Prop
  | keyhash hash160 _, text =>
    util.try_base58check_decode sha256d text = some ((base58_versions network).p2pkh :: hash160)
  | scripthash hash160 _, text =>
    util.try_base58check_decode sha256d text = some ((base58_versions network).p2sh :: hash160)
  | witness program _, text => util.segwit_address_decode (bech32_hrp network) text = some program

end Destination

section Leading

/-- The characters that a base58 address of any network begins with. -/
def kLeading : List Char := ['1', '2', '3', 'm', 'n']

open Positional

/-- The version byte decides how the text begins, whatever the 24 bytes after it. -/
theorem base58_encode_leading {version : UInt8} {data : Bytes} (hdata : data.length = 24) {low high count : Nat}
    (hversion : version ≠ 0) (hlow : 0 < low) (hhigh : high ≤ 58)
    (hle : low * 58 ^ count ≤ version.toNat * 256 ^ 24)
    (hlt : (version.toNat + 1) * 256 ^ 24 ≤ high * 58 ^ count) :
    ∃ digit rest, util.base58_encode (version :: data) = util.base58.alphabet_char (UInt8.ofNat digit) :: rest ∧
      low ≤ digit ∧ digit < high := by
  have hnumber : number 256 (version.toNat :: data.map UInt8.toNat) =
      version.toNat * 256 ^ (data.map UInt8.toNat).length + number 256 (data.map UInt8.toNat) :=
    number_cons _ _
  have hrest := number_lt (by decide) (util.bytes_fit data)
  rw [length_map, hdata] at hnumber hrest
  have habove : low * 58 ^ count ≤ number 256 (version.toNat :: data.map UInt8.toNat) := by omega
  have hbelow : number 256 (version.toNat :: data.map UInt8.toNat) < high * 58 ^ count := by omega
  obtain ⟨digit, rest, hdigits, hbounds⟩ := head_digits (by decide) hlow hhigh habove hbelow
  refine ⟨digit, rest.map (fun digit => util.base58.alphabet_char (UInt8.ofNat digit)), ?_, hbounds⟩
  have hzeros : (version.toNat :: data.map UInt8.toNat).takeWhile (· == 0) = [] := by
    apply takeWhile_cons_of_neg
    rw [beq_iff_eq]
    exact fun hzero => hversion (UInt8.toNat_inj.mp hzero)
  rw [util.base58_encode_eq, map_cons, convert, hzeros, hdigits]
  rfl

/-- An address of a known version does not begin as one of a witness program does. -/
theorem base58_encode_kLeading {version : UInt8} {data : Bytes} (hdata : data.length = 24)
    (hversion : version ∈ [0x00, 0x05, 0x6f, 0xc4]) :
    ∃ character rest, util.base58_encode (version :: data) = character :: rest ∧ character ∈ kLeading := by
  simp only [mem_cons, not_mem_nil, or_false] at hversion
  obtain rfl | rfl | rfl | rfl := hversion
  · exact ⟨'1', _, rfl, by decide⟩
  · obtain ⟨digit, rest, htext, hlow, hhigh⟩ := base58_encode_leading hdata
      (by decide : (0x05 : UInt8) ≠ 0) (by decide : 0 < 2) (by decide : 3 ≤ 58)
      (by decide : 2 * 58 ^ 33 ≤ _) (by decide : _ ≤ 3 * 58 ^ 33)
    obtain rfl : digit = 2 := by omega
    exact ⟨'3', rest, htext, by decide⟩
  · obtain ⟨digit, rest, htext, hlow, hhigh⟩ := base58_encode_leading hdata
      (by decide : (0x6f : UInt8) ≠ 0) (by decide : 0 < 44) (by decide : 46 ≤ 58)
      (by decide : 44 * 58 ^ 33 ≤ _) (by decide : _ ≤ 46 * 58 ^ 33)
    obtain rfl | rfl : digit = 44 ∨ digit = 45 := by omega
    · exact ⟨'m', rest, htext, by decide⟩
    · exact ⟨'n', rest, htext, by decide⟩
  · obtain ⟨digit, rest, htext, hlow, hhigh⟩ := base58_encode_leading hdata
      (by decide : (0xc4 : UInt8) ≠ 0) (by decide : 0 < 1) (by decide : 2 ≤ 58)
      (by decide : 1 * 58 ^ 34 ≤ _) (by decide : _ ≤ 2 * 58 ^ 34)
    obtain rfl : digit = 1 := by omega
    exact ⟨'2', rest, htext, by decide⟩

end Leading

section Canonical

variable {sha256d : Bytes → util.Hash256} {network network' : Network}

theorem bech32_hrp_cons (network : Network) :
    ∃ first rest, bech32_hrp network = first :: rest ∧ first ∈ ['b', 't'] ∧ util.LowerPrintable (bech32_hrp network) ∧
      (bech32_hrp network).length ≤ 4 := by
  cases network with
  | Mainnet => exact ⟨'b', ['c'], rfl, by decide, by decide, by decide⟩
  | Regtest => exact ⟨'b', ['c', 'r', 't'], rfl, by decide, by decide, by decide⟩
  | Testnet => exact ⟨'t', ['b'], rfl, by decide, by decide, by decide⟩
  | Signet => exact ⟨'t', ['b'], rfl, by decide, by decide, by decide⟩

/-- The two decoders accept no text in common. -/
theorem segwit_address_decode_base58 {version : UInt8} (hversion : version ∈ [0x00, 0x05, 0x6f, 0xc4])
    {hash160 : Bytes} (hlength : hash160.length = 20) {text : Text}
    (h : util.try_base58check_decode sha256d text = some (version :: hash160)) (network : Network) :
    util.segwit_address_decode (bech32_hrp network) text = none := by
  have htext := util.base58_encode_decode (util.try_base58check_decode_iff.mp h)
  have hdata : (hash160 ++ (sha256d (version :: hash160)).val.take 4).length = 24 := by
    rw [length_append, length_take, (sha256d (version :: hash160)).property, hlength]
    rfl
  obtain ⟨character, rest, hfirst, hleading⟩ := base58_encode_kLeading hdata hversion
  rw [cons_append, hfirst] at htext
  rw [Option.eq_none_iff_forall_ne_some]
  intro witness hwitness
  obtain ⟨-, groups, hread, -⟩ := util.segwit_address_decode_iff.mp hwitness
  obtain ⟨-, -, -, -, hlowered⟩ := util.bech32_decode_spelled.mp hread
  obtain ⟨first, hrp, hhrp, hmem, -⟩ := bech32_hrp_cons network
  rw [← htext, map_cons, util.Bech32Decoded.spelled, hhrp, cons_append, List.cons.injEq] at hlowered
  have hall : (kLeading.all fun leading => ¬ leading.toLower ∈ ['b', 't']) = true := by decide
  apply of_decide_eq_true (all_eq_true.mp hall character hleading)
  rw [hlowered.1]
  exact hmem

theorem base58_versions_mem (network : Network) :
    (base58_versions network).p2pkh ∈ [0x00, 0x05, 0x6f, 0xc4] ∧
      (base58_versions network).p2sh ∈ [0x00, 0x05, 0x6f, 0xc4] ∧
      (base58_versions network).p2sh ≠ (base58_versions network).p2pkh := by
  cases network <;> decide

namespace Destination

variable {destination : Destination} {text : Text} {program : util.WitnessProgram}

/-- A text that is read as a destination is decoded to its script. -/
theorem address_to_script_of_read (h : destination.Read sha256d network text) :
    address_to_script sha256d text network = .ok destination.script := by
  obtain ⟨hp2pkh, hp2sh, hne⟩ := base58_versions_mem network
  cases destination with
  | keyhash hash160 hlength =>
    rw [address_to_script, segwit_address_decode_base58 hp2pkh hlength h, h]
    dsimp only
    rw [if_pos (by rw [length_cons, hlength]), headD_cons, if_pos rfl, tail_cons, p2pkh_script,
      script, append_assoc _ [0x88]]
    rfl
  | scripthash hash160 hlength =>
    rw [address_to_script, segwit_address_decode_base58 hp2sh hlength h, h]
    dsimp only
    rw [if_pos (by rw [length_cons, hlength]), headD_cons, if_neg hne, if_pos rfl, tail_cons]
    rfl
  | witness program hvalid =>
    have hversion := hvalid.version
    have hopcode : UInt8.ofInt (0x50 + program.version) = UInt8.ofNat (0x50 + program.version.toNat) := by
      change UInt8.ofNat _ = _
      congr 1
      omega
    rw [address_to_script, h]
    dsimp only
    rw [witness_script, script, hopcode, apply_ite UInt8.ofNat]
    rfl

/-- Whatever is decoded was read as a destination, whose script it is. -/
theorem read_of_address_to_script {decoded : Bytes}
    (h : address_to_script sha256d text network = .ok decoded) :
    ∃ destination : Destination, destination.Read sha256d network text ∧ destination.script = decoded := by
  have hread (destination : Destination) (hread : destination.Read sha256d network text) :
      ∃ destination : Destination, destination.Read sha256d network text ∧ destination.script = decoded := by
    rw [address_to_script_of_read hread] at h
    exact ⟨destination, hread, Except.ok.inj h⟩
  cases hwitness : util.segwit_address_decode (bech32_hrp network) text with
  | some program =>
    exact hread (.witness program (util.segwit_address_decode_iff.mp hwitness).1) hwitness
  | none =>
    unfold address_to_script at h
    rw [hwitness] at h
    dsimp only at h
    split at h
    · cases h
    rename_i payload hpayload
    split at h
    · rename_i hlength
      cases payload with
      | nil => cases hlength
      | cons version hash160 =>
        rw [headD_cons] at h
        have hhash : hash160.length = 20 := Nat.succ.inj hlength
        split at h
        · rename_i hversion
          rw [hversion] at hpayload
          exact hread (.keyhash hash160 hhash) hpayload
        split at h
        · rename_i hversion
          rw [hversion] at hpayload
          exact hread (.scripthash hash160 hhash) hpayload
        · cases h
    · cases h

/-- The byte that pushes the version of a witness program. -/
theorem opcode_toNat (hvalid : program.Valid) :
    (UInt8.ofNat (if program.version = 0 then 0x00 else 0x50 + program.version.toNat)).toNat =
      if program.version = 0 then 0x00 else 0x50 + program.version.toNat := by
  have hversion := hvalid.version
  rw [UInt8.toNat_ofNat']
  split
  · rfl
  · omega

theorem script_head_ne (hvalid : program.Valid) {byte : UInt8}
    (hbyte : 0x60 < byte.toNat) {rest rest' : Bytes}
    (h : UInt8.ofNat (if program.version = 0 then 0x00 else 0x50 + program.version.toNat) :: rest =
      byte :: rest') : False := by
  have hversion := hvalid.version
  have hopcode := opcode_toNat hvalid
  rw [(List.cons.inj h).1] at hopcode
  split at hopcode <;> omega

/-- Different destinations have different scripts. -/
theorem script_injective : Function.Injective script := by
  intro destination destination' h
  cases destination with
  | keyhash hash160 hlength =>
    cases destination' with
    | keyhash hash160' hlength' =>
      have hhash := append_inj_left h (by
        rw [length_append, length_append, hlength, hlength'])
      congr 1
      exact append_cancel_left hhash
    | scripthash hash160' hlength' => cases h
    | witness program' hvalid' => exact (script_head_ne hvalid' (by decide) h.symm).elim
  | scripthash hash160 hlength =>
    cases destination' with
    | keyhash hash160' hlength' => cases h
    | scripthash hash160' hlength' =>
      have hhash := append_inj_left h (by
        rw [length_append, length_append, hlength, hlength'])
      congr 1
      exact append_cancel_left hhash
    | witness program' hvalid' => exact (script_head_ne hvalid' (by decide) h.symm).elim
  | witness program hvalid =>
    cases destination' with
    | keyhash hash160' hlength' => exact (script_head_ne hvalid (by decide) h).elim
    | scripthash hash160' hlength' => exact (script_head_ne hvalid (by decide) h).elim
    | witness program' hvalid' =>
      have hversion := hvalid.version
      have hversion' := hvalid'.version
      have hopcode := opcode_toNat hvalid
      obtain ⟨hfirst, htail⟩ := List.cons.inj h
      rw [hfirst, opcode_toNat hvalid'] at hopcode
      congr 1
      obtain ⟨version, bytes⟩ := program
      obtain ⟨version', bytes'⟩ := program'
      dsimp only at hopcode hversion hversion' htail
      congr 1
      · split at hopcode <;> split at hopcode <;> omega
      · exact (List.cons.inj htail).2

/-- The canonical address exists and is read as the destination. -/
theorem exists_address (sha256d : Bytes → util.Hash256) (network : Network) (destination : Destination) :
    ∃ addr, destination.Address sha256d network addr ∧ destination.Read sha256d network addr := by
  cases destination with
  | keyhash hash160 hlength =>
    refine ⟨_, rfl, ?_⟩
    apply util.try_base58check_decode_iff.mpr
    exact util.try_base58_decode_encode _
  | scripthash hash160 hlength =>
    refine ⟨_, rfl, ?_⟩
    apply util.try_base58check_decode_iff.mpr
    exact util.try_base58_decode_encode _
  | witness program hvalid =>
    obtain ⟨first, rest, hhrp, -, hlower, hshort⟩ := bech32_hrp_cons network
    have hne : bech32_hrp network ≠ [] := by
      rw [hhrp]
      exact cons_ne_nil _ _
    obtain ⟨addr, hencode, hdecode⟩ := util.segwit_address_decode_encode hne hlower hvalid
    have hlength := util.segwit_address_encode_length hvalid hencode
    exact ⟨addr, hencode, hdecode (by omega)⟩

/-- A text that is read as the destination is its canonical address, in upper case perhaps. -/
theorem eq_of_read {addr : Text} (h : destination.Read sha256d network text)
    (haddress : destination.Address sha256d network addr) :
    text = addr ∨ destination.IsWitness ∧ text = addr.map Char.toUpper := by
  cases destination with
  | keyhash hash160 hlength =>
    left
    rw [haddress]
    exact (util.base58_encode_decode (util.try_base58check_decode_iff.mp h)).symm
  | scripthash hash160 hlength =>
    left
    rw [haddress]
    exact (util.base58_encode_decode (util.try_base58check_decode_iff.mp h)).symm
  | witness program hvalid =>
    obtain ⟨-, hlegible, hencode⟩ := util.segwit_address_encode_decode h
    have hlowered : addr = text.map Char.toLower := by
      rw [Address, hencode] at haddress
      exact (Except.ok.inj haddress).symm
    rw [hlowered]
    cases hlegible.cases with
    | inl hlower => exact .inl hlower
    | inr hupper => exact .inr ⟨trivial, hupper⟩

/-- A text read as a witness program begins with the human-readable part of its network. -/
theorem hrp_unique {program' : util.WitnessProgram}
    (h : util.segwit_address_decode (bech32_hrp network) text = some program)
    (h' : util.segwit_address_decode (bech32_hrp network') text = some program') :
    bech32_hrp network = bech32_hrp network' := by
  obtain ⟨-, groups, hread, -⟩ := util.segwit_address_decode_iff.mp h
  obtain ⟨-, groups', hread', -⟩ := util.segwit_address_decode_iff.mp h'
  rw [hread] at hread'
  exact congrArg util.Bech32Decoded.hrp (Option.some.inj hread')

/-- The two ways in which a text is read. -/
theorem Read.cases (h : destination.Read sha256d network text) :
    (∃ program, util.segwit_address_decode (bech32_hrp network) text = some program) ∨
    ∃ version hash160, version ∈ [(base58_versions network).p2pkh, (base58_versions network).p2sh] ∧
      hash160.length = 20 ∧ util.try_base58check_decode sha256d text = some (version :: hash160) := by
  cases destination with
  | keyhash hash160 hlength => exact .inr ⟨_, hash160, mem_cons_self, hlength, h⟩
  | scripthash hash160 hlength => exact .inr ⟨_, hash160, by simp, hlength, h⟩
  | witness program hvalid => exact .inl ⟨program, h⟩

/-- What the main network reads, no other reads. -/
theorem not_read_of_read_mainnet (hnetwork : network ≠ .Mainnet) {destination' : Destination}
    (h : destination.Read sha256d .Mainnet text) (h' : destination'.Read sha256d network text) : False := by
  have hknown (network : Network) : ∀ version ∈ [(base58_versions network).p2pkh, (base58_versions network).p2sh],
      version ∈ [0x00, 0x05, 0x6f, 0xc4] := by
    obtain ⟨hp2pkh, hp2sh, -⟩ := base58_versions_mem network
    simp only [forall_mem_cons]
    exact ⟨hp2pkh, hp2sh, fun _ hmem => absurd hmem not_mem_nil⟩
  obtain ⟨program, hread⟩ | ⟨version, hash160, hversion, hlength, hread⟩ := h.cases
  · obtain ⟨program', hread'⟩ | ⟨version', hash160', hversion', hlength', hread'⟩ := h'.cases
    · have hhrp := hrp_unique hread hread'
      cases network with
      | Mainnet => exact hnetwork rfl
      | Testnet => exact absurd hhrp (by decide)
      | Regtest => exact absurd hhrp (by decide)
      | Signet => exact absurd hhrp (by decide)
    · rw [segwit_address_decode_base58 (hknown _ _ hversion') hlength' hread'] at hread
      cases hread
  · obtain ⟨program', hread'⟩ | ⟨version', hash160', hversion', hlength', hread'⟩ := h'.cases
    · rw [segwit_address_decode_base58 (hknown _ _ hversion) hlength hread] at hread'
      cases hread'
    · rw [hread, Option.some.injEq, List.cons.injEq] at hread'
      obtain ⟨rfl, -⟩ := hread'
      have hother : base58_versions network = ⟨0x6f, 0xc4⟩ := if_neg hnetwork
      rw [hother] at hversion'
      have hmain : base58_versions .Mainnet = ⟨0x00, 0x05⟩ := rfl
      rw [hmain] at hversion
      simp only [mem_cons, not_mem_nil, or_false] at hversion hversion'
      obtain rfl | rfl := hversion
      · exact absurd hversion' (by decide)
      · exact absurd hversion' (by decide)

end Destination

end Canonical

/-- The canonical address of every destination is decoded to its script; whatever else is decoded to
it is that address in upper case, for a witness program; and the main network shares no address
with another. -/
theorem addresses_canonical (sha256d : Bytes → util.Hash256) :
    (∀ (network : Network) (destination : Destination), ∃ addr, destination.Address sha256d network addr ∧
      address_to_script sha256d addr network = .ok destination.script ∧
      ∀ text, address_to_script sha256d text network = .ok destination.script →
        text = addr ∨ destination.IsWitness ∧ text = addr.map Char.toUpper) ∧
    ∀ (network : Network) (text : Text) (script script' : Bytes), network ≠ .Mainnet →
      address_to_script sha256d text .Mainnet = .ok script →
      address_to_script sha256d text network ≠ .ok script' := by
  constructor
  · intro network destination
    obtain ⟨addr, haddress, hread⟩ := destination.exists_address sha256d network
    refine ⟨addr, haddress, Destination.address_to_script_of_read hread, ?_⟩
    intro text htext
    obtain ⟨destination', hread', hscript⟩ := Destination.read_of_address_to_script htext
    obtain rfl := Destination.script_injective hscript
    exact Destination.eq_of_read hread' haddress
  · intro network text script script' hnetwork h h'
    obtain ⟨destination, hread, -⟩ := Destination.read_of_address_to_script h
    obtain ⟨destination', hread', -⟩ := Destination.read_of_address_to_script h'
    exact Destination.not_read_of_read_mainnet hnetwork hread hread'

theorem addresses_canonical_burn_address :
    (Destination.keyhash (replicate 20 0) rfl).Address util.sha256d .Mainnet
        "1111111111111111111114oLvT2".toList ∧
      address_to_script util.sha256d "1111111111111111111114oLvT2".toList .Signet ≠
        .ok (Destination.keyhash (replicate 20 0) rfl).script := by
  have hmain : address_to_script util.sha256d "1111111111111111111114oLvT2".toList .Mainnet =
      .ok (Destination.keyhash (replicate 20 0) rfl).script := by decide +kernel
  refine ⟨?_, (addresses_canonical util.sha256d).2 .Signet _ _ _ (by decide) hmain⟩
  obtain ⟨addr, haddress, -, hunique⟩ :=
    (addresses_canonical util.sha256d).1 .Mainnet (.keyhash (replicate 20 0) rfl)
  obtain htext | ⟨hwitness, -⟩ := hunique _ hmain
  · rw [htext]
    exact haddress
  · exact hwitness.elim

end erikslund.bitcoin
