import SoloPool.Bitcoin.Gbt
import SoloPool.Bitcoin.Transaction
import SoloPool.Stratum.Parent
import SoloPool.Stratum.Validators

namespace erikslund.stratum

open util bitcoin Reader List

/-- The coinbase as it stands in a block. -/
def Job.block_coinbase (job : Job) (legacy_coinbase : Bytes) : Except String Bytes :=
  match job.coinbase_witness with
  | some witness => legacy_to_witness legacy_coinbase witness
  | none => .ok legacy_coinbase

/-- The number of transactions is incremented in the 32 bits of `txn_count_`. -/
def Job.build_block_hex (job : Job) (legacy_coinbase header : Bytes) : Except String Text := do
  let coinbase ← job.block_coinbase legacy_coinbase
  return to_hex (header ++ encode_varint (job.txn_count + 1).toNat ++ coinbase ++ job.txn_data)

/-- A block header's merkle root, at its place among the 80 bytes. -/
def header_merkle_root (header : Bytes) : Bytes := (header.drop 36).take 32

/-- The field of a template transaction that names it is the id of the transaction its data
serializes. -/
def Carries (entry : GbtTransaction) (transaction : Transaction) : Prop :=
  ∃ data id_hex, entry.data = some data ∧ (entry.txid <|> entry.hash) = some id_hex ∧
    try_from_hex data = some transaction.serialize ∧ Reads skip_transaction transaction.serialize transaction [] ∧
    try_from_hex id_hex = some (reversed transaction.txid.val)

/-- The block a share reports decodes as its header, a coinbase and the given transactions;
the header commits to them, and is what the reported hash is the hash of. -/
def Job.Reports (job : Job) (result : ShareResult) (transactions : List Transaction) : Prop :=
  ∃ block_hex block coinbase, job.build_block_hex result.legacy_coinbase result.header = .ok block_hex ∧
    try_from_hex block_hex = some block ∧
    Reads read_block block (result.header, coinbase :: transactions) [] ∧
    coinbase.legacy = result.legacy_coinbase ∧
    header_merkle_root result.header =
      (util.merkle_root (sha256d result.legacy_coinbase :: transactions.map Transaction.txid)).val ∧
    result.block_hash_hex = to_hex_reversed (sha256d result.header).val

open Job

theorem header_merkle_root_build_header (job : Job) (root : Hash256) (ntime nonce version : UInt32) :
    header_merkle_root (job.build_header root ntime nonce version) = root.val := by
  have hlead : (le32_bytes version ++ job.prevhash_internal.val).length = 36 := by
    rw [length_append, le32_bytes_length, job.prevhash_internal.property]
  rw [header_merkle_root, build_header, append_assoc, append_assoc, append_assoc,
    drop_left' hlead, take_left' root.property]

variable {job : Job} {transactions : List Transaction}

/-- What an accepted share was computed from. -/
theorem Job.validate_share_ok {input : ShareInput} {result : ShareResult}
    (h : job.validate_share input = .ok result) :
    ∃ extranonce2 ntime nonce version, extranonce2.length = job.extranonce2_size ∧
      result.legacy_coinbase = job.coinbase1 ++ (input.extranonce1 ++ extranonce2) ++ input.coinbase2 ∧
      result.header = job.build_header (merkle_root_from_branch (sha256d result.legacy_coinbase) job.merkle_branch)
        ntime nonce version ∧
      result.block_hash_hex = to_hex_reversed (sha256d result.header).val := by
  unfold validate_share at h
  split at h
  · cases h
  split at h
  · rename_i extranonce2 ntime nonce _ _ _
    split at h
    · cases h
    rename_i hsize
    split at h
    · cases h
    split at h
    · cases h
    · rename_i version _
      simp only [validate_header] at h
      split at h
      · cases h
      · cases h
        exact ⟨extranonce2, ntime, nonce, version, not_not.mp hsize, by simp only [append_assoc], rfl, rfl⟩
  · cases h

/-- What `parse_transaction` makes of an entry that carries a transaction. -/
theorem Carries.parsed {entry : GbtTransaction} {transaction : Transaction} (h : Carries entry transaction)
    {segwit_aware : Bool} {parsed : Bytes × Hash256} (hparsed : parse_transaction segwit_aware entry = .ok parsed) :
    parsed = (transaction.serialize, transaction.txid) := by
  obtain ⟨data, id_hex, hdata, hid, hserialized, -, htxid⟩ := h
  obtain ⟨text, htext, hparsed⟩ := Result.bind_eq_ok.mp hparsed
  obtain ⟨bytes, hbytes, hparsed⟩ := Result.bind_eq_ok.mp hparsed
  obtain ⟨txid, hparse, hparsed⟩ := Result.bind_eq_ok.mp hparsed
  obtain rfl := Result.pure_eq_ok.mp hparsed
  obtain ⟨shown, hshown, hid'⟩ := parse_txid_ok hparse
  cases hdata.symm.trans (require_field_ok.mp htext)
  cases hid.symm.trans hshown
  cases hserialized.symm.trans (from_hex_eq_ok.mp hbytes)
  have htxids := Option.some.inj (htxid.symm.trans hid')
  rw [Subtype.ext (reverse_injective htxids)]

/-- The entries of the reply, once parsed, are the transactions they carry. -/
theorem carried_entries {entries : List GbtTransaction} {segwit_aware : Bool}
    {parsed : List (Bytes × Hash256)} (hcarries : Forall₂ Carries entries transactions)
    (hparsed : Forall₂ (fun entry result => parse_transaction segwit_aware entry = .ok result) entries parsed) :
    parsed = transactions.map fun transaction => (transaction.serialize, transaction.txid) := by
  induction hcarries generalizing parsed with
  | nil =>
    cases hparsed
    rfl
  | cons hcarry hrest ih =>
    cases hparsed with
    | cons hfirst hothers => rw [map_cons, hcarry.parsed hfirst, ih hothers]

open Transaction

theorem transactions_encode {entries : List GbtTransaction}
    (hcarries : Forall₂ Carries entries transactions) :
    Encodes (times transactions.length skip_transaction) (transactions.map serialize).flatten
      transactions := by
  apply times_encodes
  induction hcarries with
  | nil => exact .nil
  | cons hcarry hrest ih =>
    obtain ⟨_, _, _, _, _, hreads, _⟩ := hcarry
    exact .cons (skip_transaction_local.encodes hreads) ih

/-- How the block of an accepted share is put together: the header, the number of transactions
in 32 bits, the coinbase and the transactions. -/
structure Job.Assembles (job : Job) (result : ShareResult) (coinbase : Transaction) (transactions : List Transaction) :
    Prop where
  block : job.build_block_hex result.legacy_coinbase result.header =
    .ok (to_hex (result.header ++ (encode_varint ((transactions.length + 1) % 2 ^ 32) ++
      (coinbase.serialize ++ (transactions.map serialize).flatten))))
  header : result.header.length = 80
  count : transactions.length < 2 ^ 32
  coinbase_reads : Encodes skip_transaction coinbase.serialize coinbase
  legacy : coinbase.legacy = result.legacy_coinbase
  transactions_read : Encodes (times transactions.length skip_transaction)
    (transactions.map serialize).flatten transactions
  root : header_merkle_root result.header =
    (util.merkle_root (sha256d result.legacy_coinbase :: transactions.map Transaction.txid)).val
  hash : result.block_hash_hex = to_hex_reversed (sha256d result.header).val

/-- A node reads such a block back exactly when the number of transactions did not wrap. -/
theorem Job.Assembles.reports_iff {result : ShareResult} {coinbase : Transaction}
    (h : job.Assembles result coinbase transactions) :
    job.Reports result transactions ↔ transactions.length + 1 < 2 ^ 32 := by
  have hcount := h.count
  have hblock := h.block
  have hdecoded := try_from_hex_to_hex (result.header ++ (encode_varint ((transactions.length + 1) % 2 ^ 32) ++
    (coinbase.serialize ++ (transactions.map serialize).flatten)))
  constructor
  · rintro ⟨block_hex, block, reported, hbuilt, hblock', hread, -⟩
    cases hblock.symm.trans hbuilt
    cases hdecoded.symm.trans hblock'
    by_contra hfull
    have hwrapped : (transactions.length + 1) % 2 ^ 32 = 0 := by omega
    have hzero : 0 < 2 ^ 64 := by decide
    rw [hwrapped] at hread
    -- the count wrapped to zero, so a node stops after it and finds no coinbase
    have hempty (rest : Bytes) : Reads read_block (result.header ++ (encode_varint 0 ++ rest)) (result.header, []) rest :=
      (Cursor.take_encodes h.header _).bind ((Cursor.compact_size_encodes hzero _).bind (.pure _ _))
    cases (hread.unique (hempty _)).1
  · intro hroom
    rw [Nat.mod_eq_of_lt hroom] at hblock hdecoded
    refine ⟨_, _, coinbase, hblock, hdecoded, ?_, h.legacy, h.root, h.hash⟩
    have hall : Encodes (times (transactions.length + 1) skip_transaction)
        (coinbase.serialize ++ (transactions.map serialize).flatten) (coinbase :: transactions) :=
      h.coinbase_reads.bind (h.transactions_read.map _)
    have hread : Encodes read_block _ (result.header, coinbase :: transactions) :=
      (Cursor.take_encodes h.header).bind ((Cursor.compact_size_encodes (by omega)).bind (hall.map _))
    have hend := hread []
    rwa [append_nil] at hend

/-- The pool's own outputs: one or two, to the payout script and the donation script. -/
theorem Job.build_coinbase2_outputs (job : Job) (payout_script : Bytes) :
    ∃ outputs : List CoinbaseOutput, outputs.length ≤ 2 ∧
      (∀ output ∈ outputs, output.script = payout_script ∨ output.script = job.donation_script) ∧
      job.build_coinbase2 payout_script = bitcoin.build_coinbase2 outputs job.coinbase_required_outputs job.tag
        job.coinbase_sequence job.coinbase_lock_time := by
  unfold Job.build_coinbase2
  split
  · refine ⟨[_, _], Nat.le_refl 2, ?_, rfl⟩
    intro output hmem
    rcases mem_pair.mp hmem with rfl | rfl
    · exact .inl rfl
    · exact .inr rfl
  · refine ⟨[_], Nat.le_succ 1, ?_, rfl⟩
    intro output hmem
    rw [mem_singleton.mp hmem]
    exact .inl rfl

/-- The coinbase of a job built from a reply of the node: a transaction whose legacy form is the
one that was hashed, and whose serialization is the one `build_block_hex` writes. -/
theorem Job.BuiltFrom.coinbase_transaction {job_id : Text} {template : BlockTemplate} {tag : Bytes}
    {extranonce1_size extranonce2_size : Nat} {coinbase_version : UInt32} {donation_script : Bytes}
    {donation_percent : ℚ} {reply : GbtReply} {parsed : List (Bytes × Hash256)} {payout_script extranonce : Bytes}
    (hbuilt : job.BuiltFrom job_id template tag extranonce1_size extranonce2_size coinbase_version
      donation_script donation_percent)
    (hfills : reply.Fills parsed template)
    (hextranonce : extranonce.length = extranonce1_size + extranonce2_size)
    (hpayout : payout_script.length < 2 ^ 64) (hdonation : donation_script.length < 2 ^ 64)
    (hcommitment : ∀ text, reply.default_witness_commitment = some text → text.length < 2 ^ 64) :
    ∃ coinbase : Transaction, Encodes skip_transaction coinbase.serialize coinbase ∧
      coinbase.legacy = job.coinbase1 ++ extranonce ++ job.build_coinbase2 payout_script ∧
      job.block_coinbase coinbase.legacy = .ok coinbase.serialize := by
  obtain ⟨outputs, hcount, hscripts, hcoinbase2⟩ := job.build_coinbase2_outputs payout_script
  have hrequired : job.coinbase_required_outputs.length ≤ 1 ∧
      (∀ output ∈ job.coinbase_required_outputs, output.script.length < 2 ^ 64) ∧
      ∀ item, job.coinbase_witness = some item → item.length = 32 := by
    rw [hbuilt.required_outputs, hbuilt.coinbase_witness]
    rcases commitment_outputs_ok hfills.coinbase with ⟨hwitness, houtputs⟩ | ⟨text, script, htext, hscript, hwitness, houtputs⟩
    · rw [hwitness, houtputs]
      simp
    · have hlength := try_from_hex_length (from_hex_eq_ok.mp hscript)
      have hbound := hcommitment text htext
      rw [hwitness, houtputs]
      simp only [length_singleton, Nat.le_refl, mem_singleton, forall_eq, Option.some.injEq, forall_eq',
        length_replicate, and_true, true_and]
      omega
  obtain ⟨hone, hsmall, hitem⟩ := hrequired
  have houtputs : ∀ output ∈ outputs ++ job.coinbase_required_outputs, output.script.length < 2 ^ 64 := by
    intro output hmem
    rcases mem_append.mp hmem with hmem | hmem
    · rcases hscripts output hmem with hpays | hpays
      · rwa [hpays]
      · rwa [hpays, hbuilt.donation_script]
    · exact hsmall output hmem
  obtain ⟨hlegacy, hscript_sig⟩ := coinbase_halves job.coinbase_sequence job.coinbase_lock_time outputs
    job.coinbase_required_outputs job.coinbase_witness hbuilt.coinbase1 hextranonce
  rw [← hbuilt.tag, ← hcoinbase2] at hlegacy
  refine ⟨_, ?_, hlegacy.symm, ?_⟩
  · rw [kMaxScriptSig] at hscript_sig
    refine coinbase_transaction_encodes ?_ ?_ houtputs ?_
    · rw [hbuilt.tag]
      omega
    · rw [length_append]
      omega
    · intro item hsome
      rw [hitem item hsome]
      decide
  · unfold block_coinbase
    cases hwitness : job.coinbase_witness with
    | none => rfl
    | some item =>
      exact legacy_to_witness_eq (le32_bytes_length _) (le32_bytes_length _) (hitem item hwitness) rfl

section Found

variable {envelope : GbtEnvelope} {reply : GbtReply} {template : BlockTemplate} {transactions : List Transaction}
  {job_id : Text} {tag : Bytes} {extranonce1_size extranonce2_size : Nat} {coinbase_version : UInt32} {clean : Bool}
  {donation_script : Bytes} {donation_percent : ℚ} {job : Job} {payout_script : Bytes} {input : ShareInput}
  {result : ShareResult}

/-- A share accepted on a job from a reply of the node, for the coinbase that pays
`payout_script` and an extranonce of the configured size. -/
theorem assembles_of_share (htemplate : BlockTemplate.from_gbt envelope = .ok template)
    (hreply : envelope.result = some reply)
    (hcarries : Forall₂ Carries (reply.transactions.getD []) transactions)
    (hjob : new job_id template tag extranonce1_size extranonce2_size coinbase_version clean donation_script
      donation_percent = .ok job)
    (hpayout : payout_script.length < 2 ^ 64) (hdonation : donation_script.length < 2 ^ 64)
    (hcommitment : ∀ text, reply.default_witness_commitment = some text → text.length < 2 ^ 64)
    (hcoinbase2 : input.coinbase2 = job.build_coinbase2 payout_script)
    (hextranonce1 : input.extranonce1.length = extranonce1_size) (hshare : job.validate_share input = .ok result) :
    ∃ coinbase, job.Assembles result coinbase transactions := by
  obtain ⟨reply', parsed, hreply', hfills⟩ := BlockTemplate.from_gbt_ok htemplate
  cases hreply.symm.trans hreply'
  have hbuilt := new_spec hjob
  obtain ⟨hcount, hparsed⟩ := parse_transactions_ok hfills.transactions
  have hentries := carried_entries hcarries hparsed
  obtain ⟨extranonce2, ntime, nonce, version, hsize2, hlegacy, hheader, hhash⟩ := validate_share_ok hshare
  have hextranonce : (input.extranonce1 ++ extranonce2).length = extranonce1_size + extranonce2_size := by
    rw [length_append, hextranonce1, hsize2, hbuilt.extranonce2_size]
  obtain ⟨coinbase, hencodes, hsame, hserialized⟩ :=
    hbuilt.coinbase_transaction hfills hextranonce hpayout hdonation hcommitment
  rw [hcoinbase2, ← hsame] at hlegacy
  subst hentries
  rw [length_map] at hcount
  have hids : (transactions.map fun t => (t.serialize, t.txid)).map Prod.snd = transactions.map Transaction.txid := by
    rw [map_map]
    rfl
  have hdata : (transactions.map fun t => (t.serialize, t.txid)).map Prod.fst = transactions.map serialize := by
    rw [map_map]
    rfl
  refine ⟨coinbase, ?_, ?_, hcount, hencodes, hlegacy.symm, transactions_encode hcarries, ?_, hhash⟩
  · have hnumber : (job.txn_count + 1).toNat = (transactions.length + 1) % 2 ^ 32 := by
      rw [hbuilt.txn_count, hfills.txn_count, length_map]
      simp [UInt32.toNat_add]
    rw [build_block_hex, hlegacy, hserialized, hnumber, hbuilt.txn_data, hfills.txn_data, hdata]
    simp only [append_assoc]
    rfl
  · rw [hheader]
    exact build_header_length ..
  · rw [hheader, header_merkle_root_build_header, hbuilt.merkle_branch, hfills.merkle_branch, hids,
      merkle_root_from_merkle_branch]

/-- The block of every accepted share decodes as it should, unless the template has so many
transactions that their number with the coinbase does not fit 32 bits. -/
theorem found_block_decodes (htemplate : BlockTemplate.from_gbt envelope = .ok template)
    (hreply : envelope.result = some reply)
    (hcarries : Forall₂ Carries (reply.transactions.getD []) transactions)
    (hjob : new job_id template tag extranonce1_size extranonce2_size coinbase_version clean donation_script
      donation_percent = .ok job)
    (hpayout : payout_script.length < 2 ^ 64) (hdonation : donation_script.length < 2 ^ 64)
    (hcommitment : ∀ text, reply.default_witness_commitment = some text → text.length < 2 ^ 64)
    (hcoinbase2 : input.coinbase2 = job.build_coinbase2 payout_script)
    (hextranonce1 : input.extranonce1.length = extranonce1_size) (hshare : job.validate_share input = .ok result) :
    job.Reports result transactions ↔ transactions.length + 1 < 2 ^ 32 := by
  obtain ⟨coinbase, hassembles⟩ :=
    assembles_of_share htemplate hreply hcarries hjob hpayout hdonation hcommitment hcoinbase2 hextranonce1 hshare
  exact hassembles.reports_iff

end Found

namespace Crowd

/-- A transaction with one input and one output, both with empty scripts. -/
def transaction : Transaction where
  version := le32_bytes 1
  inputs := 0x01 :: (replicate 36 0 ++ 0x00 :: replicate 4 0xff)
  outputs := 0x01 :: (replicate 8 0 ++ [0x00])
  witness := none
  lock_time := le32_bytes 0

def entry : GbtTransaction where
  data := some (to_hex transaction.serialize)
  txid := some (to_hex_reversed transaction.txid.val)
  hash := none

def commitment : Bytes := [0x6a, 0x24, 0xaa, 0x21, 0xa9, 0xed] ++ replicate 32 7

/-- A reply with that transaction `count` times. -/
def reply (count : Nat) : GbtReply where
  height := some 1
  version := some 0x20000000
  curtime := some 900
  bits := some "207fffff".toList
  coinbasevalue := some 5000000000
  previousblockhash := some (to_hex (replicate 32 1))
  default_witness_commitment := some (to_hex commitment)
  transactions := some (replicate count entry)

def template (count : Nat) : BlockTemplate :=
  { minimal_template 1 900 with
    coinbase_witness := some (replicate 32 0)
    coinbase_required_outputs := [⟨0, commitment⟩]
    txn_count := UInt32.ofNat count
    txn_data := (replicate count transaction.serialize).flatten
    merkle_branch_internal := merkle_branch (replicate count transaction.txid) }

/-- A share that only has to meet the easiest target. -/
def share (job : Job) : ShareInput where
  coinbase2 := job.build_coinbase2 []
  extranonce1 := [0, 0, 0, 1]
  extranonce2_hex := "0000000000000002".toList
  ntime_hex := "000003e8".toList
  nonce_hex := "00000007".toList
  share_target := .ofNat (2 ^ 256 - 1)
  version_bits_hex := none
  version_mask := 0
  now_unix := 1000

theorem carries : Carries entry transaction := by
  refine ⟨_, _, rfl, rfl, try_from_hex_to_hex _, by unfold Reads; decide, try_from_hex_to_hex _⟩

theorem carries_all (count : Nat) :
    Forall₂ Carries (replicate count entry) (replicate count transaction) := by
  induction count with
  | zero => exact .nil
  | succ count ih => exact .cons carries ih

theorem parsed {count : Nat} (hcount : count ≤ 0xffffffff) :
    parse_transactions true (replicate count entry) =
      .ok (replicate count (transaction.serialize, transaction.txid)) := by
  have hone : parse_transaction true entry = .ok (transaction.serialize, transaction.txid) := by decide +kernel
  have hfits : ¬ (replicate count entry).length > 0xffffffff := by
    rw [length_replicate]
    omega
  have hrepeat {β : Type} {f : GbtTransaction → Except String β} {b : β} (hb : f entry = .ok b) :
      (replicate count entry).mapM f = .ok (replicate count b) := by
    rw [Result.mapM_eq_ok]
    clear hcount hfits
    induction count with
    | zero => exact .nil
    | succ count ih => exact .cons hb ih
  unfold parse_transactions
  rw [if_neg hfits]
  exact Result.bind_eq_ok.mpr ⟨_, hrepeat rfl, hrepeat hone⟩

theorem filled {count : Nat} (hcount : count ≤ 0xffffffff) :
    BlockTemplate.from_gbt ⟨some (reply count), none⟩ = .ok (template count) := by
  have hcommitment : commitment_outputs (some (to_hex commitment)) =
      .ok (some (replicate 32 0), [⟨0, commitment⟩]) := by decide
  have hreply : (reply count).block_template = .ok (template count) := by
    -- the fields in the order they are read: everything before the commitment is fixed
    iterate 6 refine Result.bind_eq_ok.mpr ⟨_, rfl, ?_⟩
    refine Result.bind_eq_ok.mpr ⟨0x207fffff, by decide, ?_⟩
    iterate 2 refine Result.bind_eq_ok.mpr ⟨_, rfl, ?_⟩
    refine Result.bind_eq_ok.mpr ⟨[0x51], by decide, ?_⟩
    refine Result.bind_eq_ok.mpr ⟨[], rfl, ?_⟩
    refine Result.bind_eq_ok.mpr ⟨_, hcommitment, Result.bind_eq_ok.mpr ⟨_, parsed hcount, ?_⟩⟩
    rw [Result.pure_eq_ok, template, length_replicate, map_replicate, map_replicate]
    rfl
  rw [BlockTemplate.from_gbt]
  simp only [hreply]
  rfl

/-- The reply is accepted, and so is a share on its job. -/
theorem accepted (count : Nat) (hcount : count ≤ 0xffffffff) :
    ∃ job result, BlockTemplate.from_gbt ⟨some (reply count), none⟩ = .ok (template count) ∧
      new "1".toList (template count) [] 4 8 1 true [] 0 = .ok job ∧
      job.validate_share (share job) = .ok result := by
  have hparent : from_hex (template count).previousblockhash = .ok (replicate 32 1) :=
    from_hex_eq_ok.mpr (try_from_hex_to_hex _)
  have hfits : List.length (BlockTemplate.coinbase_script_sig_prefix (template count)) + (4 + 8) +
      ([] : Bytes).length ≤ kMaxScriptSig := by
    have hscript : BlockTemplate.coinbase_script_sig_prefix (template count) = [0x51] := rfl
    rw [hscript]
    decide
  obtain ⟨job, hjob⟩ := new_exists hparent length_replicate rfl hfits "1".toList 1 true [] 0
  have hbuilt := new_spec hjob
  have hextranonce2 : try_from_hex "0000000000000002".toList = some [0, 0, 0, 0, 0, 0, 0, 2] := by decide
  have hntime : try_parse_hex_u32 "000003e8".toList = some 1000 := by decide
  have hnonce : try_parse_hex_u32 "00000007".toList = some 7 := by decide
  have heasiest : (uint256.ofNat (2 ^ 256 - 1)).toNat = 2 ^ 256 - 1 := by decide
  have hrange : job.ntime_in_range 1000 1000 = true := by
    have hcurtime : (template count).curtime = 900 := rfl
    rw [ntime_in_range, hbuilt.curtime, hcurtime]
    decide
  have hvalidated := @Job.validate_share_eq job [] [0, 0, 0, 1] _ 1000 7 0 (.ofNat (2 ^ 256 - 1)) 1000 _ _ _ none
    job.version hextranonce2 (by rw [hbuilt.extranonce2_size]; rfl) hntime hnonce rfl
  have hmeets := job.validate_header_of_meets (job.coinbase [] [0, 0, 0, 1, 0, 0, 0, 0, 0, 0, 0, 2])
    (job.merkle_root [] [0, 0, 0, 1, 0, 0, 0, 0, 0, 0, 0, 2]) 1000 7 job.version (meets_easiest heasiest)
  cases hresult : job.validate_share (share job) with
  | error rejection =>
    have hwork : job.validate_work [] [0, 0, 0, 1, 0, 0, 0, 0, 0, 0, 0, 2] 1000 7 job.version _ 1000 = .error rejection :=
      hvalidated.symm.trans hresult
    rw [validate_work, if_neg (not_not.mpr hrange)] at hwork
    rw [hwork] at hmeets
    cases hmeets
  | ok result => exact ⟨job, result, filled hcount, hjob, hresult⟩

end Crowd

/-- With 2^32 - 1 transactions the number written into the block is zero. -/
theorem full_block_does_not_decode : ∃ count job result, count = 2 ^ 32 - 1 ∧
    BlockTemplate.from_gbt ⟨some (Crowd.reply count), none⟩ = .ok (Crowd.template count) ∧
      Forall₂ Carries ((Crowd.reply count).transactions.getD []) (replicate count Crowd.transaction) ∧
      new "1".toList (Crowd.template count) [] 4 8 1 true [] 0 = .ok job ∧
      job.validate_share (Crowd.share job) = .ok result ∧
      ¬ job.Reports result (replicate count Crowd.transaction) := by
  obtain ⟨count, hcount⟩ : ∃ count, count = 2 ^ 32 - 1 := ⟨_, rfl⟩
  obtain ⟨job, result, htemplate, hjob, hshare⟩ := Crowd.accepted count (by omega)
  have hcarries := Crowd.carries_all count
  have hcommitment : ∀ text, (Crowd.reply count).default_witness_commitment = some text → text.length < 2 ^ 64 := by
    intro text htext
    cases htext
    decide
  obtain ⟨coinbase, hassembles⟩ := assembles_of_share htemplate rfl hcarries hjob (by decide) (by decide) hcommitment
    rfl rfl hshare
  refine ⟨count, job, result, hcount, htemplate, hcarries, hjob, hshare, fun hreports => ?_⟩
  have hroom := hassembles.reports_iff.mp hreports
  rw [length_replicate] at hroom
  omega

/-- A block with a witness commitment and two transactions decodes. -/
theorem found_block_decodes_two : ∃ job result,
    new "1".toList (Crowd.template 2) [] 4 8 1 true [] 0 = .ok job ∧
      job.validate_share (Crowd.share job) = .ok result ∧
      job.Reports result [Crowd.transaction, Crowd.transaction] := by
  obtain ⟨job, result, htemplate, hjob, hshare⟩ := Crowd.accepted 2 (by decide)
  have hcommitment : ∀ text, (Crowd.reply 2).default_witness_commitment = some text → text.length < 2 ^ 64 := by
    intro text htext
    cases htext
    decide
  have hdecodes := found_block_decodes htemplate rfl (Crowd.carries_all 2) hjob (by decide) (by decide) hcommitment rfl
    rfl hshare
  exact ⟨job, result, hjob, hshare, hdecodes.mpr (by decide)⟩

end erikslund.stratum
