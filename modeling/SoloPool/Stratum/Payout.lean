import SoloPool.Bitcoin.Format
import SoloPool.Stratum.Job

namespace erikslund.stratum

open util bitcoin Reader

/-- The donation that a job takes out of its coinbase value. -/
def Job.donation (job : Job) : Option CoinbaseOutput :=
  if job.donation_percent > 0 ∧ ¬ job.donation_script.isEmpty then
    some ⟨job.donation_amount, job.donation_script⟩
  else none

theorem Job.build_coinbase2_eq (job : Job) (payout_script : Bytes) : job.build_coinbase2 payout_script =
    bitcoin.build_coinbase2 (coinbase_outputs job.coinbase_value payout_script job.donation)
      job.coinbase_required_outputs job.tag job.coinbase_sequence job.coinbase_lock_time := by
  unfold Job.build_coinbase2 Job.donation
  split <;> rfl

theorem Job.nearest_double_nonneg (q : ℚ) : 0 ≤ nearest_double q := NearestEven.round_nonneg

theorem Job.nearest_double_le {q : ℚ} (hq : 0 ≤ q) : nearest_double q ≤ q + (q + 1) / 2 ^ 53 :=
  NearestEven.round_le hq (by norm_num)

/-- The three roundings of a share together add less than one. -/
theorem Job.share_lt {value percent : ℚ} (hvalue : 0 ≤ value) (hsmall : value ≤ 2 ^ 51)
    (hlow : 0 ≤ percent) (hhigh : percent ≤ 100) :
    nearest_double (nearest_double (nearest_double value * percent) / 100) < value + 1 := by
  have hrounded := nearest_double_nonneg value
  have hfirst := nearest_double_le hvalue
  have hsecond := nearest_double_le (mul_nonneg hrounded hlow)
  have hthird := nearest_double_le (div_nonneg
    (nearest_double_nonneg (nearest_double value * percent)) (by norm_num : (0 : ℚ) ≤ 100))
  have hpart := mul_le_mul_of_nonneg_left hhigh hrounded
  linarith

/-- A coinbase that is worth no more than there are coins is not short of the donation. -/
theorem Job.donation_le {job : Job} (hpercent : job.donation_percent ≤ 100)
    (hvalue : job.coinbase_value.toNat ≤ 2 ^ 51) :
    ∀ output ∈ job.donation, output.value ≤ job.coinbase_value := by
  intro output hmem
  unfold Job.donation at hmem
  split at hmem
  · next hdonates =>
    cases hmem
    have hbelow := share_lt (Nat.cast_nonneg _) (by exact_mod_cast hvalue) hdonates.1.le hpercent
    have hfloor := Nat.lt_succ_iff.mp
      ((Nat.floor_lt (nearest_double_nonneg _)).mpr (by exact_mod_cast hbelow))
    rw [Job.donation_amount, UInt64.le_iff_toNat_le,
      UInt64.toNat_ofNat_of_lt' (hfloor.trans_lt job.coinbase_value.toNat_lt)]
    exact hfloor
  · cases hmem

/-- What the two halves of a coinbase make around an extranonce: in the legacy format a
transaction of one input that spends nothing, with the outputs in order; with a witness item
the same transaction in the witness format. -/
structure CoinbaseParses (script_start extranonce tag coinbase1 coinbase2 : Bytes)
    (version sequence lock_time : UInt32) (outputs : List CoinbaseOutput) : Prop where
  legacy : Tx.read_legacy.run (coinbase1 ++ extranonce ++ coinbase2) =
    .ok (⟨version, [coinbase_input (script_start ++ extranonce ++ tag) sequence], outputs, lock_time⟩, [])
  segwit : ∀ witness_item : Bytes, witness_item.length = 32 →
    ∃ serialized, legacy_to_witness (coinbase1 ++ extranonce ++ coinbase2) witness_item = .ok serialized ∧
      Tx.read_segwit.run serialized = .ok
        ((⟨version, [coinbase_input (script_start ++ extranonce ++ tag) sequence], outputs, lock_time⟩,
          [[witness_item]]), [])

theorem coinbase_parses {script_start extranonce tag coinbase1 : Bytes} {version : UInt32}
    (sequence lock_time : UInt32) {outputs required_outputs : List CoinbaseOutput}
    (hcoinbase1 : build_coinbase1 script_start extranonce.length tag version = .ok coinbase1)
    (hcount : (outputs ++ required_outputs).length < 2 ^ 64)
    (hscripts : ∀ output ∈ outputs ++ required_outputs, output.script.length < 2 ^ 64) :
    CoinbaseParses script_start extranonce tag coinbase1
      (bitcoin.build_coinbase2 outputs required_outputs tag sequence lock_time) version sequence lock_time
      (outputs ++ required_outputs) := by
  have hhalves (witness_item : Option Bytes) :=
    coinbase_halves sequence lock_time outputs required_outputs witness_item hcoinbase1 rfl
  have hscript : (script_start ++ extranonce ++ tag).length < 2 ^ 64 := by
    have hlength := (hhalves none).2
    rw [kMaxScriptSig] at hlength
    omega
  constructor
  · rw [(hhalves none).1]
    exact (coinbase_legacy_read hscript hcount hscripts).run
  · intro witness_item hitem
    refine ⟨(coinbase_transaction version (script_start ++ extranonce ++ tag) sequence
      (outputs ++ required_outputs) lock_time (some witness_item)).serialize, ?_, ?_⟩
    · rw [(hhalves (some witness_item)).1]
      exact legacy_to_witness_eq (le32_bytes_length version) (le32_bytes_length lock_time) hitem rfl
    · exact (coinbase_segwit_read hscript hcount hscripts (by rw [hitem]; decide)).run

/-- A coinbase of any outputs, donation and scripts is a transaction that pays the coinbase
value to the miner and the donation and then makes the required outputs. A job fills its second
half so, and its own donation is within a value that doubles hold. Counts and sizes are those a
`size_t` can hold. -/
theorem coinbase_pays_in_order {script_start extranonce tag payout_script : Bytes}
    {donation : Option CoinbaseOutput} {required_outputs : List CoinbaseOutput} {coinbase_value : UInt64}
    (version sequence lock_time : UInt32)
    (hsize : script_start.length + extranonce.length + tag.length ≤ kMaxScriptSig)
    (hdonation : ∀ output ∈ donation, output.value ≤ coinbase_value)
    (hcount : (coinbase_outputs coinbase_value payout_script donation ++ required_outputs).length < 2 ^ 64)
    (hscripts : ∀ output ∈ coinbase_outputs coinbase_value payout_script donation ++ required_outputs,
      output.script.length < 2 ^ 64) :
    (∃ coinbase1, build_coinbase1 script_start extranonce.length tag version = .ok coinbase1 ∧
      CoinbaseParses script_start extranonce tag coinbase1
        (bitcoin.build_coinbase2 (coinbase_outputs coinbase_value payout_script donation) required_outputs tag
          sequence lock_time) version sequence lock_time
        (coinbase_outputs coinbase_value payout_script donation ++ required_outputs)) ∧
    ((coinbase_outputs coinbase_value payout_script donation).map fun output => output.value.toNat).sum =
      coinbase_value.toNat ∧
    ∀ job : Job, job.build_coinbase2 payout_script =
        bitcoin.build_coinbase2 (coinbase_outputs job.coinbase_value payout_script job.donation)
          job.coinbase_required_outputs job.tag job.coinbase_sequence job.coinbase_lock_time ∧
      (job.donation_percent ≤ 100 → job.coinbase_value.toNat ≤ 2 ^ 51 →
        ∀ output ∈ job.donation, output.value ≤ job.coinbase_value) := by
  refine ⟨?_, coinbase_outputs_value payout_script hdonation, ?_⟩
  · have hbuilt : ∃ coinbase1, build_coinbase1 script_start extranonce.length tag version = .ok coinbase1 := by
      unfold build_coinbase1
      rw [if_neg (Nat.not_lt.mpr hsize)]
      exact ⟨_, rfl⟩
    obtain ⟨coinbase1, hcoinbase1⟩ := hbuilt
    exact ⟨coinbase1, hcoinbase1, coinbase_parses sequence lock_time hcoinbase1 hcount hscripts⟩
  · exact fun job => ⟨job.build_coinbase2_eq payout_script, job.donation_le⟩

/-- A coinbase of 50 coins, two of a hundred parts of them donated, with a commitment output. -/
theorem coinbase_pays_in_order_donated :
    ∃ coinbase1, build_coinbase1 [0x51] 4 [0x2f] 2 = .ok coinbase1 ∧
      CoinbaseParses [0x51] [0, 0, 0, 1] [0x2f] coinbase1
        (bitcoin.build_coinbase2 (coinbase_outputs 5000000000 [0x51] (some ⟨100000000, [0x52]⟩)) [⟨0, [0x6a]⟩] [0x2f]
          0xffffffff 0) 2 0xffffffff 0 [⟨4900000000, [0x51]⟩, ⟨100000000, [0x52]⟩, ⟨0, [0x6a]⟩] :=
  (@coinbase_pays_in_order [0x51] [0, 0, 0, 1] [0x2f] [0x51] (some ⟨100000000, [0x52]⟩) [⟨0, [0x6a]⟩] 5000000000 2
    0xffffffff 0 (by decide) (by decide) (by decide) (by decide)).1

end erikslund.stratum
