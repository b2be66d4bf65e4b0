import SoloPool.Stratum.Job

namespace erikslund.stratum

open util bitcoin List

theorem swap_words_swap_words : ∀ bytes : Bytes, swap_words (swap_words bytes) = bytes
  | a :: b :: c :: d :: rest => by rw [swap_words, swap_words, swap_words_swap_words rest]
  | [] => rfl
  | [_] => rfl
  | [_, _] => rfl
  | [_, _, _] => rfl

theorem swap_words_length : ∀ bytes : Bytes, (swap_words bytes).length = bytes.length
  | a :: b :: c :: d :: rest => by
    rw [swap_words]
    simp only [length_cons, swap_words_length rest]
  | [] => rfl
  | [_] => rfl
  | [_, _] => rfl
  | [_, _, _] => rfl

namespace Job

variable {job job' : Job}

/-- Jobs announce the same parent only when they have the same parent. -/
theorem prevhash_stratum_inj : job.prevhash_stratum = job'.prevhash_stratum ↔
    job.prevhash_internal = job'.prevhash_internal := by
  refine ⟨fun h => Subtype.ext ?_, fun h => by rw [prevhash_stratum, h, prevhash_stratum]⟩
  have hswapped := congrArg swap_words (to_hex_injective h)
  rwa [swap_words_swap_words, swap_words_swap_words] at hswapped

theorem prevhash_stratum_length (job : Job) : job.prevhash_stratum.length = 64 := by
  rw [prevhash_stratum, to_hex_length, swap_words_length, job.prevhash_internal.property]

/-- Work that is byte-identical has the same parent. -/
theorem prevhash_stratum_of_work_signature (h : job.work_signature = job'.work_signature) :
    job.prevhash_stratum = job'.prevhash_stratum := by
  simp only [work_signature, append_assoc] at h
  exact append_inj_left h (by rw [prevhash_stratum_length, prevhash_stratum_length])

theorem mines_on_iff {tip : Text} : job.mines_on tip = true ↔
    ∃ display, from_hex tip = .ok display ∧ reversed display = job.prevhash_internal.val := by
  unfold mines_on
  cases from_hex tip <;> simp

theorem mines_on_congr (h : job.prevhash_stratum = job'.prevhash_stratum) (tip : Text) :
    job.mines_on tip = job'.mines_on tip := by
  simp only [mines_on, prevhash_stratum_inj.mp h]

theorem prevhash_stratum_of_mines_on {tip : Text} (h : job.mines_on tip = true) (h' : job'.mines_on tip = true) :
    job.prevhash_stratum = job'.prevhash_stratum := by
  obtain ⟨display, hdisplay, hparent⟩ := mines_on_iff.mp h
  obtain ⟨display', hdisplay', hparent'⟩ := mines_on_iff.mp h'
  cases hdisplay.symm.trans hdisplay'
  exact prevhash_stratum_inj.mpr (Subtype.ext (hparent.symm.trans hparent'))

/-- What the constructor takes over from its arguments. -/
structure BuiltFrom (job_id : Text) (template : BlockTemplate) (tag : Bytes)
    (extranonce1_size extranonce2_size : Nat) (coinbase_version : UInt32) (donation_script : Bytes)
    (donation_percent : ℚ) (job : Job) : Prop where
  coinbase1 : build_coinbase1 template.coinbase_script_sig_prefix (extranonce1_size + extranonce2_size) tag
    (template.coinbase_version.getD coinbase_version) = .ok job.coinbase1
  job_id : job.job_id = job_id
  parent : from_hex template.previousblockhash = .ok (reversed job.prevhash_internal.val)
  height : job.height = template.height
  version : job.version = template.version
  curtime : job.curtime = template.curtime
  bits : job.bits = template.bits
  nbits_hex : job.nbits_hex = template.bits_hex
  coinbase_value : job.coinbase_value = template.coinbase_value
  coinbase_sequence : job.coinbase_sequence = template.coinbase_sequence
  coinbase_lock_time : job.coinbase_lock_time = template.coinbase_lock_time
  coinbase_witness : job.coinbase_witness = template.coinbase_witness
  required_outputs : job.coinbase_required_outputs = template.coinbase_required_outputs
  tag : job.tag = tag
  extranonce_size : job.extranonce_size = extranonce1_size + extranonce2_size
  extranonce2_size : job.extranonce2_size = extranonce2_size
  donation_script : job.donation_script = donation_script
  donation_percent : job.donation_percent = donation_percent
  txn_count : job.txn_count = template.txn_count
  txn_data : job.txn_data = template.txn_data
  merkle_branch : job.merkle_branch = template.merkle_branch_internal

variable {template : BlockTemplate} {tag : Bytes} {extranonce1_size extranonce2_size : Nat}

theorem new_spec {job_id : Text}
    {coinbase_version : UInt32} {clean : Bool} {donation_script : Bytes}
    {donation_percent : ℚ}
    (hnew : Job.new job_id template tag extranonce1_size extranonce2_size coinbase_version clean donation_script
      donation_percent = .ok job) :
    BuiltFrom job_id template tag extranonce1_size extranonce2_size coinbase_version donation_script
      donation_percent job := by
  unfold Job.new at hnew
  split at hnew
  · cases hnew
  rename_i display hdisplay
  split at hnew
  · split at hnew
    · cases hnew
    split at hnew
    · cases hnew
    · rename_i coinbase1 hbuilt
      cases hnew
      have hparent : from_hex template.previousblockhash = .ok (reversed (reversed display)) := by
        rw [hdisplay, reversed, reversed, reverse_reverse]
      constructor <;> first | exact hparent | exact hbuilt | rfl
  · cases hnew

/-- The constructor succeeds on a 32-byte parent and a script that fits. -/
theorem new_exists {display : Bytes}
    (hparent : from_hex template.previousblockhash = .ok display) (hlength : display.length = 32)
    (hscript : template.coinbase_script_sig_prefix.isEmpty = false)
    (hfits : template.coinbase_script_sig_prefix.length + (extranonce1_size + extranonce2_size) + tag.length ≤
      kMaxScriptSig)
    (job_id : Text) (coinbase_version : UInt32) (clean : Bool) (donation_script : Bytes) (donation_percent : ℚ) :
    ∃ job, Job.new job_id template tag extranonce1_size extranonce2_size coinbase_version clean donation_script
      donation_percent = .ok job := by
  have hreversed : (reversed display).length = 32 := by rw [reversed, length_reverse, hlength]
  unfold Job.new
  rw [hparent]
  simp only [hreversed, dif_pos, hscript, Bool.false_eq_true, if_false]
  split
  · rename_i message hbuilt
    rw [bitcoin.build_coinbase1, if_neg (Nat.not_lt.mpr hfits)] at hbuilt
    cases hbuilt
  · exact ⟨_, rfl⟩

theorem new_ok {job_id : Text}
    {coinbase_version : UInt32} {clean : Bool} {donation_script : Bytes} {donation_percent : ℚ}
    (hnew : Job.new job_id template tag extranonce1_size extranonce2_size coinbase_version clean donation_script
      donation_percent = .ok job) :
    job.job_id = job_id ∧ job.mines_on template.previousblockhash = true := by
  have hbuilt := new_spec hnew
  refine ⟨hbuilt.job_id, mines_on_iff.mpr ⟨_, hbuilt.parent, ?_⟩⟩
  rw [reversed, reversed, reverse_reverse]

end Job

end erikslund.stratum
