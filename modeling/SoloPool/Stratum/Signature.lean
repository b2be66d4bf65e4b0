import SoloPool.Lib.Delimited
import SoloPool.Stratum.Block

namespace erikslund.stratum

open util bitcoin List

/-- A required output as the signature writes it. -/
def output_text (output : CoinbaseOutput) : Text := to_string output.value.toNat ++ ':' :: to_hex output.script

/-- The fields of the signature that every job has, after its parent. -/
def Job.fixed_fields (job : Job) : List Text :=
  [job.version_hex, job.nbits_hex, job.ntime_hex, job.coinbase1_hex, to_hex job.tag,
    to_string job.coinbase_value.toNat, to_string job.coinbase_sequence.toNat, to_string job.coinbase_lock_time.toNat]

/-- The fields whose number varies: the witness if there is one, the outputs, the branch. -/
def Job.other_fields (job : Job) : List Text :=
  (job.coinbase_witness.map to_hex).toList ++ job.coinbase_required_outputs.map output_text ++ job.merkle_branch_hex

/-- For any payout, extranonce, time, nonce and version the jobs build the same coinbase, in both
its forms, and the same header. -/
def Job.SameWork (job job' : Job) : Prop :=
  ∀ payout_script extranonce ntime nonce version,
    job.coinbase payout_script extranonce = job'.coinbase payout_script extranonce ∧
      job.block_coinbase (job.coinbase payout_script extranonce) =
        job'.block_coinbase (job'.coinbase payout_script extranonce) ∧
      job.build_header (job.merkle_root payout_script extranonce) ntime nonce version =
        job'.build_header (job'.merkle_root payout_script extranonce) ntime nonce version

theorem output_text_injective : Function.Injective output_text := by
  intro output output' h
  have hwritten (output : CoinbaseOutput) : output_text output =
      to_string output.value.toNat ++ [to_hex output.script].flatMap (fun field => ':' :: field) := by
    simp [output_text]
  have hfree (output : CoinbaseOutput) :
      ∀ text ∈ [to_string output.value.toNat, to_hex output.script], ':' ∉ text := by
    intro text hmem
    rcases mem_pair.mp hmem with rfl | rfl
    · exact to_string_free _ rfl
    · exact (hexDigits_to_hex _).free (by decide)
  rw [hwritten, hwritten] at h
  obtain ⟨hvalue, hscript⟩ := Delimited.fields_inj (hfree output) (hfree output') h
  have hvalues := UInt64.toNat_inj.mp (to_string_injective hvalue)
  have hscripts := to_hex_injective (singleton_inj.mp hscript)
  cases output
  cases output'
  exact CoinbaseOutput.mk.injEq .. ▸ ⟨hvalues, hscripts⟩

namespace Job

variable {job job' : Job}

theorem work_signature_eq (job : Job) : job.work_signature =
    job.prevhash_stratum ++ (job.fixed_fields ++ job.other_fields).flatMap (fun field => '|' :: field) := by
  cases hwitness : job.coinbase_witness <;>
    simp only [work_signature, hwitness, fixed_fields, other_fields, output_text, Option.map_none, Option.map_some,
      Option.toList_none, Option.toList_some, flatMap_append, flatMap_cons,
      flatMap_map, append_assoc, cons_append, nil_append]

/-- No field contains the separator. -/
theorem fields_free (hnbits : HexDigits job.nbits_hex) :
    ∀ text ∈ job.prevhash_stratum :: (job.fixed_fields ++ job.other_fields), '|' ∉ text := by
  have hhex (data : Bytes) : '|' ∉ to_hex data := (hexDigits_to_hex data).free (by decide)
  have hdecimal (value : Nat) : '|' ∉ to_string value := to_string_free value rfl
  have hformat (value : Nat) : '|' ∉ format_08x value := (hexDigits_format_08x value).free (by decide)
  have houtput (output : CoinbaseOutput) : '|' ∉ output_text output := by
    simp only [output_text, mem_append, mem_cons, not_or]
    exact ⟨hdecimal _, by decide, hhex _⟩
  have hfixed : ∀ text ∈ job.fixed_fields, '|' ∉ text := by
    simp only [fixed_fields, forall_mem_cons, not_mem_nil, false_implies, implies_true, and_true]
    exact ⟨hformat _, hnbits.free (by decide), hformat _, hhex _, hhex _, hdecimal _, hdecimal _, hdecimal _⟩
  have hother : ∀ text ∈ job.other_fields, '|' ∉ text := by
    simp only [other_fields, merkle_branch_hex, mem_append, Option.mem_toList,
      Option.map_eq_some_iff, mem_map]
    rintro text ((⟨witness, -, rfl⟩ | ⟨output, -, rfl⟩) | ⟨node, -, rfl⟩)
    · exact hhex _
    · exact houtput _
    · exact hhex _
  exact forall_mem_cons.mpr ⟨hhex _, forall_mem_append.mpr ⟨hfixed, hother⟩⟩

/-- The fields whose number varies say which of them are which. -/
theorem other_fields_inj (hpaired : job.coinbase_witness.isSome = true → job.coinbase_required_outputs ≠ [])
    (hpaired' : job'.coinbase_witness.isSome = true → job'.coinbase_required_outputs ≠ [])
    (h : job.other_fields = job'.other_fields) :
    job.coinbase_witness = job'.coinbase_witness ∧ job.coinbase_required_outputs = job'.coinbase_required_outputs ∧
      job.merkle_branch = job'.merkle_branch := by
  -- only an output has a colon
  have hhex (data : Bytes) : decide (':' ∈ to_hex data) = false :=
    decide_eq_false ((hexDigits_to_hex data).free (by decide))
  have hwitness (job : Job) : ∀ text ∈ (job.coinbase_witness.map to_hex).toList, decide (':' ∈ text) = false := by
    intro text hmem
    obtain ⟨witness, -, rfl⟩ := Option.map_eq_some_iff.mp (Option.mem_toList.mp hmem)
    exact hhex _
  have houtputs (job : Job) : ∀ text ∈ job.coinbase_required_outputs.map output_text, decide (':' ∈ text) = true := by
    intro text hmem
    obtain ⟨output, -, rfl⟩ := mem_map.mp hmem
    exact decide_eq_true (mem_append_right _ mem_cons_self)
  have hbranch (job : Job) : ∀ text ∈ job.merkle_branch_hex, decide (':' ∈ text) = false := by
    intro text hmem
    obtain ⟨node, -, rfl⟩ := mem_map.mp hmem
    exact hhex _
  have hpair {job : Job} (hpaired : job.coinbase_witness.isSome = true → job.coinbase_required_outputs ≠ []) :
      (job.coinbase_witness.map to_hex).toList ≠ [] → job.coinbase_required_outputs.map output_text ≠ [] := by
    intro hne
    rw [Ne, map_eq_nil_iff]
    refine hpaired ?_
    cases hsome : job.coinbase_witness with
    | none => simp [hsome] at hne
    | some witness => rfl
  obtain ⟨hwitnesses, htexts, hbranches⟩ := Delimited.sections_inj (hwitness job) (hwitness job') (houtputs job)
    (houtputs job') (hbranch job) (hbranch job') (hpair hpaired) (hpair hpaired') h
  refine ⟨?_, map_injective_iff.mpr output_text_injective htexts, ?_⟩
  · refine Option.map_injective to_hex_injective ?_
    simpa only [Option.head?_toList] using congrArg head? hwitnesses
  · refine map_injective_iff.mpr ?_ hbranches
    exact fun node node' heq => Subtype.ext (to_hex_injective heq)

/-- Jobs whose fields agree in what the signature writes do the same work. -/
theorem same_work_of_signature (hnbits : try_parse_hex_u32 job.nbits_hex = some job.bits)
    (hnbits' : try_parse_hex_u32 job'.nbits_hex = some job'.bits)
    (hpaired : job.coinbase_witness.isSome = true → job.coinbase_required_outputs ≠ [])
    (hpaired' : job'.coinbase_witness.isSome = true → job'.coinbase_required_outputs ≠ [])
    (hscript : job.donation_script = job'.donation_script) (hpercent : job.donation_percent = job'.donation_percent)
    (h : job.work_signature = job'.work_signature) : job.SameWork job' := by
  rw [work_signature_eq, work_signature_eq] at h
  obtain ⟨hparent, hfields⟩ := Delimited.fields_inj (fields_free (hexDigits_of_parse hnbits))
    (fields_free (hexDigits_of_parse hnbits')) h
  obtain ⟨hfixed, hother⟩ := append_inj hfields rfl
  simp only [fixed_fields, List.cons.injEq, and_true] at hfixed
  obtain ⟨-, hbits, -, hcoinbase1, htag, hvalue, hsequence, hlock_time⟩ := hfixed
  obtain ⟨hwitness, houtputs, hbranch⟩ := other_fields_inj hpaired hpaired' hother
  have hparents := prevhash_stratum_inj.mp hparent
  have hsame_bits : job.bits = job'.bits := by
    rw [hbits] at hnbits
    exact Option.some.inj (hnbits.symm.trans hnbits')
  have hvalues := UInt64.toNat_inj.mp (to_string_injective hvalue)
  have hsequences := UInt32.toNat_inj.mp (to_string_injective hsequence)
  have hlock_times := UInt32.toNat_inj.mp (to_string_injective hlock_time)
  have hcoinbase (payout_script extranonce : Bytes) :
      job.coinbase payout_script extranonce = job'.coinbase payout_script extranonce := by
    simp only [coinbase, build_coinbase2, donation_amount, to_hex_injective hcoinbase1, to_hex_injective htag, hvalues, hsequences,
      hlock_times, houtputs, hscript, hpercent]
  intro payout_script extranonce ntime nonce version
  refine ⟨hcoinbase _ _, ?_, ?_⟩
  · rw [hcoinbase, block_coinbase, block_coinbase, hwitness]
  · rw [build_header, build_header, merkle_root, merkle_root, hcoinbase, hbranch, hparents, hsame_bits]

/-- The same for jobs built from templates whose witness comes with an output. -/
theorem BuiltFrom.same_work {job_id job_id' : Text} {block_template block_template' : BlockTemplate} {tag tag' : Bytes}
    {extranonce1_size extranonce1_size' extranonce2_size extranonce2_size' : Nat}
    {coinbase_version coinbase_version' : UInt32} {donation_script : Bytes} {donation_percent : ℚ}
    (hbuilt : job.BuiltFrom job_id block_template tag extranonce1_size extranonce2_size coinbase_version
      donation_script donation_percent)
    (hbuilt' : job'.BuiltFrom job_id' block_template' tag' extranonce1_size' extranonce2_size' coinbase_version'
      donation_script donation_percent)
    (htemplate : block_template.Valid ∧ block_template.Paired)
    (htemplate' : block_template'.Valid ∧ block_template'.Paired)
    (h : job.work_signature = job'.work_signature) : job.SameWork job' := by
  refine same_work_of_signature ?_ ?_ ?_ ?_ ?_ ?_ h
  · rw [hbuilt.nbits_hex, hbuilt.bits]
    exact htemplate.1.parsed
  · rw [hbuilt'.nbits_hex, hbuilt'.bits]
    exact htemplate'.1.parsed
  · rw [hbuilt.coinbase_witness, hbuilt.required_outputs]
    exact htemplate.2
  · rw [hbuilt'.coinbase_witness, hbuilt'.required_outputs]
    exact htemplate'.2
  · rw [hbuilt.donation_script, hbuilt'.donation_script]
  · rw [hbuilt.donation_percent, hbuilt'.donation_percent]

end Job

end erikslund.stratum
