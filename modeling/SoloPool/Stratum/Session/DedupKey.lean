import SoloPool.Lib.Delimited
import SoloPool.Stratum.Validators
import SoloPool.Stratum.Session.Dispatch

/-! What the key of a submission says about the header it is hashed into. -/

namespace erikslund.stratum

open util bitcoin List

theorem nibbles_split {high low : UInt8} (hhigh : high.toNat < 16) (hlow : low.toNat < 16) :
    (high <<< 4 ||| low) >>> 4 = high ∧ (high <<< 4 ||| low) &&& 0x0f = low := by
  have hall : ∀ high low : Fin 16,
      (UInt8.ofNat high.val <<< 4 ||| UInt8.ofNat low.val) >>> 4 = UInt8.ofNat high.val ∧
        (UInt8.ofNat high.val <<< 4 ||| UInt8.ofNat low.val) &&& 0x0f = UInt8.ofNat low.val := by decide +kernel
  simpa using hall ⟨high.toNat, hhigh⟩ ⟨low.toNat, hlow⟩

theorem try_from_hex_append_lower : ∀ text : Text, try_from_hex (append_lower text) = try_from_hex text
  | [] | [_] => rfl
  | high :: low :: rest => by
    have hrest : try_from_hex (rest.map Char.toLower) = try_from_hex rest := try_from_hex_append_lower rest
    simp only [append_lower, map_cons, try_from_hex, (lower_digit high).1, (lower_digit low).1, hrest]

/-- Lower-cased, a text that decodes is the text `to_hex` writes. -/
theorem append_lower_eq_to_hex : ∀ {text : Text} {bytes : Bytes}, try_from_hex text = some bytes →
    append_lower text = to_hex bytes
  | [], bytes, h => by
    cases h
    rfl
  | [_], bytes, h => by cases h
  | high :: low :: rest, bytes, h => by
    cases hhigh : hex_nibble high with
    | none => simp [try_from_hex, hhigh] at h
    | some nibble =>
      cases hlow : hex_nibble low with
      | none => simp [try_from_hex, hlow] at h
      | some nibble' =>
        cases hrest : try_from_hex rest with
        | none => simp [try_from_hex, hrest] at h
        | some bytes' =>
          simp only [try_from_hex, hhigh, hlow, hrest, Option.some.injEq] at h
          subst h
          have htail : rest.map Char.toLower = to_hex bytes' := append_lower_eq_to_hex hrest
          have hbyte := nibbles_split (hex_nibble_lt hhigh) (hex_nibble_lt hlow)
          simp only [append_lower, map_cons, to_hex, toLower_eq_hex_char hhigh, toLower_eq_hex_char hlow, htail,
            hbyte.1, hbyte.2]

variable {text : Text} {value : UInt32}

/-- A key field of hexadecimal text names the bytes the text decodes to. -/
theorem append_lower_iff {bytes : Bytes} :
    append_lower text = to_hex bytes ↔ try_from_hex text = some bytes := by
  refine ⟨fun h => ?_, append_lower_eq_to_hex⟩
  rw [← try_from_hex_append_lower, h, try_from_hex_to_hex]

theorem hexDigits_append_lower : HexDigits (append_lower text) ↔ HexDigits text := by
  simp only [HexDigits, append_lower, forall_mem_map, (lower_digit _).1]

theorem hex_value_append_lower (text : Text) : hex_value (append_lower text) = hex_value text := by
  simp only [hex_value, append_lower, foldl_map, (lower_digit _).1]

theorem append_lower_append (text text' : Text) :
    append_lower (text ++ text') = append_lower text ++ append_lower text' := map_append

theorem append_lower_digits (value : Nat) : append_lower (Nat.toDigits 16 value) = Nat.toDigits 16 value := by
  have hdigit : ∀ digit : Fin 16, (Nat.digitChar digit.val).toLower = Nat.digitChar digit.val := by decide
  induction value using Nat.strong_induction_on with
  | _ value ih =>
    rw [Nat.toDigits_eq_if (by decide)]
    split
    · rename_i hsmall
      exact congrArg (fun c => [c]) (hdigit ⟨value, hsmall⟩)
    · rw [append_lower_append, ih (value / 16) (by omega)]
      exact congrArg (fun c => Nat.toDigits 16 (value / 16) ++ [c]) (hdigit ⟨value % 16, Nat.mod_lt _ (by decide)⟩)

theorem hex_value_lt (text : Text) : hex_value text < 16 ^ text.length := by
  induction text using reverseRecOn with
  | nil => decide
  | append_singleton text digit ih =>
    have hdigit : ((hex_nibble digit).getD 0).toNat < 16 := by
      cases hnibble : hex_nibble digit with
      | none => decide
      | some nibble => exact hex_nibble_lt hnibble
    rw [hex_value_append, length_append, length_singleton, pow_succ]
    omega

/-- What a text that parses denotes. -/
theorem hex_value_of_parse (h : try_parse_hex_u32 text = some value) :
    text.length ≤ 8 ∧ hex_value text = value.toNat := by
  have hfits : ¬ (text.isEmpty = true ∨ text.length > 8) := by
    intro hbad
    rw [try_parse_hex_u32, if_pos hbad] at h
    cases h
  rw [isEmpty_iff_length_eq_zero] at hfits
  have hlt := (hex_value_lt text).trans_le (Nat.pow_le_pow_right (by decide) (by omega : text.length ≤ 8))
  rw [try_parse_hex_u32_eq (hexDigits_of_parse h) (by omega) (by omega), Option.some.injEq] at h
  refine ⟨by omega, ?_⟩
  rw [← h, UInt32.toNat_ofNat_of_lt' hlt]

/-- Texts of equally many digits that denote one number differ in case only. -/
theorem append_lower_eq_of_hex_value {text' : Text} (hdigits : HexDigits text) (hdigits' : HexDigits text')
    (hlength : text.length = text'.length) (hvalue : hex_value text = hex_value text') :
    append_lower text = append_lower text' := by
  -- The last digit is the remainder by sixteen, so the texts are compared from the right.
  induction text using reverseRecOn generalizing text' with
  | nil => rw [length_eq_zero_iff.mp hlength.symm]
  | append_singleton text digit ih =>
    cases text' using reverseRecOn with
    | nil => simp at hlength
    | append_singleton text' digit' =>
      obtain ⟨nibble, hnibble⟩ := Option.isSome_iff_exists.mp (hdigits digit (by simp))
      obtain ⟨nibble', hnibble'⟩ := Option.isSome_iff_exists.mp (hdigits' digit' (by simp))
      have hlt := hex_nibble_lt hnibble
      have hlt' := hex_nibble_lt hnibble'
      rw [hex_value_append, hex_value_append, hnibble, hnibble', Option.getD_some, Option.getD_some] at hvalue
      have hrest : append_lower text = append_lower text' := by
        apply ih (fun c hmem => hdigits c (mem_append_left _ hmem))
          (fun c hmem => hdigits' c (mem_append_left _ hmem)) (by simpa using hlength)
        omega
      have hsame : nibble = nibble' := UInt8.toNat_inj.mp (by omega)
      rw [append_lower_append, append_lower_append, hrest]
      simp only [append_lower, map_cons, map_nil, toLower_eq_hex_char hnibble, toLower_eq_hex_char hnibble',
        hsame]

theorem append_lower_zeros (count : Nat) : append_lower (replicate count '0') = replicate count '0' := by
  simp [append_lower]

theorem append_lower_format_08x (value : Nat) : append_lower (format_08x value) = format_08x value := by
  rw [format_08x, append_lower_append, append_lower_digits, append_lower_zeros]

/-- The text that the padding of a key field makes of an empty one. -/
def zero_filled (text : Text) : Text := if text.isEmpty then ['0'] else text

theorem zero_filled_of_parse (h : try_parse_hex_u32 text = some value) :
    zero_filled text = text := by
  cases text with
  | nil => cases h
  | cons character rest => rfl

theorem append_canonical_hex_zero_filled (text : Text) :
    append_canonical_hex (zero_filled text) 8 = append_canonical_hex text 8 := by
  cases text with
  | nil => decide
  | cons character rest => rfl

/-- A key field of a text that parses is the number in eight digits. -/
theorem append_canonical_hex_of_parse (h : try_parse_hex_u32 text = some value) :
    append_canonical_hex text 8 = format_08x value.toNat := by
  obtain ⟨hlength, hvalue⟩ := hex_value_of_parse h
  have hpadded : HexDigits (replicate (8 - text.length) '0' ++ text) := by
    intro c hmem
    rcases mem_append.mp hmem with hmem | hmem
    · rw [eq_of_mem_replicate hmem]
      decide
    · exact hexDigits_of_parse h c hmem
  have hlower := append_lower_eq_of_hex_value hpadded (hexDigits_format_08x value.toNat)
    (by rw [length_append, length_replicate, format_08x_length]; omega)
    (by rw [hex_value_zeros, format_08x, hex_value_zeros, hex_value_digits, hvalue])
  rwa [append_lower_append, append_lower_zeros, append_lower_format_08x] at hlower

/-- A zero-padded key field names the number its text parses as; an empty text, which does not
parse, is taken for zero. -/
theorem append_canonical_hex_iff :
    append_canonical_hex text 8 = format_08x value.toNat ↔ try_parse_hex_u32 (zero_filled text) = some value := by
  rw [← append_canonical_hex_zero_filled]
  refine ⟨fun h => ?_, append_canonical_hex_of_parse⟩
  have hpos : 0 < (zero_filled text).length := by cases text <;> simp [zero_filled]
  generalize zero_filled text = text at h hpos ⊢
  have hvalue : hex_value text = value.toNat := by
    have hvalues := congrArg hex_value h
    rwa [append_canonical_hex, hex_value_zeros, hex_value_append_lower, format_08x, hex_value_zeros,
      hex_value_digits] at hvalues
  have hlength : text.length ≤ 8 := by
    have hformat := format_08x_length value
    rw [← h] at hformat
    simp only [append_canonical_hex, append_lower, length_append, length_replicate, length_map] at hformat
    omega
  have hdigits : HexDigits text := by
    rw [← hexDigits_append_lower]
    intro c hmem
    apply hexDigits_format_08x value.toNat c
    rw [← h]
    exact mem_append_right _ hmem
  rw [try_parse_hex_u32_eq hdigits hpos hlength, hvalue, UInt32.ofNat_toNat]

/-- What a submission is hashed with, decoded: the bytes after extranonce1, and three header
fields. -/
structure Decoded where
  extranonce2 : Bytes
  ntime : UInt32
  nonce : UInt32
  version : UInt32
deriving DecidableEq

/-- The checks `validate_share` makes of the syntax and the size of the fields, and of the
version mask. -/
def Submission.decode (job : Job) (submission : Submission) : Option Decoded := do
  let extranonce2 ← try_from_hex submission.extranonce2
  let ntime ← try_parse_hex_u32 submission.ntime
  let nonce ← try_parse_hex_u32 submission.nonce
  let version ← (job.rolled_version submission.version_bits submission.version_mask).toOption
  if extranonce2.length = job.extranonce2_size then some ⟨extranonce2, ntime, nonce, version⟩ else none

section Decoding

variable {job : Job} {submission : Submission} {decoded : Decoded}

theorem Submission.decode_eq_some : submission.decode job = some decoded ↔
    try_from_hex submission.extranonce2 = some decoded.extranonce2 ∧
      try_parse_hex_u32 submission.ntime = some decoded.ntime ∧
      try_parse_hex_u32 submission.nonce = some decoded.nonce ∧
      job.rolled_version submission.version_bits submission.version_mask = .ok decoded.version ∧
      decoded.extranonce2.length = job.extranonce2_size := by
  constructor
  · intro h
    simp only [decode, Option.bind_eq_bind, Option.bind_eq_some_iff] at h
    obtain ⟨extranonce2, hextranonce2, ntime, hntime, nonce, hnonce, version, hversion, h⟩ := h
    split at h
    · cases h
      refine ⟨hextranonce2, hntime, hnonce, ?_, by assumption⟩
      cases hrolled : job.rolled_version submission.version_bits submission.version_mask with
      | error reason => simp [hrolled, Except.toOption] at hversion
      | ok rolled => simpa [hrolled, Except.toOption] using hversion
    · cases h
  · rintro ⟨hextranonce2, hntime, hnonce, hversion, hsize⟩
    simp [decode, hextranonce2, hntime, hnonce, hversion, hsize, Except.toOption]

variable {payout_script extranonce1 : Bytes} {share_target : uint256} {now_unix : Int}

/-- `validate_share` on a submission that passes them goes on to the ntime window and the
hash of its header. -/
theorem validate_share_of_decode (h : submission.decode job = some decoded) :
    job.validate_share (submission.input (job.build_coinbase2 payout_script) extranonce1 share_target now_unix) =
      job.validate_work payout_script (extranonce1 ++ decoded.extranonce2) decoded.ntime decoded.nonce decoded.version
        share_target now_unix := by
  obtain ⟨hextranonce2, hntime, hnonce, hversion, hsize⟩ := Submission.decode_eq_some.mp h
  exact Job.validate_share_eq hextranonce2 hsize hntime hnonce hversion

/-- Whatever `validate_share` accepts has passed them. -/
theorem decode_of_validate_share {result : ShareResult}
    (h : job.validate_share (submission.input (job.build_coinbase2 payout_script) extranonce1 share_target now_unix) =
      .ok result) : (submission.decode job).isSome = true := by
  rw [Submission.input] at h
  simp only [Job.validate_share] at h
  split at h
  · cases h
  split at h
  · rename_i extranonce2 ntime nonce hextranonce2 hntime hnonce
    split at h
    · cases h
    rename_i hsize
    split at h
    · cases h
    split at h
    · cases h
    rename_i version hversion
    have hdecoded : submission.decode job = some ⟨extranonce2, ntime, nonce, version⟩ :=
      Submission.decode_eq_some.mpr ⟨hextranonce2, hntime, hnonce, hversion, not_not.mp hsize⟩
    rw [hdecoded, Option.isSome_some]
  · cases h

end Decoding

namespace Decoded

/-- The root over the coinbase with the extranonce of the session and of the submission. -/
def merkle_root (job : Job) (payout_script extranonce1 : Bytes) (decoded : Decoded) : Hash256 :=
  job.merkle_root payout_script (extranonce1 ++ decoded.extranonce2)

/-- The header that is hashed. -/
def header (job : Job) (payout_script extranonce1 : Bytes) (decoded : Decoded) : Bytes :=
  job.build_header (decoded.merkle_root job payout_script extranonce1) decoded.ntime decoded.nonce decoded.version

/-- Unless two coinbases of the job have one root, a header names what was decoded. -/
theorem header_eq_iff {job : Job} {payout_script extranonce1 : Bytes} {decoded decoded' : Decoded}
    (hdistinct : decoded.merkle_root job payout_script extranonce1 = decoded'.merkle_root job payout_script extranonce1 →
      decoded.extranonce2 = decoded'.extranonce2) :
    decoded.header job payout_script extranonce1 = decoded'.header job payout_script extranonce1 ↔
      decoded = decoded' := by
  constructor
  · intro h
    obtain ⟨hversion, -, hroot, hntime, -, hnonce⟩ := Job.build_header_inj h
    have hextranonce2 := hdistinct hroot
    cases decoded
    cases decoded'
    simp only [Decoded.mk.injEq]
    exact ⟨hextranonce2, hntime, hnonce, hversion⟩
  · intro h
    rw [h]

end Decoded

namespace Job

variable {job : Job} {version_mask version : UInt32}

theorem version_with_rolled (job : Job) {rolled : UInt32} (hrolled : rolled &&& ~~~version_mask = 0) :
    job.version_with version_mask rolled &&& version_mask = rolled := by
  have hkept : version_mask &&& rolled = rolled := by
    have hsplit : rolled &&& (version_mask ||| ~~~version_mask) = rolled := by simp
    rwa [and_or_distrib, hrolled, UInt32.or_zero, UInt32.and_comm] at hsplit
  rw [version_with, UInt32.and_comm, and_or_distrib, hkept, UInt32.and_comm job.version, ← UInt32.and_assoc]
  simp

/-- The bits that a version was rolled with. -/
theorem rolled_version_some {bits_hex : Text} (h : job.rolled_version (some bits_hex) version_mask = .ok version) :
    ∃ rolled, try_parse_hex_u32 bits_hex = some rolled ∧ version &&& version_mask = rolled := by
  cases hbits : try_parse_hex_u32 bits_hex with
  | none => simp [rolled_version, hbits] at h
  | some rolled =>
    have hrolled : rolled &&& ~~~version_mask = 0 := by
      by_contra hne
      by_cases hmask : version_mask = 0
      · subst hmask
        have hzero : rolled ≠ 0 := by simpa using hne
        simp [rolled_version, hbits, hzero] at h
      · simp [rolled_version, hbits, hmask, hne] at h
    rw [rolled_version_eq hbits hrolled, Except.ok.injEq] at h
    exact ⟨rolled, rfl, by rw [← h, version_with_rolled job hrolled]⟩

theorem rolled_version_congr {bits bits' : Option Text}
    (h : bits.map try_parse_hex_u32 = bits'.map try_parse_hex_u32) :
    job.rolled_version bits version_mask = job.rolled_version bits' version_mask := by
  cases bits <;> cases bits' <;> simp_all [rolled_version]

/-- Under one mask, a version names the bits it was rolled with. -/
theorem rolled_version_inj {bits bits' : Option Text} (hbits : job.rolled_version bits version_mask = .ok version)
    (hbits' : job.rolled_version bits' version_mask = .ok version) (hpresent : bits.isSome = bits'.isSome) :
    bits.map try_parse_hex_u32 = bits'.map try_parse_hex_u32 := by
  cases bits with
  | none =>
    cases bits' with
    | none => rfl
    | some _ => cases hpresent
  | some text =>
    cases bits' with
    | none => cases hpresent
    | some text' =>
      obtain ⟨rolled, hrolled, hversion⟩ := rolled_version_some hbits
      obtain ⟨rolled', hrolled', hversion'⟩ := rolled_version_some hbits'
      simp only [Option.map_some, hrolled, hrolled', ← hversion, ← hversion']

end Job

namespace Submission

/-- The fields of the key that follow the job id. -/
def key_fields (submission : Submission) : List Text :=
  [append_lower submission.extranonce2, append_canonical_hex submission.ntime 8,
    append_canonical_hex submission.nonce 8,
    (submission.version_bits.map (fun bits => append_canonical_hex bits 8)).getD [],
    format_08x submission.version_mask.toNat]

theorem make_dedup_key_eq (submission : Submission) : submission.make_dedup_key =
    append_lower submission.job_id ++ submission.key_fields.flatMap (fun field => '|' :: field) := by
  simp [make_dedup_key, key_fields]

/-- The submission with its empty numbers written out as zero. -/
def zero_filled (submission : Submission) : Submission :=
  { submission with
    ntime := stratum.zero_filled submission.ntime
    nonce := stratum.zero_filled submission.nonce
    version_bits := submission.version_bits.map stratum.zero_filled }

theorem zero_filled_key (submission : Submission) : submission.zero_filled.make_dedup_key = submission.make_dedup_key := by
  cases hbits : submission.version_bits <;>
    simp [make_dedup_key, zero_filled, append_canonical_hex_zero_filled, hbits]

variable {job : Job} {submission submission' : Submission} {decoded decoded' : Decoded}

theorem zero_filled_of_decode (h : submission.decode job = some decoded) : submission.zero_filled = submission := by
  obtain ⟨-, hntime, hnonce, hversion, -⟩ := decode_eq_some.mp h
  cases submission with
  | mk job_id extranonce2 ntime nonce version_bits version_mask =>
    simp only [zero_filled, zero_filled_of_parse hntime, zero_filled_of_parse hnonce, Submission.mk.injEq, true_and, and_true]
    cases version_bits with
    | none => rfl
    | some bits =>
      obtain ⟨rolled, hrolled, -⟩ := Job.rolled_version_some hversion
      rw [Option.map_some, zero_filled_of_parse hrolled]

/-- Every field of a submission that decodes is free of the separator. -/
theorem key_fields_free (h : submission.decode job = some decoded) : ∀ field ∈ submission.key_fields, '|' ∉ field := by
  obtain ⟨hextranonce2, hntime, hnonce, hversion, -⟩ := decode_eq_some.mp h
  have hdigits : ∀ field ∈ submission.key_fields, HexDigits field := by
    simp only [key_fields, forall_mem_cons, append_lower_eq_to_hex hextranonce2,
      append_canonical_hex_of_parse hntime, append_canonical_hex_of_parse hnonce]
    refine ⟨hexDigits_to_hex _, hexDigits_format_08x _, hexDigits_format_08x _, ?_, hexDigits_format_08x _,
      fun field hmem => absurd hmem not_mem_nil⟩
    cases hbits : submission.version_bits with
    | none => exact fun c hmem => absurd hmem not_mem_nil
    | some bits =>
      rw [hbits] at hversion
      obtain ⟨rolled, hrolled, -⟩ := Job.rolled_version_some hversion
      rw [Option.map_some, Option.getD_some, append_canonical_hex_of_parse hrolled]
      exact hexDigits_format_08x _
  exact fun field hmem => (hdigits field hmem).free (by decide)

theorem append_canonical_hex_ne_nil (text : Text) : append_canonical_hex text 8 ≠ [] := by
  intro h
  have hlength := congrArg List.length h
  simp only [append_canonical_hex, append_lower, length_append, length_replicate, length_map,
    length_nil] at hlength
  omega

/-- The version bits in a key are the number they parse as, and whether there are any. -/
theorem bits_field_iff {bits bits' : Option Text} {version_mask version : UInt32}
    (hbits' : job.rolled_version bits' version_mask = .ok version) :
    (bits.map (fun bits => append_canonical_hex bits 8)).getD [] =
        (bits'.map (fun bits => append_canonical_hex bits 8)).getD [] ↔
      (bits.map stratum.zero_filled).map try_parse_hex_u32 = bits'.map try_parse_hex_u32 := by
  cases bits' with
  | none => cases bits <;> simp [append_canonical_hex_ne_nil]
  | some text' =>
    obtain ⟨rolled', hrolled', -⟩ := Job.rolled_version_some hbits'
    cases bits with
    | none => simp [(append_canonical_hex_ne_nil text').symm]
    | some text =>
      simp only [Option.map_some, Option.getD_some, Option.some.injEq, hrolled', append_canonical_hex_of_parse hrolled',
        append_canonical_hex_iff]

/-- A submission has the key of one that decodes if, with its empty numbers taken for zero, it
decodes to the same under the same mask, and carries version bits if that one does. -/
theorem make_dedup_key_eq_iff (hjob : submission.job_id = submission'.job_id)
    (h' : submission'.decode job = some decoded') :
    submission.make_dedup_key = submission'.make_dedup_key ↔ submission.zero_filled.decode job = some decoded' ∧
      submission.version_mask = submission'.version_mask ∧
      submission.version_bits.isSome = submission'.version_bits.isSome := by
  obtain ⟨hextranonce2', hntime', hnonce', hversion', hsize'⟩ := decode_eq_some.mp h'
  have hkey : submission.make_dedup_key = submission'.make_dedup_key ↔
      submission.key_fields = submission'.key_fields := by
    rw [make_dedup_key_eq, make_dedup_key_eq, hjob, append_cancel_left_eq]
    refine ⟨Delimited.fields_inj_of_free rfl (key_fields_free h'), fun h => ?_⟩
    rw [h]
  have hmasks : format_08x submission.version_mask.toNat = format_08x submission'.version_mask.toNat ↔
      submission.version_mask = submission'.version_mask := by
    rw [format_08x_injective.eq_iff, UInt32.toNat_inj]
  rw [hkey, decode_eq_some]
  simp only [key_fields, List.cons.injEq, and_true, append_lower_eq_to_hex hextranonce2', append_lower_iff,
    append_canonical_hex_of_parse hntime', append_canonical_hex_of_parse hnonce', append_canonical_hex_iff,
    bits_field_iff hversion', hmasks]
  constructor
  · rintro ⟨hextranonce2, hntime, hnonce, hbits, hmask⟩
    have hpresent := congrArg Option.isSome hbits
    simp only [Option.isSome_map] at hpresent
    refine ⟨⟨hextranonce2, hntime, hnonce, ?_, hsize'⟩, hmask, hpresent⟩
    rw [← hversion', ← hmask]
    exact Job.rolled_version_congr hbits
  · rintro ⟨⟨hextranonce2, hntime, hnonce, hversion, -⟩, hmask, hpresent⟩
    refine ⟨hextranonce2, hntime, hnonce, ?_, hmask⟩
    rw [← hmask] at hversion'
    exact Job.rolled_version_inj hversion hversion' (by simpa [zero_filled] using hpresent)

end Submission

/-- Two submissions on a job that pass the checks have one key exactly when they have one header,
unless they decode to the same under different masks or with version bits on one side only. A
submission that fails them has the key of none that passes, unless only an empty number made it
fail. The header is the one `validate_share` hashes and returns for the submission. -/
theorem dedup_key_names_header (job : Job) (payout_script extranonce1 : Bytes) :
    (∀ (submission submission' : Submission) (decoded decoded' : Decoded), submission.job_id = submission'.job_id →
      submission.decode job = some decoded → submission'.decode job = some decoded' →
      (decoded.merkle_root job payout_script extranonce1 = decoded'.merkle_root job payout_script extranonce1 →
        decoded.extranonce2 = decoded'.extranonce2) →
      ((submission.make_dedup_key = submission'.make_dedup_key ↔
          decoded.header job payout_script extranonce1 = decoded'.header job payout_script extranonce1) ↔
        (decoded = decoded' → submission.version_mask = submission'.version_mask ∧
          submission.version_bits.isSome = submission'.version_bits.isSome))) ∧
    (∀ submission : Submission, submission.decode job = none →
      ((∀ submission' : Submission, submission.job_id = submission'.job_id → (submission'.decode job).isSome →
          submission.make_dedup_key ≠ submission'.make_dedup_key) ↔
        submission.zero_filled.decode job = none)) ∧
    ∀ (submission : Submission) (share_target : uint256) (now_unix : Int),
      let validated := job.validate_share (submission.input (job.build_coinbase2 payout_script) extranonce1
        share_target now_unix)
      (submission.decode job = none → ∀ result, validated ≠ .ok result) ∧
      ∀ decoded, submission.decode job = some decoded → validated =
        if ¬ job.ntime_in_range decoded.ntime now_unix then .error ⟨.NtimeOutOfRange, some 0⟩
        else job.verdict (decoded.header job payout_script extranonce1)
          (job.coinbase payout_script (extranonce1 ++ decoded.extranonce2)) share_target := by
  refine ⟨?_, ?_, ?_⟩
  · intro submission submission' decoded decoded' hjob h h' hdistinct
    rw [Submission.make_dedup_key_eq_iff hjob h', Submission.zero_filled_of_decode h, h, Option.some.injEq,
      Decoded.header_eq_iff hdistinct]
    tauto
  · intro submission _
    constructor
    · intro hnever
      rw [Option.eq_none_iff_forall_ne_some]
      intro decoded hdecoded
      exact hnever submission.zero_filled rfl (Option.isSome_of_eq_some hdecoded) submission.zero_filled_key.symm
    · intro hnone submission' hjob hpasses hkey
      obtain ⟨decoded', h'⟩ := Option.isSome_iff_exists.mp hpasses
      have hdecoded := ((Submission.make_dedup_key_eq_iff hjob h').mp hkey).1
      rw [hnone] at hdecoded
      cases hdecoded
  · intro submission share_target now_unix
    refine ⟨fun hnone result hresult => ?_, fun decoded hdecoded => validate_share_of_decode hdecoded⟩
    have hpassed := decode_of_validate_share hresult
    rw [hnone] at hpassed
    cases hpassed

namespace UnrolledMiner

def job : Job := .minimal "1".toList 1 1000 1

/-- A share of a miner that rolls no version, without version bits. -/
def bare : Submission := ⟨"1".toList, "0000000000000000".toList, "000003e8".toList, "00000001".toList, none, 0⟩

/-- The same share with the bits written out. -/
def written : Submission := { bare with version_bits := some "0".toList }

def nonceless : Submission := { bare with nonce := [] }

def zero_nonce : Submission := { bare with nonce := ['0'] }

/-- The share without its leading zeros, in upper case. -/
def respelled : Submission := { bare with ntime := "3E8".toList, nonce := "1".toList }

def decoded : Decoded := ⟨[0, 0, 0, 0, 0, 0, 0, 0], 1000, 1, job.version⟩

def pool : PoolContext where
  current_job := some job
  recent_job := fun job_id => if job_id = job.job_id then some job else none
  runtime_config := { initial_difficulty := 1 / 10 ^ 10, minimum_difficulty := 1 / 10 ^ 12 }
  validate_address := fun _ => some []
  steady_seconds := 0
  time := 1000

def request (method : Method) (params : List String) : PoolContext × Event :=
  (pool, .line { method, params := params.map String.toList })

def submitting (bits : List String) : List (PoolContext × Event) :=
  [request .submit (["miner", "1", "0000000000000000", "000003e8", "00000001"] ++ bits), (pool, .finish_submit)]

end UnrolledMiner

open UnrolledMiner in
/-- One header is accepted twice, once without version bits and once with the bits zero. A nonce
that is empty has the key of the nonce zero. -/
theorem bits_written_out_accepted_again :
    bare.decode job = written.decode job ∧ (bare.decode job).isSome = true ∧
      bare.make_dedup_key ≠ written.make_dedup_key ∧
      (Server.reached {} pool [0, 0, 0, 1] ([request .subscribe [], request .authorize ["miner"]] ++
        submitting [] ++ submitting ["0"])).accepted = [written, bare] ∧
      nonceless.decode job = none ∧ (zero_nonce.decode job).isSome = true ∧
      nonceless.make_dedup_key = zero_nonce.make_dedup_key := by
  decide +kernel

open UnrolledMiner in
theorem dedup_key_names_header_respelled :
    bare.make_dedup_key = respelled.make_dedup_key ↔
      decoded.header job [] [0, 0, 0, 1] = decoded.header job [] [0, 0, 0, 1] :=
  ((dedup_key_names_header job [] [0, 0, 0, 1]).1 bare respelled decoded decoded rfl (by decide) (by decide)
    (fun _ => rfl)).mpr (fun _ => ⟨rfl, rfl⟩)

end erikslund.stratum
