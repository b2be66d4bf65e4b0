import Mathlib.Data.List.DropRight
import SoloPool.Lib.Delimited
import SoloPool.Pool.Submission

namespace erikslund

open util stratum List

/-- `path::stem` and `path::extension` of a file name: it is cut at its last period, unless
that is its first character or the name is `..`. -/
def split_filename (name : Text) : Text × Text :=
  let tail := name.reverse.takeWhile (· ≠ '.')
  let stem := name.take (name.length - tail.length - 1)
  if tail.length = name.length ∨ stem = [] ∨ name = "..".toList then (name, []) else (stem, '.' :: tail.reverse)

def stem (name : Text) : Text := (split_filename name).1

def extension (name : Text) : Text := (split_filename name).2

/-- `std::format("{}", value)`. -/
def format_int : Int → Text
  | .ofNat value => to_string value
  | .negSucc value => '-' :: to_string (value + 1)

def split_sign : Text → Bool × Text
  | '-' :: digits => (true, digits)
  | digits => (false, digits)

/-- `std::from_chars` of an `int64_t`, when it succeeds and consumes the whole text. -/
def from_chars (text : Text) : Option Int :=
  let (negative, digits) := split_sign text
  if digits = [] ∨ ¬ digits.all Char.isDigit then none
  else
    let magnitude : Int := Nat.ofDigitChars 10 digits 0
    let value := if negative then -magnitude else magnitude
    if -2 ^ 63 ≤ value ∧ value < 2 ^ 63 then some value else none

def isspace (character : Char) : Bool :=
  character ∈ [' ', '\t', '\n', '\x0b', '\x0c', '\r']

def is_hex (text : Text) : Bool :=
  ¬ text.isEmpty ∧ text.length % 2 = 0 ∧ text.all fun character => (hex_nibble character).isSome

def kBlockHeaderHexCharacters : Nat := 160

structure SpooledBlockIdentity where
  height : Int
  hash : Text
deriving DecidableEq

/-- `from_hex` is only asked for texts that `is_hex` has let through. -/
def parse_spooled_block_identity (name block_hex : Text) : Option SpooledBlockIdentity := do
  guard (extension name = ".hex".toList)
  let height_text := (stem name).takeWhile (· ≠ '_')
  let hash_text ← ((stem name).dropWhile (· ≠ '_')).tail?
  guard (height_text ≠ [] ∧ '_' ∉ hash_text)
  let height ← from_chars height_text
  guard (0 < height ∧ hash_text.length = 64 ∧ is_hex hash_text)
  let hash := to_hex (← (from_hex hash_text).toOption)
  guard (kBlockHeaderHexCharacters ≤ block_hex.length ∧ is_hex (block_hex.take kBlockHeaderHexCharacters))
  let header ← (from_hex (block_hex.take kBlockHeaderHexCharacters)).toOption
  guard (to_hex_reversed (sha256d header).val = hash)
  return ⟨height, hash⟩

/-- The name of the file `spool_block` leaves. -/
def PendingBlock.spool_name (block : PendingBlock) : Text :=
  format_int block.height ++ '_' :: block.hash ++ ".hex".toList

def PendingBlock.spool_contents (block : PendingBlock) : Text := block.hex ++ ['\n']

/-- The block `resubmit_spooled_blocks` makes of a file it has read; an empty one is ignored. -/
def spooled_block (name contents : Text) : Option PendingBlock :=
  let block_hex := contents.rdropWhile isspace
  if block_hex = [] then none
  else
    match parse_spooled_block_identity name block_hex with
    | some identity => some ⟨identity.height, identity.hash, block_hex, [], []⟩
    | none => some ⟨-1, [], block_hex, [], []⟩

/-- Some validator accepted a share of the job. -/
inductive stratum.Job.Validated (job : Job) (result : ShareResult) : Prop where
  | share (input : ShareInput) (h : job.validate_share input = .ok result)
  | standard (input : StandardShareInput) (h : job.validate_standard_share input = .ok result)
  | extended (work : ExtendedWork) (input : ExtendedShareInput) (h : job.validate_extended_share work input = .ok result)

variable {job : Job} {result : ShareResult} {height : Int}

theorem validate_standard_share_header {input : StandardShareInput}
    (h : job.validate_standard_share input = .ok result) :
    result.header.length = 80 ∧ result.block_hash_hex = to_hex_reversed (sha256d result.header).val := by
  unfold Job.validate_standard_share at h
  split at h
  · cases h
  split at h
  · cases h
  simp only [Job.validate_header] at h
  split at h
  · cases h
  · cases h
    exact ⟨Job.build_header_length .., rfl⟩

/-- The header of an accepted share, whichever protocol it came by. -/
theorem stratum.Job.Validated.header (h : job.Validated result) :
    result.header.length = 80 ∧ result.block_hash_hex = to_hex_reversed (sha256d result.header).val := by
  cases h with
  | share input h =>
    obtain ⟨_, _, _, _, -, -, hheader, hhash⟩ := Job.validate_share_ok h
    refine ⟨?_, hhash⟩
    rw [hheader]
    exact Job.build_header_length ..
  | standard input h => exact validate_standard_share_header h
  | extended work input h =>
    unfold Job.validate_extended_share at h
    split at h
    · cases h
    · exact validate_standard_share_header h

/-- A name with an extension is cut in front of it. -/
theorem split_filename_append {stem extension : Text} (hstem : stem ≠ []) (hextension : extension ≠ [])
    (hfree : '.' ∉ extension) : split_filename (stem ++ '.' :: extension) = (stem, '.' :: extension) := by
  have htail : (stem ++ '.' :: extension).reverse.takeWhile (· ≠ '.') = extension.reverse := by
    rw [reverse_append, reverse_cons, append_assoc, singleton_append]
    exact Delimited.takeWhile_field (fun hmem => hfree (mem_reverse.mp hmem)) _
  have hlength : (stem ++ '.' :: extension).length = stem.length + (extension.length + 1) := by
    rw [length_append, length_cons]
  have hcut : (stem ++ '.' :: extension).take ((stem ++ '.' :: extension).length - extension.reverse.length - 1) =
      stem := by
    apply take_left'
    rw [hlength, length_reverse]
    omega
  have hlonger : 0 < extension.length := length_pos_iff.mpr hextension
  have hpositive : 0 < stem.length := length_pos_iff.mpr hstem
  have hwhole : ¬ (extension.reverse.length = (stem ++ '.' :: extension).length ∨ stem = [] ∨
      stem ++ '.' :: extension = "..".toList) := by
    rintro (hwhole | hempty | hparent)
    · rw [hlength, length_reverse] at hwhole
      omega
    · exact hstem hempty
    · have htwo := congrArg List.length hparent
      rw [hlength] at htwo
      have hdots : "..".toList.length = 2 := rfl
      omega
  simp only [split_filename, htail, hcut, if_neg hwhole, reverse_reverse]

theorem from_chars_format (hpositive : 0 < height) (hfits : height < 2 ^ 63) :
    from_chars (format_int height) = some height := by
  obtain ⟨value, rfl⟩ := Int.eq_ofNat_of_zero_le hpositive.le
  have hdigits : ∀ character ∈ to_string value, character.isDigit = true :=
    fun character hmem => Nat.isDigit_of_mem_toDigits (by decide) (by decide) hmem
  have hsome : to_string value ≠ [] := Nat.toDigits_ne_nil
  have hplain : split_sign (to_string value) = (false, to_string value) := by
    unfold split_sign
    split
    · rename_i digits hminus
      have hbad := hdigits '-' (by rw [hminus]; exact mem_cons_self)
      cases hbad
    · rfl
  have hvalue : Nat.ofDigitChars 10 (to_string value) 0 = value := Nat.ofDigitChars_ten_toDigits
  have hvalid : ¬ (to_string value = [] ∨ ¬ (to_string value).all Char.isDigit = true) := by
    rw [not_or, not_not, all_eq_true]
    exact ⟨hsome, hdigits⟩
  have hrange : -2 ^ 63 ≤ ((value : Nat) : Int) ∧ ((value : Nat) : Int) < 2 ^ 63 := ⟨by omega, hfits⟩
  change from_chars (to_string value) = _
  simp only [from_chars, hplain, hvalid, if_false, hvalue, Bool.false_eq_true, if_pos hrange]

theorem is_hex_to_hex {data : Bytes} (hsome : data ≠ []) : is_hex (to_hex data) = true := by
  have hlength := to_hex_length data
  have hpositive : 0 < data.length := length_pos_iff.mpr hsome
  apply decide_eq_true
  refine ⟨?_, by omega, all_eq_true.mpr (hexDigits_to_hex data)⟩
  rw [isEmpty_iff_length_eq_zero]
  omega

theorem not_isspace_of_hex {character : Char} (h : (hex_nibble character).isSome = true) :
    isspace character = false := by
  rw [← Bool.not_eq_true]
  intro hspace
  have hnone : [' ', '\t', '\n', '\x0b', '\x0c', '\r'].all (fun space => (hex_nibble space).isNone) = true := by
    decide
  have hcharacter := all_eq_true.mp hnone character (of_decide_eq_true hspace)
  rw [Option.isNone_iff_eq_none] at hcharacter
  rw [hcharacter] at h
  cases h

/-- The line break is stripped again, and nothing else. -/
theorem strip_contents {data : Bytes} : (to_hex data ++ ['\n']).rdropWhile isspace = to_hex data := by
  rw [rdropWhile_concat_pos _ _ _ (by decide), rdropWhile_eq_self_iff]
  intro hsome
  rw [Bool.not_eq_true]
  exact not_isspace_of_hex (hexDigits_to_hex data _ (getLast_mem hsome))

theorem to_hex_append (data more : Bytes) : to_hex (data ++ more) = to_hex data ++ to_hex more := by
  induction data with
  | nil => rfl
  | cons byte rest ih => rw [cons_append, to_hex, to_hex, ih, cons_append, cons_append]

theorem from_hex_toOption {text : Text} {bytes : Bytes} :
    (from_hex text).toOption = some bytes ↔ try_from_hex text = some bytes := by
  rw [← from_hex_eq_ok]
  cases from_hex text with
  | error what => simp [Except.toOption]
  | ok decoded => simp [Except.toOption]

/-- The name's hash is that of the first 80 bytes of the file. -/
def NamesHeader (name block_hex : Text) (identity : SpooledBlockIdentity) : Prop :=
  ∃ height_text hash_text header, stem name = height_text ++ '_' :: hash_text ∧ header.length = 80 ∧
    try_from_hex (block_hex.take kBlockHeaderHexCharacters) = some header ∧
    try_from_hex hash_text = some (reversed (sha256d header).val) ∧
    from_chars height_text = some identity.height ∧ identity.hash = to_hex_reversed (sha256d header).val

theorem guard_bind {p : Prop} [Decidable p] {α : Type} {f : Unit → Option α} {a : α} :
    (guard p >>= f) = some a ↔ p ∧ f () = some a := by
  by_cases h : p
  · simp [h]
  · simp [h]

/-- The identity of a file is not taken from its name alone. -/
theorem parse_spooled_block_identity_some {name block_hex : Text} {identity : SpooledBlockIdentity}
    (h : parse_spooled_block_identity name block_hex = some identity) : NamesHeader name block_hex identity := by
  unfold parse_spooled_block_identity at h
  obtain ⟨-, h⟩ := guard_bind.mp h
  obtain ⟨hash_text, htail, h⟩ := Option.bind_eq_some_iff.mp h
  obtain ⟨-, h⟩ := guard_bind.mp h
  obtain ⟨height, hheight, h⟩ := Option.bind_eq_some_iff.mp h
  obtain ⟨-, h⟩ := guard_bind.mp h
  obtain ⟨hash, hhash, h⟩ := Option.bind_eq_some_iff.mp h
  obtain ⟨⟨hlong, -⟩, h⟩ := guard_bind.mp h
  obtain ⟨header, hheader, h⟩ := Option.bind_eq_some_iff.mp h
  obtain ⟨hsame, h⟩ := guard_bind.mp h
  cases h
  have hcut := Delimited.eq_of_tail_dropWhile htail
  have hdecoded := from_hex_toOption.mp hheader
  have hlength := try_from_hex_length hdecoded
  rw [length_take_of_le hlong, kBlockHeaderHexCharacters] at hlength
  have hbytes : hash = reversed (sha256d header).val := (to_hex_injective hsame).symm
  exact ⟨_, hash_text, header, hcut, by omega, hdecoded, hbytes ▸ from_hex_toOption.mp hhash, hheight, hsame.symm⟩

/-- A name that is made of a height and the hash of the file's header is accepted. -/
theorem parse_spooled_block_identity_eq {name block_hex height_text : Text} {header : Bytes}
    (hextension : extension name = ".hex".toList)
    (hstem : stem name = height_text ++ '_' :: to_hex_reversed (sha256d header).val) (hsome : height_text ≠ [])
    (hfree : '_' ∉ height_text) (hheight : from_chars height_text = some height) (hpositive : 0 < height)
    (hheader : header.length = 80) (htake : block_hex.take kBlockHeaderHexCharacters = to_hex header) :
    parse_spooled_block_identity name block_hex = some ⟨height, to_hex_reversed (sha256d header).val⟩ := by
  have hsize : (sha256d header).val.reverse.length = 32 := by
    rw [length_reverse, (sha256d header).property]
  have hdigits : (to_hex_reversed (sha256d header).val).length = 64 := by
    rw [to_hex_reversed, to_hex_length, hsize]
  have hhex : is_hex (to_hex_reversed (sha256d header).val) = true := by
    apply is_hex_to_hex
    rw [← length_pos_iff, hsize]
    decide
  have hline : '_' ∉ to_hex_reversed (sha256d header).val := (hexDigits_to_hex _).free (by decide)
  have hlong : kBlockHeaderHexCharacters ≤ block_hex.length := by
    have hlength := congrArg List.length htake
    rw [length_take, to_hex_length, hheader] at hlength
    rw [kBlockHeaderHexCharacters] at hlength ⊢
    omega
  have hheader_hex : is_hex (to_hex header) = true := by
    apply is_hex_to_hex
    rw [← length_pos_iff, hheader]
    decide
  unfold parse_spooled_block_identity
  rw [hstem, Delimited.takeWhile_field hfree, Delimited.dropWhile_field hfree, htake]
  refine guard_bind.mpr ⟨hextension, Option.bind_eq_some_iff.mpr ⟨_, rfl, guard_bind.mpr ⟨⟨hsome, hline⟩, ?_⟩⟩⟩
  refine Option.bind_eq_some_iff.mpr ⟨height, hheight, guard_bind.mpr ⟨⟨hpositive, hdigits, hhex⟩, ?_⟩⟩
  refine Option.bind_eq_some_iff.mpr ⟨_, from_hex_toOption.mpr (try_from_hex_to_hex _), ?_⟩
  refine guard_bind.mpr ⟨⟨hlong, hheader_hex⟩, ?_⟩
  exact Option.bind_eq_some_iff.mpr
    ⟨header, from_hex_toOption.mpr (try_from_hex_to_hex _), guard_bind.mpr ⟨rfl, rfl⟩⟩

theorem split_spool_name (block : PendingBlock) :
    stem block.spool_name = format_int block.height ++ '_' :: block.hash ∧
      extension block.spool_name = ".hex".toList := by
  have hname : split_filename (format_int block.height ++ '_' :: block.hash ++ '.' :: "hex".toList) =
      (format_int block.height ++ '_' :: block.hash, '.' :: "hex".toList) :=
    split_filename_append (by simp) (by decide) (by decide)
  exact ⟨congrArg Prod.fst hname, congrArg Prod.snd hname⟩

theorem format_int_pos (hpositive : 0 < height) : format_int height ≠ [] ∧ '_' ∉ format_int height := by
  obtain ⟨value, rfl⟩ := Int.eq_ofNat_of_zero_le hpositive.le
  exact ⟨Nat.toDigits_ne_nil, to_string_free value (by decide)⟩

/-- What `spool_block` writes for an accepted share is read back as the block that was found. -/
theorem spooled_block_roundtrip (h : job.Validated result)
    (hpositive : 0 < job.height) (hfits : job.height < 2 ^ 63) {block : PendingBlock}
    (hheight : block.height = job.height) (hhash : block.hash = result.block_hash_hex)
    (hhex : job.build_block_hex result.legacy_coinbase result.header = .ok block.hex) :
    extension block.spool_name = ".hex".toList ∧
      spooled_block block.spool_name block.spool_contents = some ⟨block.height, block.hash, block.hex, [], []⟩ := by
  obtain ⟨hheader, hresult⟩ := h.header
  obtain ⟨coinbase, -, hhex⟩ := Result.bind_eq_ok.mp hhex
  have hblock := Result.pure_eq_ok.mp hhex
  rw [append_assoc, append_assoc] at hblock
  generalize encode_varint (job.txn_count + 1).toNat ++ (coinbase ++ job.txn_data) = rest at hblock
  obtain ⟨hstem, hextension⟩ := split_spool_name block
  have hhashes := hhash.trans hresult
  rw [← hheight] at hpositive hfits
  obtain ⟨hsome, hfree⟩ := format_int_pos hpositive
  have htake : block.hex.take kBlockHeaderHexCharacters = to_hex result.header := by
    rw [← hblock, to_hex_append]
    apply take_left'
    rw [to_hex_length, hheader, kBlockHeaderHexCharacters]
  have hidentity := parse_spooled_block_identity_eq hextension (hhashes ▸ hstem) hsome hfree
    (from_chars_format hpositive hfits) hpositive hheader htake
  have hstrip : block.spool_contents.rdropWhile isspace = block.hex := by
    rw [PendingBlock.spool_contents, ← hblock]
    exact strip_contents
  have hfilled : block.hex ≠ [] := by
    rw [← length_pos_iff, ← hblock, to_hex_length, length_append, hheader]
    omega
  refine ⟨hextension, ?_⟩
  simp only [spooled_block, hstrip, if_neg hfilled, hidentity, hhashes]

end erikslund
