import SoloPool.Util.Bech32
import SoloPool.Util.Hex

namespace erikslund.util

open List

/-- `std::string::rfind` of a character. -/
def rfind (char : Char) : Text → Option Nat
  | [] => none
  | first :: rest =>
    match rfind char rest with
    | some index => some (index + 1)
    | none => if first = char then some 0 else none

/-- The character of a symbol, `kCharset[value]`. -/
def charset_char (value : UInt8) : Char := kCharset.getD value.toNat '?'

/-- The data is in groups of five bits, without the checksum. -/
structure Bech32Decoded where
  hrp : Text
  data : List UInt8
  encoding : Encoding
deriving DecidableEq

structure WitnessProgram where
  version : Int
  program : Bytes
deriving DecidableEq

def bech32_decode (text : Text) : Option Bech32Decoded :=
  if text.length < 8 ∨ text.length > 90 then none
  else if text.any (fun c => c.toNat < 33 ∨ c.toNat > 126) then none
  else if text.any Char.isLower ∧ text.any Char.isUpper then none
  else
    let lowered := text.map Char.toLower
    match rfind '1' lowered with
    | none => none
    | some separator =>
      if separator = 0 ∨ separator + 7 > lowered.length then none
      else
        match (lowered.drop (separator + 1)).mapM charset_index with
        | none => none
        | some indices =>
          let hrp := lowered.take separator
          let data := indices.map UInt8.ofNat
          let encoding := verify_checksum hrp data
          if encoding = .Invalid then none
          else some ⟨hrp, data.take (data.length - 6), encoding⟩

def segwit_address_decode (hrp addr : Text) : Option WitnessProgram :=
  match bech32_decode addr with
  | none => none
  | some decoded =>
    if decoded.hrp ≠ hrp then none
    else
      match decoded.data with
      | [] => none
      | version :: data5 =>
        if version > 16 then none
        else
          match convertbits data5 5 8 false with
          | none => none
          | some program =>
            if program.length < 2 ∨ program.length > 40 then none
            else if version = 0 then
              if program.length ≠ 20 ∧ program.length ≠ 32 then none
              else if decoded.encoding ≠ .Bech32 then none
              else some ⟨version.toNat, program⟩
            else if decoded.encoding ≠ .Bech32m then none
            else some ⟨version.toNat, program⟩

def segwit_address_encode (hrp : Text) (version : Int) (program : Bytes) : Except String Text :=
  if version < 0 ∨ version > 16 then .error "segwit: version out of range"
  else if program.length < 2 ∨ program.length > 40 then .error "segwit: program length out of range"
  else
    match convertbits program 8 5 true with
    | none => .error "segwit: program could not be base32-encoded"
    | some converted =>
      let data := UInt8.ofNat version.toNat :: converted
      let encoding := if version = 0 then Encoding.Bech32 else .Bech32m
      .ok (hrp ++ '1' :: (data.map charset_char ++ (create_checksum hrp data encoding).map charset_char))

section Separator

variable {char : Char}

theorem rfind_none {text : Text} (h : rfind char text = none) : char ∉ text := by
  induction text with
  | nil => exact not_mem_nil
  | cons first rest ih =>
    rw [rfind] at h
    cases hrest : rfind char rest with
    | some index =>
      rw [hrest] at h
      cases h
    | none =>
      rw [hrest] at h
      by_cases hfirst : first = char
      · rw [if_pos hfirst] at h
        cases h
      · rw [mem_cons, not_or]
        exact ⟨fun heq => hfirst heq.symm, ih hrest⟩

/-- The last occurrence is where the text is cut. -/
theorem rfind_some {text : Text} {index : Nat} (h : rfind char text = some index) :
    text = text.take index ++ char :: text.drop (index + 1) ∧ char ∉ text.drop (index + 1) := by
  induction text generalizing index with
  | nil => cases h
  | cons first rest ih =>
    rw [rfind] at h
    cases hrest : rfind char rest with
    | some last =>
      rw [hrest, Option.some.injEq] at h
      subst h
      obtain ⟨hcut, hfree⟩ := ih hrest
      exact ⟨congrArg (first :: ·) hcut, hfree⟩
    | none =>
      rw [hrest] at h
      by_cases hfirst : first = char
      · rw [if_pos hfirst, Option.some.injEq] at h
        subst h hfirst
        exact ⟨rfl, rfind_none hrest⟩
      · rw [if_neg hfirst] at h
        cases h

theorem rfind_eq_none {text : Text} (h : char ∉ text) : rfind char text = none := by
  cases hfound : rfind char text with
  | none => rfl
  | some index =>
    refine absurd ?_ h
    rw [(rfind_some hfound).1]
    exact mem_append_right _ mem_cons_self

theorem rfind_append (front : Text) {rest : Text} (h : char ∉ rest) :
    rfind char (front ++ char :: rest) = some front.length := by
  induction front with
  | nil => rw [nil_append, rfind, rfind_eq_none h, if_pos rfl, length_nil]
  | cons first front ih => rw [cons_append, rfind, ih, length_cons]

/-- A text is cut at its last separator in one way. -/
theorem cut_inj {front front' rest rest' : Text} (hrest : char ∉ rest) (hrest' : char ∉ rest')
    (h : front ++ char :: rest = front' ++ char :: rest') : front = front' ∧ rest = rest' := by
  have hlength : front.length = front'.length := by
    have hfound := congrArg (rfind char) h
    rwa [rfind_append front hrest, rfind_append front' hrest', Option.some.injEq] at hfound
  obtain ⟨hfront, hcut⟩ := append_inj h hlength
  exact ⟨hfront, tail_eq_of_cons_eq hcut⟩

end Separator

section Alphabet

theorem charset_index_char {symbol : UInt8} (h : symbol.toNat < 2 ^ 5) :
    charset_index (charset_char symbol) = some symbol.toNat := by
  have hall : ∀ value : Fin 32, charset_index (charset_char (UInt8.ofNat value.val)) = some (UInt8.ofNat value.val).toNat := by
    decide
  simpa using hall ⟨symbol.toNat, h⟩

theorem charset_char_index {char : Char} {index : Nat} (h : charset_index char = some index) :
    index < 2 ^ 5 ∧ charset_char (UInt8.ofNat index) = char := by
  obtain ⟨hlt, hfound, -⟩ := findIdx?_eq_some_iff_getElem.mp h
  have hsize : kCharset.length = 32 := by decide
  have hindex : (UInt8.ofNat index).toNat = index := by
    rw [UInt8.toNat_ofNat']
    omega
  refine ⟨by omega, ?_⟩
  rw [charset_char, hindex, getD_eq_getElem?_getD, getElem?_eq_getElem hlt]
  exact of_decide_eq_true hfound

open Groups

/-- The characters of symbols, read back. -/
theorem mapM_charset_index {symbols : List UInt8} (h : Fit 5 (symbols.map UInt8.toNat)) :
    (symbols.map charset_char).mapM charset_index = some (symbols.map UInt8.toNat) := by
  induction symbols with
  | nil => rfl
  | cons symbol symbols ih =>
    rw [map_cons] at h
    obtain ⟨hsymbol, hrest⟩ := forall_mem_cons.mp h
    rw [map_cons, mapM_cons, charset_index_char hsymbol, ih hrest]
    rfl

theorem of_mapM_charset_index {characters : Text} {indices : List Nat}
    (h : characters.mapM charset_index = some indices) :
    Fit 5 indices ∧ characters = (indices.map UInt8.ofNat).map charset_char := by
  induction characters generalizing indices with
  | nil =>
    cases h
    exact ⟨fun _ hmem => absurd hmem not_mem_nil, rfl⟩
  | cons char characters ih =>
    simp only [mapM_cons, Option.bind_eq_bind, Option.bind_eq_some_iff] at h
    obtain ⟨index, hindex, rest, hrest, hsome⟩ := h
    cases hsome
    obtain ⟨hlt, hchar⟩ := charset_char_index hindex
    obtain ⟨hfit, hcharacters⟩ := ih hrest
    refine ⟨forall_mem_cons.mpr ⟨hlt, hfit⟩, ?_⟩
    rw [map_cons, map_cons, hchar, ← hcharacters]

theorem map_ofNat_toNat {indices : List Nat} (h : Fit 5 indices) :
    (indices.map UInt8.ofNat).map UInt8.toNat = indices := by
  rw [map_map]
  conv_rhs => rw [← map_id indices]
  apply map_congr_left
  intro index hmem
  have hlt := h index hmem
  rw [Function.comp_apply, UInt8.toNat_ofNat', id]
  omega

/-- No symbol is the separator, and every one is printable and lower case. -/
theorem charset_char_facts {symbol : UInt8} (h : symbol.toNat < 2 ^ 5) :
    charset_char symbol ≠ '1' ∧ (charset_char symbol).isUpper = false ∧ 33 ≤ (charset_char symbol).toNat ∧
      (charset_char symbol).toNat ≤ 126 := by
  have hall : ∀ value : Fin 32, charset_char (UInt8.ofNat value.val) ≠ '1' ∧
      (charset_char (UInt8.ofNat value.val)).isUpper = false ∧ 33 ≤ (charset_char (UInt8.ofNat value.val)).toNat ∧
      (charset_char (UInt8.ofNat value.val)).toNat ≤ 126 := by decide
  simpa using hall ⟨symbol.toNat, h⟩

theorem separator_free {symbols : List UInt8} (h : Fit 5 (symbols.map UInt8.toNat)) :
    '1' ∉ symbols.map charset_char := by
  intro hmem
  obtain ⟨symbol, hsymbol, hchar⟩ := mem_map.mp hmem
  exact (charset_char_facts (h _ (mem_map_of_mem hsymbol))).1 hchar

theorem map_charset_char_inj {symbols symbols' : List UInt8} (h : Fit 5 (symbols.map UInt8.toNat))
    (h' : Fit 5 (symbols'.map UInt8.toNat)) (hsame : symbols.map charset_char = symbols'.map charset_char) :
    symbols = symbols' := by
  have hindices := mapM_charset_index h
  rw [hsame, mapM_charset_index h', Option.some.injEq] at hindices
  exact map_toNat_injective hindices.symm

end Alphabet

/-- Printable, and without a letter in upper case. -/
def LowerPrintable (text : Text) : Prop := ∀ c ∈ text, 33 ≤ c.toNat ∧ c.toNat ≤ 126 ∧ c.isUpper = false

theorem all_lowerPrintable_iff (text : Text) :
    (text.all fun c => 33 ≤ c.toNat ∧ c.toNat ≤ 126 ∧ c.isUpper = false) = true ↔ LowerPrintable text := by
  simp only [all_eq_true, decide_eq_true_eq, LowerPrintable]

instance (text : Text) : Decidable (LowerPrintable text) := decidable_of_iff _ (all_lowerPrintable_iff text)

variable {c : Char} {text hrp addr : Text} {decoded : Bech32Decoded} {witness : WitnessProgram}

theorem toLower_of_not_isUpper (h : c.isUpper = false) : c.toLower = c := by
  apply dif_neg
  intro hrange
  have hupper : c.isUpper = true := decide_eq_true hrange
  rw [h] at hupper
  cases hupper

theorem LowerPrintable.map_toLower (h : LowerPrintable text) : text.map Char.toLower = text := by
  conv_rhs => rw [← map_id text]
  exact map_congr_left (fun c hmem => toLower_of_not_isUpper (h c hmem).2.2)

/-- What `bech32_decode` asks of the characters before it looks for the separator. -/
def Legible (text : Text) : Prop :=
  8 ≤ text.length ∧ text.length ≤ 90 ∧ text.any (fun c => c.toNat < 33 ∨ c.toNat > 126) = false ∧
    ¬ (text.any Char.isLower = true ∧ text.any Char.isUpper = true)

theorem LowerPrintable.legible (h : LowerPrintable text) (hlong : 8 ≤ text.length)
    (hshort : text.length ≤ 90) : Legible text := by
  refine ⟨hlong, hshort, ?_, ?_⟩
  · rw [any_eq_false]
    intro c hmem
    have hc := h c hmem
    rw [decide_eq_true_eq]
    omega
  · rintro ⟨-, hupper⟩
    obtain ⟨c, hmem, hc⟩ := any_eq_true.mp hupper
    rw [(h c hmem).2.2] at hc
    cases hc

theorem toUpper_toLower (hrange : c.toNat ≤ 126) (hlower : c.isLower = false) : c.toLower.toUpper = c := by
  have hall : ∀ code : Fin 127, (Char.ofNat code.val).isLower = false →
      (Char.ofNat code.val).toLower.toUpper = Char.ofNat code.val := by decide
  have hcode := hall ⟨c.toNat, by omega⟩
  rw [Char.ofNat_toNat] at hcode
  exact hcode hlower

/-- A legible text is its lower-case form or the upper-case form of that. -/
theorem Legible.cases (h : Legible text) :
    text = text.map Char.toLower ∨ text = (text.map Char.toLower).map Char.toUpper := by
  obtain ⟨-, -, hprintable, hmixed⟩ := h
  by_cases hlower : text.any Char.isLower = true
  · left
    have hupper : text.any Char.isUpper = false := Bool.eq_false_iff.mpr (fun hupper => hmixed ⟨hlower, hupper⟩)
    conv_lhs => rw [← map_id text]
    apply map_congr_left
    intro c hmem
    exact (toLower_of_not_isUpper (Bool.eq_false_iff.mpr (any_eq_false.mp hupper c hmem))).symm
  · right
    have hlower : text.any Char.isLower = false := Bool.eq_false_iff.mpr hlower
    conv_lhs => rw [← map_id text]
    rw [map_map]
    apply map_congr_left
    intro c hmem
    have hrange := any_eq_false.mp hprintable c hmem
    rw [decide_eq_true_eq] at hrange
    exact (toUpper_toLower (by omega) (Bool.eq_false_iff.mpr (any_eq_false.mp hlower c hmem))).symm

/-- An address is read as symbols after the last separator, with a checksum that is valid. -/
theorem bech32_decode_iff :
    bech32_decode text = some decoded ↔ Legible text ∧ decoded.hrp ≠ [] ∧ decoded.encoding ≠ .Invalid ∧
      ∃ symbols, Groups.Fit 5 (symbols.map UInt8.toNat) ∧ 6 ≤ symbols.length ∧
        text.map Char.toLower = decoded.hrp ++ '1' :: symbols.map charset_char ∧
        verify_checksum decoded.hrp symbols = decoded.encoding ∧
        decoded.data = symbols.take (symbols.length - 6) := by
  unfold bech32_decode
  constructor
  · intro h
    split at h
    · cases h
    split at h
    · cases h
    split at h
    · cases h
    rename_i hsize hprintable hmixed
    dsimp only at h
    split at h
    · cases h
    rename_i separator hseparator
    split at h
    · cases h
    rename_i hplace
    split at h
    · cases h
    rename_i indices hindices
    split at h
    · cases h
    rename_i hvalid
    cases h
    obtain ⟨hcut, -⟩ := rfind_some hseparator
    obtain ⟨hfit, hcharacters⟩ := of_mapM_charset_index hindices
    have hlength := congrArg List.length hcut
    have hindexed := congrArg List.length hcharacters
    simp only [length_append, length_take, length_cons, length_drop, length_map] at hlength hindexed hplace
    refine ⟨⟨by omega, by omega, Bool.eq_false_iff.mpr hprintable, hmixed⟩, ?_, hvalid, indices.map UInt8.ofNat, ?_, ?_, ?_, rfl, rfl⟩
    · intro hempty
      have hnil := congrArg List.length hempty
      rw [length_take, length_map, length_nil] at hnil
      omega
    · rwa [map_ofNat_toNat hfit]
    · rw [length_map]
      omega
    · rw [← hcharacters]
      exact hcut
  · rintro ⟨⟨hlong, hshort, hprintable, hmixed⟩, hhrp, hvalid, symbols, hfit, hsix, hlowered, hverified, hdata⟩
    have hpos := length_pos_iff.mpr hhrp
    have hdrop : (decoded.hrp ++ '1' :: symbols.map charset_char).drop (decoded.hrp.length + 1) =
        symbols.map charset_char := by
      rw [← drop_drop, drop_left]
      rfl
    have hbytes : (symbols.map UInt8.toNat).map UInt8.ofNat = symbols := by
      simp only [map_map, Function.comp_def, UInt8.ofNat_toNat, map_id']
    have hlength : ¬ (decoded.hrp.length = 0 ∨
        decoded.hrp.length + 7 > (decoded.hrp ++ '1' :: symbols.map charset_char).length) := by
      simp only [length_append, length_cons, length_map]
      omega
    rw [if_neg (by omega), if_neg (by rw [hprintable]; exact Bool.false_ne_true), if_neg hmixed, hlowered]
    dsimp only
    rw [rfind_append _ (separator_free hfit)]
    dsimp only
    rw [if_neg hlength, hdrop, mapM_charset_index hfit]
    dsimp only
    rw [take_left, hbytes, hverified, if_neg hvalid, ← hdata]

/-- The address of some data. -/
def Bech32Decoded.spelled (decoded : Bech32Decoded) : Text :=
  decoded.hrp ++ '1' :: (decoded.data ++ create_checksum decoded.hrp decoded.data decoded.encoding).map charset_char

theorem verify_checksum_iff {symbols : List UInt8} {encoding : Encoding} (h : encoding ≠ .Invalid) :
    verify_checksum hrp symbols = encoding ↔ polymod (hrp_expand hrp ++ symbols) = checksum_constant encoding := by
  unfold verify_checksum
  generalize polymod (hrp_expand hrp ++ symbols) = residue
  dsimp only
  by_cases hfirst : residue = kBech32Const
  · subst hfirst
    cases encoding with
    | Invalid => exact absurd rfl h
    | Bech32 => decide
    | Bech32m => decide
  · by_cases hsecond : residue = kBech32mConst
    · subst hsecond
      cases encoding with
      | Invalid => exact absurd rfl h
      | Bech32 => decide
      | Bech32m => decide
    · rw [if_neg hfirst, if_neg hsecond]
      refine ⟨fun heq => absurd heq.symm h, fun hconstant => ?_⟩
      unfold checksum_constant at hconstant
      split at hconstant
      · exact absurd hconstant hsecond
      · exact absurd hconstant hfirst

theorem create_checksum_length (hrp : Text) (data : List UInt8) (encoding : Encoding) :
    (create_checksum hrp data encoding).length = 6 := by
  rw [create_checksum, length_map, length_range]

theorem create_checksum_fit (hrp : Text) (data : List UInt8) (encoding : Encoding) :
    Groups.Fit 5 ((create_checksum hrp data encoding).map UInt8.toNat) := residue_symbols_fit _

theorem fit_append {symbols symbols' : List UInt8} : Groups.Fit 5 ((symbols ++ symbols').map UInt8.toNat) ↔
    Groups.Fit 5 (symbols.map UInt8.toNat) ∧ Groups.Fit 5 (symbols'.map UInt8.toNat) := by
  simp only [Groups.Fit, map_append, forall_mem_append]

open Bech32Decoded

/-- What is read from a legible text is the data that it is the address of, in lower case. -/
theorem bech32_decode_spelled :
    bech32_decode text = some decoded ↔ Legible text ∧ decoded.hrp ≠ [] ∧ decoded.encoding ≠ .Invalid ∧
      Groups.Fit 5 (decoded.data.map UInt8.toNat) ∧ text.map Char.toLower = decoded.spelled := by
  rw [bech32_decode_iff]
  constructor
  · rintro ⟨hlegible, hhrp, hvalid, symbols, hfit, hsix, hlowered, hverified, hdata⟩
    have hsplit := take_append_drop (symbols.length - 6) symbols
    rw [← hdata] at hsplit
    rw [← hsplit] at hfit hlowered hverified
    obtain ⟨hfit, hcheck⟩ := fit_append.mp hfit
    refine ⟨hlegible, hhrp, hvalid, hfit, ?_⟩
    rw [verify_checksum_iff hvalid, ← append_assoc,
      polymod_append_iff _ _ _ (by rw [length_drop]; omega) hcheck] at hverified
    rw [hlowered, hverified, spelled]
  · rintro ⟨hlegible, hhrp, hvalid, hfit, hlowered⟩
    have hcheck := create_checksum_fit decoded.hrp decoded.data decoded.encoding
    have hsix := create_checksum_length decoded.hrp decoded.data decoded.encoding
    refine ⟨hlegible, hhrp, hvalid, _, fit_append.mpr ⟨hfit, hcheck⟩, ?_, hlowered, ?_, ?_⟩
    · rw [length_append]
      omega
    · rw [verify_checksum_iff hvalid, ← append_assoc, polymod_append_iff _ _ _ hsix hcheck]
    · rw [length_append, hsix, Nat.add_sub_cancel, take_left]

/-- The versions and programs that have an address. -/
structure WitnessProgram.Valid (witness : WitnessProgram) : Prop where
  version : 0 ≤ witness.version ∧ witness.version ≤ 16
  length : 2 ≤ witness.program.length ∧ witness.program.length ≤ 40
  keyed : witness.version = 0 → witness.program.length = 20 ∨ witness.program.length = 32

/-- The checksum of each version. -/
def WitnessProgram.encoding (witness : WitnessProgram) : Encoding := if witness.version = 0 then .Bech32 else .Bech32m

theorem WitnessProgram.encoding_valid (witness : WitnessProgram) : witness.encoding ≠ .Invalid := by
  unfold WitnessProgram.encoding
  split <;> decide

/-- The symbols of a version and a program. -/
def WitnessProgram.symbols (witness : WitnessProgram) (groups : List UInt8) : List UInt8 :=
  UInt8.ofNat witness.version.toNat :: groups

/-- What is accepted is a valid version and program in the right encoding. -/
theorem segwit_address_decode_iff :
    segwit_address_decode hrp addr = some witness ↔ witness.Valid ∧ ∃ groups,
      bech32_decode addr = some ⟨hrp, witness.symbols groups, witness.encoding⟩ ∧
      convertbits groups 5 8 false = some witness.program := by
  unfold segwit_address_decode
  constructor
  · intro h
    split at h
    · cases h
    rename_i decoded hdecoded
    split at h
    · cases h
    rename_i hhrp
    rw [ne_eq, not_not] at hhrp
    split at h
    · cases h
    rename_i version groups hdata
    split at h
    · cases h
    rename_i hversion
    split at h
    · cases h
    rename_i program hprogram
    split at h
    · cases h
    rename_i hlength
    have hbyte : version.toNat ≤ 16 := by
      rw [gt_iff_lt, UInt8.lt_iff_toNat_lt] at hversion
      exact Nat.le_of_not_lt hversion
    have hfound (encoding : Encoding) (hencoding : decoded.encoding = encoding) :
        bech32_decode addr = some ⟨hrp, version :: groups, encoding⟩ := by
      rw [hdecoded, ← hhrp, ← hdata, ← hencoding]
    split at h
    · rename_i hzero
      split at h
      · cases h
      rename_i hkeyed
      split at h
      · cases h
      rename_i hencoding
      rw [ne_eq, not_not] at hencoding
      cases h
      subst hzero
      exact ⟨⟨⟨by dsimp only; omega, by dsimp only; omega⟩, by dsimp only; omega, fun _ => by dsimp only; omega⟩, groups,
        hfound _ hencoding, hprogram⟩
    · rename_i hzero
      split at h
      · cases h
      rename_i hencoding
      rw [ne_eq, not_not] at hencoding
      cases h
      have hne : version.toNat ≠ 0 := fun heq => hzero (UInt8.toNat_inj.mp heq)
      refine ⟨⟨⟨by dsimp only; omega, by dsimp only; omega⟩, by dsimp only; omega, fun heq => ?_⟩, groups, ?_, hprogram⟩
      · dsimp only at heq
        omega
      · rw [WitnessProgram.symbols, WitnessProgram.encoding, if_neg (by dsimp only; omega), Int.toNat_natCast,
          UInt8.ofNat_toNat]
        exact hfound _ hencoding
  · rintro ⟨hvalid, groups, hdecoded, hprogram⟩
    obtain ⟨hversion, hlength, hkeyed⟩ := hvalid
    have hbyte : (UInt8.ofNat witness.version.toNat).toNat = witness.version.toNat := by
      rw [UInt8.toNat_ofNat']
      omega
    have hsmall : ¬ UInt8.ofNat witness.version.toNat > 16 := by
      rw [gt_iff_lt, UInt8.lt_iff_toNat_lt, hbyte]
      change ¬ 16 < _
      omega
    have hcast : ((witness.version.toNat : Nat) : Int) = witness.version := Int.toNat_of_nonneg hversion.1
    rw [hdecoded]
    dsimp only [WitnessProgram.symbols]
    rw [if_neg (fun h => h rfl), if_neg hsmall, hprogram]
    dsimp only
    rw [if_neg (by omega), hbyte, hcast]
    by_cases hzero : witness.version = 0
    · have hkey := hkeyed hzero
      rw [hzero, if_pos (by decide), if_neg (by omega), if_neg (by simp [WitnessProgram.encoding, hzero]), ← hzero]
    · have hne : UInt8.ofNat witness.version.toNat ≠ 0 := by
        intro heq
        rw [heq] at hbyte
        change 0 = _ at hbyte
        omega
      rw [if_neg hne, if_neg (by simp [WitnessProgram.encoding, hzero])]

/-- The address of a valid version and program. -/
theorem segwit_address_encode_eq (hrp : Text) (hvalid : witness.Valid) {groups : List UInt8}
    {pad : Nat} (hgroups : Groups.Padded 8 5 (witness.program.map UInt8.toNat) (groups.map UInt8.toNat) pad) :
    segwit_address_encode hrp witness.version witness.program =
      .ok (spelled ⟨hrp, witness.symbols groups, witness.encoding⟩) := by
  obtain ⟨groups', pad', hconverted, hpadded⟩ := convertbits_pad witness.program
  have hsame : groups' = groups := map_toNat_injective (hpadded.unique hgroups)
  subst hsame
  have hversion := hvalid.version
  have hlength := hvalid.length
  rw [segwit_address_encode, if_neg (by omega), if_neg (by omega), hconverted]
  simp only [spelled, WitnessProgram.symbols, WitnessProgram.encoding, map_append]

theorem WitnessProgram.symbols_fit (hvalid : witness.Valid) {groups : List UInt8}
    (hgroups : Groups.Fit 5 (groups.map UInt8.toNat)) : Groups.Fit 5 ((witness.symbols groups).map UInt8.toNat) := by
  have hversion := hvalid.version
  rw [WitnessProgram.symbols, map_cons]
  refine forall_mem_cons.mpr ⟨?_, hgroups⟩
  rw [UInt8.toNat_ofNat']
  omega

theorem Bech32Decoded.spelled_lower (hhrp : LowerPrintable decoded.hrp)
    (hdata : Groups.Fit 5 (decoded.data.map UInt8.toNat)) : LowerPrintable decoded.spelled := by
  have hsymbols := fit_append.mpr ⟨hdata, create_checksum_fit decoded.hrp decoded.data decoded.encoding⟩
  intro c hmem
  rcases mem_append.mp hmem with hmem | hmem
  · exact hhrp c hmem
  rcases mem_cons.mp hmem with rfl | hmem
  · decide
  · obtain ⟨symbol, hsymbol, rfl⟩ := mem_map.mp hmem
    obtain ⟨-, hupper, hlow, hhigh⟩ := charset_char_facts (hsymbols _ (mem_map_of_mem hsymbol))
    exact ⟨hlow, hhigh, hupper⟩

theorem mem_kCharset (h : c ∈ kCharset) : ∃ symbol : UInt8, symbol.toNat < 2 ^ 5 ∧ charset_char symbol = c := by
  obtain ⟨index, hindex, rfl⟩ := mem_iff_getElem.mp h
  have hsize : kCharset.length = 32 := by decide
  have hbyte : (UInt8.ofNat index).toNat = index := by
    rw [UInt8.toNat_ofNat']
    omega
  refine ⟨UInt8.ofNat index, by omega, ?_⟩
  rw [charset_char, hbyte, getD_eq_getElem?_getD, getElem?_eq_getElem hindex, Option.getD_some]

theorem map_toLower_symbols {symbols : List UInt8} (h : Groups.Fit 5 (symbols.map UInt8.toNat)) :
    (symbols.map charset_char).map Char.toLower = symbols.map charset_char := by
  rw [map_map]
  apply map_congr_left
  intro symbol hmem
  exact toLower_of_not_isUpper (charset_char_facts (h _ (mem_map_of_mem hmem))).2.1

/-- One symbol of a text that is read changed, the text is not read. -/
theorem bech32_decode_changed (hdecoded : bech32_decode text = some decoded)
    (hlower : text.map Char.toLower = text) {separator index : Nat} (hseparator : rfind '1' text = some separator)
    (hafter : separator < index) (hindex : index < text.length) (hc : c ∈ kCharset)
    (hne : text[index]? ≠ some c) : bech32_decode (text.set index c) = none := by
  obtain ⟨⟨-, hshort, -⟩, -, hvalid, symbols, hfit, -, hspelled, hverified, -⟩ := bech32_decode_iff.mp hdecoded
  obtain ⟨symbol', hsymbol', rfl⟩ := mem_kCharset hc
  rw [hlower] at hspelled
  subst hspelled
  rw [rfind_append _ (separator_free hfit), Option.some.injEq] at hseparator
  subst hseparator
  -- The symbols before and after the place that changes.
  obtain ⟨before, symbol, after, rfl, hplace⟩ : ∃ before symbol after, symbols = before ++ symbol :: after ∧
      index = decoded.hrp.length + 1 + before.length := by
    simp only [length_append, length_cons, length_map] at hindex
    refine ⟨symbols.take (index - decoded.hrp.length - 1), symbols.get ⟨index - decoded.hrp.length - 1, by omega⟩,
      symbols.drop (index - decoded.hrp.length - 1 + 1), by simp, ?_⟩
    rw [length_take]
    omega
  subst hplace
  have hset : (decoded.hrp ++ '1' :: (before ++ symbol :: after).map charset_char).set
      (decoded.hrp.length + 1 + before.length) (charset_char symbol') =
        decoded.hrp ++ '1' :: (before ++ symbol' :: after).map charset_char := by
    have hindex : decoded.hrp.length + 1 + before.length - decoded.hrp.length = before.length + 1 := by omega
    rw [set_append_right _ _ (by omega), hindex, set_cons_succ, map_append, map_append,
      set_append_right _ _ (by rw [length_map]), length_map, Nat.sub_self, map_cons,
      set_cons_zero, map_cons]
  have hsymbols : symbol' ≠ symbol := by
    rintro rfl
    apply hne
    rw [← hset, getElem?_set_self hindex]
  obtain ⟨hbefore, hrest⟩ := fit_append.mp hfit
  obtain ⟨hsymbol, hafters⟩ := forall_mem_cons.mp hrest
  have hfit' : Groups.Fit 5 ((before ++ symbol' :: after).map UInt8.toNat) :=
    fit_append.mpr ⟨hbefore, forall_mem_cons.mpr ⟨hsymbol', hafters⟩⟩
  rw [hset, Option.eq_none_iff_forall_ne_some]
  intro decoded' hdecoded'
  obtain ⟨-, -, hvalid', symbols', hread, -, hspelled', hverified', -⟩ := bech32_decode_iff.mp hdecoded'
  have hhrp : decoded.hrp.map Char.toLower = decoded.hrp := by
    rw [map_append] at hlower
    exact (append_inj hlower (length_map _)).1
  rw [map_append, map_cons, hhrp, map_toLower_symbols hfit'] at hspelled'
  obtain ⟨hsame, hchars⟩ := cut_inj (separator_free hfit') (separator_free hread) hspelled'
  rw [← hsame, ← map_charset_char_inj hfit' hread hchars] at hverified'
  rw [← hverified] at hvalid
  have hinvalid := verify_checksum_changed hvalid hsymbols hsymbol hsymbol' (by
    simp only [length_append, length_cons, length_map] at hshort
    omega)
  rw [hinvalid] at hverified'
  exact hvalid' hverified'.symm

/-- An address that is not too long is read as what it was written from. -/
theorem segwit_address_decode_encode (hhrp : hrp ≠ [])
    (hlower : LowerPrintable hrp) (hvalid : witness.Valid) :
    ∃ addr, segwit_address_encode hrp witness.version witness.program = .ok addr ∧
      (addr.length ≤ 90 → segwit_address_decode hrp addr = some witness) := by
  obtain ⟨groups, pad, -, hpadded⟩ := convertbits_pad witness.program
  refine ⟨_, segwit_address_encode_eq hrp hvalid hpadded, fun hshort => ?_⟩
  have hfit := WitnessProgram.symbols_fit hvalid hpadded.fit
  have hprintable : LowerPrintable (spelled ⟨hrp, witness.symbols groups, witness.encoding⟩) :=
    spelled_lower hlower hfit
  apply segwit_address_decode_iff.mpr
  refine ⟨hvalid, groups, bech32_decode_spelled.mpr ⟨hprintable.legible ?_ hshort, hhrp, witness.encoding_valid,
    hfit, hprintable.map_toLower⟩, (convertbits_unpad hpadded.fit).mpr ⟨pad, hpadded⟩⟩
  have hpos := length_pos_iff.mpr hhrp
  have hsix := create_checksum_length hrp (witness.symbols groups) witness.encoding
  simp only [spelled, length_append, length_cons, length_map, hsix]
  omega

/-- No program has a long address. -/
theorem segwit_address_encode_length (hvalid : witness.Valid)
    (h : segwit_address_encode hrp witness.version witness.program = .ok addr) :
    addr.length ≤ hrp.length + 72 := by
  obtain ⟨groups, pad, -, hpadded⟩ := convertbits_pad witness.program
  rw [segwit_address_encode_eq hrp hvalid hpadded] at h
  have hpad := hpadded.pad_lt
  have hgroups := hpadded.length_eq
  have hlength := hvalid.length
  have hsix := create_checksum_length hrp (witness.symbols groups) witness.encoding
  have hsymbols : (witness.symbols groups).length = groups.length + 1 := rfl
  rw [length_map, length_map] at hgroups
  rw [← Except.ok.inj h]
  simp only [spelled, length_append, length_cons, length_map, hsix, hsymbols]
  omega

/-- What is read is written again in lower case. -/
theorem segwit_address_encode_decode (h : segwit_address_decode hrp addr = some witness) :
    witness.Valid ∧ Legible addr ∧
      segwit_address_encode hrp witness.version witness.program = .ok (addr.map Char.toLower) := by
  obtain ⟨hvalid, groups, hread, hprogram⟩ := segwit_address_decode_iff.mp h
  obtain ⟨hlegible, -, -, hfit, hlowered⟩ := bech32_decode_spelled.mp hread
  have hgroups : Groups.Fit 5 (groups.map UInt8.toNat) := (forall_mem_cons.mp hfit).2
  obtain ⟨pad, hpadded⟩ := (convertbits_unpad hgroups).mp hprogram
  refine ⟨hvalid, hlegible, ?_⟩
  rw [segwit_address_encode_eq hrp hvalid hpadded, hlowered]

/-- An address is read as what it was written from; what is read is written again in lower case;
and an accepted address with one symbol changed is refused. -/
theorem segwit_addresses_exact (hrp : Text) :
    (∀ witness : WitnessProgram, hrp ≠ [] → LowerPrintable hrp → witness.Valid →
      ∃ addr, segwit_address_encode hrp witness.version witness.program = .ok addr ∧
        (addr.length ≤ 90 → segwit_address_decode hrp addr = some witness)) ∧
    (∀ (addr : Text) (witness : WitnessProgram), segwit_address_decode hrp addr = some witness →
      segwit_address_encode hrp witness.version witness.program = .ok (addr.map Char.toLower)) ∧
    ∀ (addr : Text) (separator index : Nat) (c : Char), (segwit_address_decode hrp addr).isSome →
      addr.map Char.toLower = addr → rfind '1' addr = some separator → separator < index →
      index < addr.length → c ∈ kCharset → addr[index]? ≠ some c →
      ∀ hrp', segwit_address_decode hrp' (addr.set index c) = none := by
  refine ⟨?_, ?_, ?_⟩
  · intro witness hhrp hlower hvalid
    exact segwit_address_decode_encode hhrp hlower hvalid
  · intro addr witness hdecoded
    exact (segwit_address_encode_decode hdecoded).2.2
  · intro addr separator index c haccepted hlower hseparator hafter hindex hc hne hrp'
    obtain ⟨witness, hdecoded⟩ := Option.isSome_iff_exists.mp haccepted
    obtain ⟨-, groups, hread, -⟩ := segwit_address_decode_iff.mp hdecoded
    rw [segwit_address_decode, bech32_decode_changed hread hlower hseparator hafter hindex hc hne]

/-- Without a human-readable part the address is refused. -/
theorem bare_address_refused :
    LowerPrintable [] ∧ WitnessProgram.Valid ⟨1, [0, 0]⟩ ∧
      (segwit_address_encode [] 1 [0, 0]).toOption.map List.length = some 12 ∧
      (segwit_address_encode [] 1 [0, 0]).toOption.bind (segwit_address_decode []) = none := by
  refine ⟨by decide, ⟨by decide, by decide, by decide⟩, ?_⟩
  decide +kernel

/-- The address of a key hash of zeros, and the same with another symbol in it. -/
theorem segwit_addresses_exact_keyhash :
    let addr := "bc1qqqqqqqqqqqqqqqqqqqqqqqqqqqqqqqqq9e75rs".toList
    segwit_address_decode "bc".toList addr = some ⟨0, replicate 20 0⟩ ∧
      segwit_address_encode "bc".toList 0 (replicate 20 0) = .ok (addr.map Char.toLower) ∧
      ∀ hrp', segwit_address_decode hrp' (addr.set 9 'p') = none := by
  intro addr
  obtain ⟨hwrites, hreads, hchanged⟩ := segwit_addresses_exact "bc".toList
  obtain ⟨written, hwritten, hback⟩ := hwrites ⟨0, replicate 20 0⟩ (by decide) (by decide)
    ⟨by decide, by decide, by decide⟩
  obtain rfl : written = addr := by
    have hencoded : (segwit_address_encode "bc".toList 0 (replicate 20 0)).toOption = some addr := by
      decide +kernel
    rw [hwritten] at hencoded
    exact Option.some.inj hencoded
  have hdecoded := hback (by decide)
  exact ⟨hdecoded, hreads addr _ hdecoded, hchanged addr 2 9 'p' (by rw [hdecoded]; rfl) (by decide) (by decide)
    (by decide) (by decide) (by decide) (by decide)⟩

end erikslund.util
