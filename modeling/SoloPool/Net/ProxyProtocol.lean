import Mathlib.Data.List.TakeWhile
import Mathlib.Tactic.IntervalCases
import SoloPool.Lib.Delimited
import SoloPool.Util.Bytes

namespace erikslund.net

open List

/-- A `std::string` as a C function reads it: up to its first zero byte. -/
def c_str (text : Text) : Text := text.takeWhile (· ≠ '\x00')

/-- The number that decimal digits denote. -/
def decimal (digits : Text) : Nat := digits.foldl (fun value digit => value * 10 + (digit.toNat - '0'.toNat)) 0

/-- One field of a dotted quad. -/
def octet (field : Text) : Option Nat :=
  if field.isEmpty ∨ ¬ field.all Char.isDigit ∨ (field.length > 1 ∧ field.head? = some '0') ∨ decimal field > 255 then
    none
  else some (decimal field)

/-- The address that a dotted quad denotes. -/
def dotted_quad (text : Text) : Option (BitVec 32) :=
  match text.splitOn '.' with
  | [first, second, third, fourth] => do
    let a ← octet first
    let b ← octet second
    let c ← octet third
    let d ← octet fourth
    return BitVec.ofNat 32 (((a * 256 + b) * 256 + c) * 256 + d)
  | _ => none

/-- On a little-endian host, the bytes reversed. -/
def htonl (host : BitVec 32) : BitVec 32 :=
  (host >>> 24) ||| ((host >>> 8) &&& 0xff00#32) ||| ((host <<< 8) &&& 0xff0000#32) ||| (host <<< 24)

/-- `inet_pton(AF_INET, ...)`: the address in network byte order. -/
def inet_pton (text : Text) : Option (BitVec 32) := (dotted_quad (c_str text)).map htonl

/-- `inet_pton(AF_INET6, ...)` as far as it is asked: which texts it parses. -/
structure Inet6 where
  parses : Text → Bool
  characters : ∀ text, parses text = true → '/' ∉ text ∧ '\x00' ∉ text

def valid_ipv4 (ip : Text) : Bool := (inet_pton ip).isSome

def valid_ipv6 (inet6 : Inet6) (ip : Text) : Bool := inet6.parses (c_str ip)

/-- The prefix length in an `int`, which wraps around. -/
def read_prefix_length (digits : Text) : Int :=
  digits.foldl (fun prefix_length digit => Int.bmod (prefix_length * 10 + (digit.toNat - '0'.toNat : Nat)) (2 ^ 32)) 0

def ipv4_in_cidr (ip net : Text) (prefix_length : Int) : Bool :=
  if prefix_length < 0 ∨ prefix_length > 32 then false
  else
    match inet_pton ip, inet_pton net with
    | some ip_addr, some net_addr =>
      let mask := if prefix_length = 0 then 0#32 else htonl (0xFFFFFFFF#32 <<< (32 - prefix_length.toNat))
      decide (ip_addr &&& mask = net_addr &&& mask)
    | _, _ => false

/-- One turn of the loop over the trusted entries. -/
def entry_trusts (ip entry : Text) : Bool :=
  match (entry.dropWhile (· ≠ '/')).tail? with
  | none => decide (entry = ip)
  | some text =>
    let net := entry.takeWhile (· ≠ '/')
    let digits := !text.isEmpty && text.all Char.isDigit
    digits && ipv4_in_cidr ip net (read_prefix_length (text.takeWhile Char.isDigit))

def source_trusted (ip : Text) (trusted : List Text) : Bool := trusted.any (entry_trusts ip)

def valid_trusted_source (inet6 : Inet6) (entry : Text) : Bool :=
  match (entry.dropWhile (· ≠ '/')).tail? with
  | none => valid_ipv4 entry || valid_ipv6 inet6 entry
  | some text =>
    let net := entry.takeWhile (· ≠ '/')
    if ¬ valid_ipv4 net then false
    else if text.isEmpty then false
    else if ¬ text.all Char.isDigit then false
    else decide (read_prefix_length text ≥ 0 ∧ read_prefix_length text ≤ 32)

/-- The network `net` of `length` bits, written as an address, holds the address `ip`. -/
def InNetwork (ip net : Text) (length : Nat) : Prop :=
  length ≤ 32 ∧ ∃ source network, dotted_quad ip = some source ∧ dotted_quad net = some network ∧
    source >>> (32 - length) = network >>> (32 - length)

/-- What an entry is meant to trust: the address it names, or those of its network. -/
inductive Trusts (ip : Text) : Text → Prop where
  | address : Trusts ip ip
  | network (net digits : Text) (hsome : digits ≠ []) (hdigits : ∀ digit ∈ digits, digit.isDigit = true)
      (hnetwork : InNetwork ip net (decimal digits)) : Trusts ip (net ++ '/' :: digits)

/-- An entry that is read as a network other than the one it names: its prefix length does not
fit an `int`, or a zero byte ends its network early. -/
inductive Misread (ip : Text) : Text → Prop where
  | mk (net digits : Text) (hfree : '/' ∉ net) (hsome : digits ≠ [])
      (hdigits : ∀ digit ∈ digits, digit.isDigit = true)
      (hmisread : 2 ^ 32 ≤ decimal digits ∨ '\x00' ∈ net)
      (hnetwork : InNetwork ip (c_str net) (decimal digits % 2 ^ 32)) : Misread ip (net ++ '/' :: digits)

section Bits

theorem htonl_htonl (x : BitVec 32) : htonl (htonl x) = x := by
  apply BitVec.eq_of_getLsbD_eq
  intro i hi
  unfold htonl
  interval_cases i <;> simp

theorem htonl_and (x y : BitVec 32) : htonl (x &&& y) = htonl x &&& htonl y := by
  apply BitVec.eq_of_getLsbD_eq
  intro i hi
  unfold htonl
  interval_cases i <;> simp

theorem getLsbD_and_mask (x : BitVec 32) (shift i : Nat) :
    (x &&& (0xFFFFFFFF#32 <<< shift)).getLsbD i = (decide (shift ≤ i) && x.getLsbD i) := by
  have hones : 0xFFFFFFFF#32 = BitVec.allOnes 32 := by decide
  rw [hones, BitVec.getLsbD_and, BitVec.getLsbD_shiftLeft, BitVec.getLsbD_allOnes]
  by_cases hwidth : i < 32
  · by_cases hshift : shift ≤ i
    · have hlow : ¬ i < shift := by omega
      have hhigh : i - shift < 32 := by omega
      simp [hwidth, hshift, hlow, hhigh]
    · simp [hshift, Nat.lt_of_not_le hshift]
  · simp [BitVec.getLsbD_of_ge x i (Nat.le_of_not_lt hwidth)]

/-- Words agree under a mask of their top bits just if they agree with the others shifted out. -/
theorem and_mask_eq_iff {x y : BitVec 32} {shift : Nat} :
    x &&& (0xFFFFFFFF#32 <<< shift) = y &&& (0xFFFFFFFF#32 <<< shift) ↔ x >>> shift = y >>> shift := by
  constructor <;> intro h <;> apply BitVec.eq_of_getLsbD_eq <;> intro i hi
  · have hbit := congrArg (fun word => word.getLsbD (shift + i)) h
    simpa only [getLsbD_and_mask, Nat.le_add_right, decide_true, Bool.true_and, BitVec.getLsbD_ushiftRight] using hbit
  · have hbit := congrArg (fun word => word.getLsbD (i - shift)) h
    rw [getLsbD_and_mask, getLsbD_and_mask]
    by_cases hshift : shift ≤ i
    · simp only [BitVec.getLsbD_ushiftRight, Nat.add_sub_of_le hshift] at hbit
      rw [hbit]
    · rw [decide_eq_false hshift, Bool.false_and, Bool.false_and]

theorem htonl_inj {x y : BitVec 32} : htonl x = htonl y ↔ x = y := by
  refine ⟨fun h => ?_, fun h => by rw [h]⟩
  rw [← htonl_htonl x, h, htonl_htonl]

end Bits

/-- In network byte order, the comparison under the mask is that of the networks. -/
theorem masked_eq_iff {source network : BitVec 32} {length : Nat} (hlength : length ≤ 32) :
    (htonl source &&& (if (length : Int) = 0 then 0#32 else htonl (0xFFFFFFFF#32 <<< (32 - (length : Int).toNat))) =
      htonl network &&& (if (length : Int) = 0 then 0#32 else htonl (0xFFFFFFFF#32 <<< (32 - (length : Int).toNat)))) ↔
      source >>> (32 - length) = network >>> (32 - length) := by
  by_cases hzero : length = 0
  · subst hzero
    simp [BitVec.ushiftRight_eq_zero]
  · rw [if_neg (by omega), Int.toNat_natCast, ← htonl_and, ← htonl_and, htonl_inj, and_mask_eq_iff]

variable {ip net text : Text} {inet6 : Inet6}

theorem ipv4_in_cidr_iff {length : Nat} (hip : c_str ip = ip) :
    ipv4_in_cidr ip net length = true ↔ InNetwork ip (c_str net) length := by
  unfold ipv4_in_cidr InNetwork inet_pton
  rw [hip]
  by_cases hlength : length ≤ 32
  · rw [if_neg (by omega)]
    cases hsource : dotted_quad ip with
    | none => simp
    | some source =>
      cases hnetwork : dotted_quad (c_str net) with
      | none => simp
      | some network =>
        simp only [Option.map_some, decide_eq_true_eq, masked_eq_iff hlength]
        simp [hlength]
  · rw [if_pos (by omega)]
    simp [hlength]

theorem ipv4_in_cidr_out_of_range {prefix_length : Int}
    (h : prefix_length < 0 ∨ prefix_length > 32) : ipv4_in_cidr ip net prefix_length = false := by
  unfold ipv4_in_cidr
  rw [if_pos h]

theorem foldl_bmod (width : Nat) (digits : Text) (value : Nat) :
    digits.foldl (fun prefix_length digit =>
        Int.bmod (prefix_length * 10 + (digit.toNat - '0'.toNat : Nat)) width) (Int.bmod value width) =
      Int.bmod (digits.foldl (fun value digit => value * 10 + (digit.toNat - '0'.toNat)) value : Nat) width := by
  induction digits generalizing value with
  | nil => rfl
  | cons digit digits ih =>
    have hstep : Int.bmod (Int.bmod value width * 10 + (digit.toNat - '0'.toNat : Nat)) width =
        Int.bmod (value * 10 + (digit.toNat - '0'.toNat) : Nat) width := by
      rw [← Int.bmod_add_bmod, Int.bmod_mul_bmod, Int.bmod_add_bmod, Int.natCast_add, Int.natCast_mul]
      rfl
    rw [foldl_cons, foldl_cons, hstep]
    exact ih _

/-- The prefix length is read modulo the width of an `int`. -/
theorem read_prefix_length_eq (digits : Text) :
    read_prefix_length digits = Int.bmod (decimal digits) (2 ^ 32) := by
  have hfold := foldl_bmod (2 ^ 32) digits 0
  rwa [Int.natCast_zero, Int.zero_bmod] at hfold

theorem read_prefix_length_cases (digits : Text) :
    decimal digits % 2 ^ 32 ≤ 32 ∧ read_prefix_length digits = (decimal digits % 2 ^ 32 : Nat) ∨
      32 < decimal digits % 2 ^ 32 ∧ (read_prefix_length digits < 0 ∨ read_prefix_length digits > 32) := by
  rw [read_prefix_length_eq, Int.bmod_def]
  split <;> omega

theorem octet_digits {field : Text} {value : Nat} (h : octet field = some value) :
    ∀ char ∈ field, char.isDigit = true := by
  unfold octet at h
  split at h
  · cases h
  · rename_i hfield
    simp only [not_or, not_not] at hfield
    exact all_eq_true.mp hfield.2.1

open Delimited

/-- A dotted quad is made of digits and dots. -/
theorem dotted_quad_characters {address : BitVec 32} (h : dotted_quad text = some address) :
    ∀ char ∈ text, char.isDigit = true ∨ char = '.' := by
  unfold dotted_quad at h
  split at h
  · rename_i first second third fourth hsplit
    obtain ⟨a, ha, h⟩ := Option.bind_eq_some_iff.mp h
    obtain ⟨b, hb, h⟩ := Option.bind_eq_some_iff.mp h
    obtain ⟨c, hc, h⟩ := Option.bind_eq_some_iff.mp h
    obtain ⟨d, hd, -⟩ := Option.bind_eq_some_iff.mp h
    have htext : ['.'].intercalate (text.splitOn '.') = text := intercalate_splitOn ..
    rw [hsplit, intercalate_eq_flatMap] at htext
    intro char hmem
    rw [← htext] at hmem
    simp only [flatMap_cons, flatMap_nil, append_nil, mem_append, mem_cons] at hmem
    rcases hmem with hmem | (hdot | hmem) | (hdot | hmem) | hdot | hmem
    · exact .inl (octet_digits ha char hmem)
    · exact .inr hdot
    · exact .inl (octet_digits hb char hmem)
    · exact .inr hdot
    · exact .inl (octet_digits hc char hmem)
    · exact .inr hdot
    · exact .inl (octet_digits hd char hmem)
  · cases h

theorem dotted_quad_free {address : BitVec 32} (h : dotted_quad text = some address) :
    '/' ∉ text ∧ '\x00' ∉ text := by
  constructor <;> intro hmem
  · exact absurd (dotted_quad_characters h _ hmem) (by decide)
  · exact absurd (dotted_quad_characters h _ hmem) (by decide)

theorem c_str_eq (hfree : '\x00' ∉ text) : c_str text = text := by
  apply takeWhile_eq_self_iff.mpr
  intro char hmem
  apply decide_eq_true
  rintro rfl
  exact hfree hmem

/-- The text of an address. -/
def ValidIp (inet6 : Inet6) (ip : Text) : Prop := (dotted_quad ip).isSome = true ∨ inet6.parses ip = true

theorem ValidIp.free (h : ValidIp inet6 ip) : '/' ∉ ip ∧ '\x00' ∉ ip := by
  rcases h with h | h
  · obtain ⟨address, haddress⟩ := Option.isSome_iff_exists.mp h
    exact dotted_quad_free haddress
  · exact inet6.characters ip h

/-- An entry with a slash, by its two sides. -/
theorem entry_trusts_network {digits : Text} (hip : '\x00' ∉ ip) (hfree : '/' ∉ net) :
    entry_trusts ip (net ++ '/' :: digits) = true ↔ digits ≠ [] ∧ (∀ digit ∈ digits, digit.isDigit = true) ∧
      InNetwork ip (c_str net) (decimal digits % 2 ^ 32) := by
  unfold entry_trusts
  rw [dropWhile_field hfree, takeWhile_field hfree]
  simp only [tail?_cons, Bool.and_eq_true, Bool.not_eq_true', isEmpty_eq_false_iff, all_eq_true,
    and_assoc]
  refine and_congr_right fun _ => and_congr_right fun hdigits => ?_
  rw [takeWhile_eq_self_iff.mpr hdigits]
  rcases read_prefix_length_cases digits with ⟨hsmall, hread⟩ | ⟨hlarge, hread⟩
  · rw [hread, ipv4_in_cidr_iff (c_str_eq hip)]
  · rw [ipv4_in_cidr_out_of_range hread]
    exact iff_of_false Bool.false_ne_true fun h => absurd h.1 (Nat.not_le.mpr hlarge)

/-- An entry trusts what it is meant to, or is misread. -/
theorem entry_trusts_iff (hip : ValidIp inet6 ip) (entry : Text) :
    entry_trusts ip entry = true ↔ Trusts ip entry ∨ Misread ip entry := by
  obtain ⟨hslash, hzero⟩ := hip.free
  constructor
  · intro h
    cases htail : (entry.dropWhile (· ≠ '/')).tail? with
    | none =>
      unfold entry_trusts at h
      rw [htail] at h
      rw [of_decide_eq_true h]
      exact .inl .address
    | some digits =>
      have hentry := eq_of_tail_dropWhile htail
      have hfree : '/' ∉ entry.takeWhile (· ≠ '/') := by
        intro hmem
        have hne := mem_takeWhile_imp (p := fun x => decide (x ≠ '/')) hmem
        exact absurd rfl (of_decide_eq_true hne)
      generalize entry.takeWhile (· ≠ '/') = net at hentry hfree
      rw [hentry] at h ⊢
      obtain ⟨hsome, hdigits, hnetwork⟩ := (entry_trusts_network hzero hfree).mp h
      by_cases hmisread : 2 ^ 32 ≤ decimal digits ∨ '\x00' ∈ net
      · exact .inr (.mk net digits hfree hsome hdigits hmisread hnetwork)
      · rw [not_or, Nat.not_le] at hmisread
        rw [Nat.mod_eq_of_lt hmisread.1, c_str_eq hmisread.2] at hnetwork
        exact .inl (.network net digits hsome hdigits hnetwork)
  · rintro (htrusts | hmisread)
    · cases htrusts with
      | address =>
        unfold entry_trusts
        have hnone : ip.dropWhile (· ≠ '/') = [] := by
          rw [dropWhile_eq_nil_iff]
          intro char hmem
          apply decide_eq_true
          rintro rfl
          exact hslash hmem
        rw [hnone]
        exact decide_eq_true rfl
      | network net digits hsome hdigits hnetwork =>
        obtain ⟨hlength, source, network, hsource, hquad, hagree⟩ := hnetwork
        obtain ⟨hfree, hnet⟩ := dotted_quad_free hquad
        rw [entry_trusts_network hzero hfree, c_str_eq hnet, Nat.mod_eq_of_lt (by omega)]
        exact ⟨hsome, hdigits, hlength, source, network, hsource, hquad, hagree⟩
    · cases hmisread with
      | mk net digits hfree hsome hdigits hmisread hnetwork =>
        exact (entry_trusts_network hzero hfree).mpr ⟨hsome, hdigits, hnetwork⟩

/-- An entry the configuration refuses trusts no address. -/
theorem entry_trusts_of_invalid {entry : Text} (hip : ValidIp inet6 ip)
    (h : valid_trusted_source inet6 entry = false) : entry_trusts ip entry = false := by
  rw [← Bool.not_eq_true]
  intro htrusts
  have hvalid : valid_trusted_source inet6 entry = true := by
    unfold valid_trusted_source
    unfold entry_trusts at htrusts
    split at htrusts
    · rw [of_decide_eq_true htrusts, Bool.or_eq_true, valid_ipv4, valid_ipv6, inet_pton, c_str_eq hip.free.2,
        Option.isSome_map]
      exact hip
    · rename_i text htail
      simp only [Bool.and_eq_true, Bool.not_eq_true', isEmpty_eq_false_iff] at htrusts
      obtain ⟨⟨hsome, hdigits⟩, hcidr⟩ := htrusts
      rw [takeWhile_eq_self_iff.mpr (all_eq_true.mp hdigits)] at hcidr
      have hrange : ¬ (read_prefix_length text < 0 ∨ read_prefix_length text > 32) := by
        intro hout
        rw [ipv4_in_cidr_out_of_range hout] at hcidr
        exact Bool.false_ne_true hcidr
      have hnet : valid_ipv4 (entry.takeWhile (· ≠ '/')) = true := by
        unfold ipv4_in_cidr at hcidr
        rw [if_neg hrange] at hcidr
        split at hcidr
        · rename_i network hsource hnetwork
          rw [valid_ipv4, hnetwork]
          rfl
        · cases hcidr
      simp only [hnet, hdigits, not_true_eq_false, if_false, List.isEmpty_iff, if_neg hsome]
      exact decide_eq_true (by omega)
  rw [h] at hvalid
  exact Bool.false_ne_true hvalid

/-- A source is trusted as its list says, unless an entry of the list is misread; entries the
configuration refuses are never the reason. -/
theorem source_trusted_as_listed {inet6 : Inet6} {ip : Text} (hip : ValidIp inet6 ip) (trusted : List Text) :
    ((source_trusted ip trusted = true ↔ ∃ entry ∈ trusted, Trusts ip entry) ↔
      (∃ entry ∈ trusted, Trusts ip entry) ∨ ∀ entry ∈ trusted, ¬ Misread ip entry) ∧
    source_trusted ip trusted = source_trusted ip (trusted.filter (valid_trusted_source inet6)) := by
  have hany : source_trusted ip trusted = true ↔ ∃ entry ∈ trusted, Trusts ip entry ∨ Misread ip entry := by
    rw [source_trusted, any_eq_true]
    exact exists_congr fun entry => and_congr_right fun _ => entry_trusts_iff hip entry
  constructor
  · rw [hany]
    constructor
    · intro hsame
      by_cases hlisted : ∃ entry ∈ trusted, Trusts ip entry
      · exact .inl hlisted
      · refine .inr fun entry hmem hmisread => hlisted ?_
        exact hsame.mp ⟨entry, hmem, .inr hmisread⟩
    · intro hcondition
      refine ⟨?_, fun ⟨entry, hmem, htrusts⟩ => ⟨entry, hmem, .inl htrusts⟩⟩
      rintro ⟨entry, hmem, htrusts | hmisread⟩
      · exact ⟨entry, hmem, htrusts⟩
      · rcases hcondition with hlisted | hnone
        · exact hlisted
        · exact absurd hmisread (hnone entry hmem)
  · rw [Bool.eq_iff_iff, source_trusted, source_trusted, any_eq_true, any_eq_true]
    refine exists_congr fun entry => ?_
    rw [mem_filter, and_assoc]
    refine and_congr_right fun _ => ⟨fun htrusts => ⟨?_, htrusts⟩, fun h => h.2⟩
    rw [← Bool.not_eq_false]
    intro hinvalid
    rw [entry_trusts_of_invalid hip hinvalid] at htrusts
    exact Bool.false_ne_true htrusts

instance (ip net : Text) (length : Nat) : Decidable (InNetwork ip net length) :=
  decidable_of_iff (length ≤ 32 ∧ ((dotted_quad ip).any fun source : BitVec 32 => (dotted_quad net).any fun network : BitVec 32 =>
      source >>> (32 - length) == network >>> (32 - length)) = true) (by
    simp only [InNetwork, Option.any_eq_true, beq_iff_eq, exists_and_left])

theorem trusts_iff {entry : Text} : Trusts ip entry ↔ entry = ip ∨
    ∃ digits ∈ (entry.dropWhile (· ≠ '/')).tail?, digits ≠ [] ∧ digits.all Char.isDigit = true ∧
      InNetwork ip (entry.takeWhile (· ≠ '/')) (decimal digits) := by
  constructor
  · intro h
    cases h with
    | address => exact .inl rfl
    | network net digits hsome hdigits hnetwork =>
      obtain ⟨-, source, network, -, hquad, -⟩ := id hnetwork
      have hfree := (dotted_quad_free hquad).1
      rw [dropWhile_field hfree, takeWhile_field hfree]
      exact .inr ⟨digits, rfl, hsome, all_eq_true.mpr hdigits, hnetwork⟩
  · rintro (rfl | ⟨digits, htail, hsome, hdigits, hnetwork⟩)
    · exact .address
    · rw [eq_of_tail_dropWhile htail]
      exact .network _ _ hsome (all_eq_true.mp hdigits) hnetwork

instance (ip entry : Text) : Decidable (Trusts ip entry) := decidable_of_iff _ trusts_iff.symm

/-- A prefix length of `2 ^ 32` is read as zero, so the entry trusts every address. -/
theorem wrapped_prefix_trusts_all :
    source_trusted "192.0.2.1".toList ["10.0.0.0/4294967296".toList] = true ∧
      ¬ Trusts "192.0.2.1".toList "10.0.0.0/4294967296".toList := by
  decide

/-- A list whose one entry is the network of the address. -/
theorem source_trusted_as_listed_network :
    source_trusted "10.1.2.3".toList ["10.0.0.0/8".toList] = true := by
  have hip : ValidIp ⟨fun _ => false, fun _ h => (Bool.false_ne_true h).elim⟩ "10.1.2.3".toList := .inl (by decide)
  have hlisted : ∃ entry ∈ ["10.0.0.0/8".toList], Trusts "10.1.2.3".toList entry :=
    ⟨_, mem_singleton_self _, by decide⟩
  exact ((source_trusted_as_listed hip ["10.0.0.0/8".toList]).1.mpr (.inl hlisted)).mpr hlisted

end erikslund.net
