import SoloPool.Bitcoin.BlockTemplate
import SoloPool.Bitcoin.Coinbase

namespace erikslund.bitcoin

open List

/-- The number that bytes on the stack of a script stand for: little-endian, with the sign in the
top bit of the last byte. -/
def script_number (bytes : Bytes) : Int :=
  match bytes.getLast? with
  | none => 0
  | some last =>
    if last.toNat < 0x80 then Radix.value bytes
    else -((Radix.value bytes : Int) - 0x80 * 256 ^ (bytes.length - 1))

/-- The number that a script of one push leaves: an opcode for the numbers up to 16, or the length
of the bytes that follow. -/
def pushed_number : Bytes → Option Int
  | [] => none
  | opcode :: data =>
    if data = [] then
      if opcode = 0x00 then some 0
      else if 0x51 ≤ opcode.toNat ∧ opcode.toNat ≤ 0x60 then some ((opcode.toNat : Int) - 0x50)
      else none
    else if opcode.toNat = data.length ∧ data.length ≤ 75 then some (script_number data)
    else none

/-- The push that BIP34 asks for. -/
structure MinimalPush (height : Int) (push : Bytes) : Prop where
  zero : height = 0 → push = [0x00]
  small : 1 ≤ height → height ≤ 16 → push = [UInt8.ofNat (0x50 + height.toNat)]
  large : 16 < height → ∃ magnitude : Bytes, push = UInt8.ofNat magnitude.length :: magnitude ∧
    script_number magnitude = height ∧
    (∀ bytes, script_number bytes = height → magnitude.length ≤ bytes.length) ∧
    ∀ shorter, magnitude = shorter ++ [0x00] → ∃ last, shorter.getLast? = some last ∧ 0x80 ≤ last.toNat

theorem script_number_concat (bytes : Bytes) (last : UInt8) :
    script_number (bytes ++ [last]) =
      if last.toNat < 0x80 then (Radix.value (bytes ++ [last]) : Int)
      else -((Radix.value (bytes ++ [last]) : Int) - 0x80 * 256 ^ bytes.length) := by
  rw [script_number, getLast?_concat, length_append, length_singleton, Nat.add_sub_cancel]

theorem value_concat (bytes : Bytes) (last : UInt8) :
    Radix.value (bytes ++ [last]) = Radix.value bytes + 256 ^ bytes.length * last.toNat := by
  rw [Radix.value_append]
  rfl

/-- A positive number fits in the bytes it is read from, less the bit of the sign. -/
theorem lt_of_script_number {bytes : Bytes} {height : Nat} (hpos : 0 < height) (h : script_number bytes = height) :
    2 * height < 256 ^ bytes.length := by
  obtain rfl | ⟨front, last, rfl⟩ := eq_nil_or_concat' bytes
  · rw [script_number] at h
    change (0 : Int) = height at h
    omega
  · have hfront := Radix.value_lt front
    have hvalue := value_concat front last
    have hweight : (256 : Int) ^ front.length = (256 ^ front.length : Nat) := by push_cast; rfl
    rw [script_number_concat, hvalue, hweight] at h
    rw [length_append, length_singleton, Nat.pow_succ]
    generalize 256 ^ front.length = weight at *
    split at h
    · rename_i hlast
      have hbound : weight * last.toNat ≤ weight * 0x7f := Nat.mul_le_mul_left weight (by omega)
      push_cast at h
      have hheight : Radix.value front + weight * last.toNat = height := by exact_mod_cast h
      omega
    · rename_i hlast
      have hbound : weight * 0x80 ≤ weight * last.toNat := Nat.mul_le_mul_left weight (by omega)
      push_cast at h hbound
      omega

/-- The loop writes the bytes of the number, without a zero at the end. -/
theorem height_magnitude_spec {fuel n : Nat} (hpos : 0 < n) (hlt : n < 256 ^ fuel) :
    ∃ front last, height_magnitude fuel n = front ++ [last] ∧ 0 < last.toNat ∧
      Radix.value (front ++ [last]) = n := by
  induction fuel generalizing n with
  | zero => omega
  | succ fuel ih =>
    have hbyte : (UInt8.ofNat n).toNat = n % 256 := by simp
    rw [height_magnitude, if_neg (by omega)]
    by_cases hrest : n / 256 = 0
    · refine ⟨[], UInt8.ofNat n, ?_, by omega, ?_⟩
      · rw [hrest]
        cases fuel <;> rfl
      · rw [nil_append, Radix.value, Radix.value, hbyte]
        omega
    · rw [Nat.pow_succ] at hlt
      obtain ⟨front, last, hwritten, hlast, hvalue⟩ := ih (n := n / 256) (by omega) (by omega)
      refine ⟨UInt8.ofNat n :: front, last, by rw [hwritten, cons_append], hlast, ?_⟩
      rw [cons_append, Radix.value, hvalue, hbyte]
      omega

theorem high_bit_iff (byte : UInt8) : byte &&& 0x80 ≠ 0 ↔ 0x80 ≤ byte.toNat := by
  have hall : ∀ value : Fin 256, UInt8.ofNat value.val &&& 0x80 ≠ 0 ↔ 0x80 ≤ (UInt8.ofNat value.val).toNat := by
    decide +kernel
  have hbyte := hall ⟨byte.toNat, byte.toNat_lt⟩
  rwa [UInt8.ofNat_toNat] at hbyte

/-- A zero is appended where the last byte would read as a sign. -/
def padded (magnitude : Bytes) : Bytes :=
  if magnitude.getLastD 0 &&& 0x80 ≠ 0 then magnitude ++ [0x00] else magnitude

theorem serialize_height_large {height : Int} (hlarge : 16 < height) :
    serialize_height height =
      .ok (UInt8.ofNat (padded (height_magnitude 8 height.toNat)).length ::
        padded (height_magnitude 8 height.toNat)) := by
  rw [serialize_height, if_neg (by omega), if_neg (by omega), if_neg (by omega)]
  rfl

/-- What follows the length stands for the height, in as few bytes as any that do. -/
structure Shortest (height : Nat) (magnitude : Bytes) : Prop where
  nonempty : magnitude ≠ []
  length : magnitude.length ≤ 8
  number : script_number magnitude = height
  shortest : ∀ bytes, script_number bytes = height → magnitude.length ≤ bytes.length
  needed : ∀ shorter, magnitude = shorter ++ [0x00] → ∃ last, shorter.getLast? = some last ∧ 0x80 ≤ last.toNat

/-- Of two byte counts, the one whose bound a number has reached is below the other, which still holds it. -/
theorem pow_lt_of_le {count count' n : Nat} (hle : 256 ^ count ≤ n) (hlt : n < 256 ^ count') : count < count' :=
  (Nat.pow_lt_pow_iff_right (by decide)).mp (Nat.lt_of_le_of_lt hle hlt)

theorem padded_shortest {height : Nat} (hpos : 0 < height) (hlt : height < 2 ^ 63) :
    Shortest height (padded (height_magnitude 8 height)) := by
  obtain ⟨front, last, hwritten, hlast, hvalue⟩ := height_magnitude_spec hpos
    (Nat.lt_trans hlt (by decide : 2 ^ 63 < 256 ^ 8))
  have hsum := value_concat front last
  have hlimit : 2 * height < 256 ^ 8 := by omega
  have hgetLast : (front ++ [last]).getLastD 0 = last := by
    rw [getLastD_eq_getLast?, getLast?_concat, Option.getD_some]
  rw [hwritten, padded, hgetLast]
  by_cases hhigh : 0x80 ≤ last.toNat
  · rw [if_pos ((high_bit_iff last).mpr hhigh)]
    have hbound : 256 ^ (front.length + 1) ≤ 2 * height := by
      have hmul : 256 ^ front.length * 0x80 ≤ 256 ^ front.length * last.toNat := Nat.mul_le_mul_left _ hhigh
      rw [Nat.pow_succ]
      omega
    constructor
    · exact append_ne_nil_of_right_ne_nil _ (cons_ne_nil _ _)
    · have hless := pow_lt_of_le hbound hlimit
      simp only [length_append, length_singleton]
      omega
    · rw [script_number_concat, if_pos (by decide), value_concat, hvalue]
      rfl
    · intro bytes hbytes
      have hless := pow_lt_of_le hbound (lt_of_script_number hpos hbytes)
      simp only [length_append, length_singleton]
      omega
    · intro shorter hshorter
      rw [← append_cancel_right hshorter]
      exact ⟨last, getLast?_concat, hhigh⟩
  · rw [if_neg (fun hne => hhigh ((high_bit_iff last).mp hne))]
    have hbound : 256 ^ front.length ≤ height := by
      have hmul : 256 ^ front.length * 1 ≤ 256 ^ front.length * last.toNat := Nat.mul_le_mul_left _ hlast
      omega
    constructor
    · exact append_ne_nil_of_right_ne_nil _ (cons_ne_nil _ _)
    · have hless := pow_lt_of_le hbound (show height < 256 ^ 8 by omega)
      simp only [length_append, length_singleton]
      omega
    · rw [script_number_concat, if_pos (by omega), hvalue]
    · intro bytes hbytes
      have hdouble := lt_of_script_number hpos hbytes
      have hless := pow_lt_of_le hbound (show height < 256 ^ bytes.length by omega)
      simp only [length_append, length_singleton]
      omega
    · intro shorter hshorter
      have hzero := (append_inj' hshorter rfl).2
      rw [singleton_inj.mp hzero] at hlast
      exact absurd hlast (by decide)

/-- The push of a height is the minimal one and reads back as the height. -/
theorem serialize_height_push {height : Int} (hnonneg : 0 ≤ height) (hlt : height < 2 ^ 63) :
    ∃ push, serialize_height height = .ok push ∧ MinimalPush height push ∧ pushed_number push = some height ∧
      push.length ≤ kMaxHeightPush := by
  by_cases hlarge : 16 < height
  · have hshortest := padded_shortest (show 0 < height.toNat by omega) (show height.toNat < 2 ^ 63 by omega)
    have hcast : ((height.toNat : Nat) : Int) = height := Int.toNat_of_nonneg hnonneg
    refine ⟨_, serialize_height_large hlarge, ?_, ?_, ?_⟩
    · refine ⟨fun hzero => by omega, fun _ hsmall => by omega, fun _ => ⟨_, rfl, ?_, ?_, hshortest.needed⟩⟩
      · rw [hshortest.number, hcast]
      · intro bytes hbytes
        exact hshortest.shortest bytes (by rw [hbytes, hcast])
    · have hlength := hshortest.length
      have hbyte : (UInt8.ofNat (padded (height_magnitude 8 height.toNat)).length).toNat =
          (padded (height_magnitude 8 height.toNat)).length := by
        rw [UInt8.toNat_ofNat']
        omega
      rw [pushed_number, if_neg hshortest.nonempty, if_pos ⟨hbyte, by omega⟩, hshortest.number, hcast]
    · have hlength := hshortest.length
      rw [length_cons, kMaxHeightPush]
      omega
  · by_cases hzero : height = 0
    · subst hzero
      exact ⟨[0x00], rfl, ⟨fun _ => rfl, fun hone => by omega, fun hbig => by omega⟩, rfl, by decide⟩
    · have hbyte : (UInt8.ofNat (0x50 + height.toNat)).toNat = 0x50 + height.toNat := by
        rw [UInt8.toNat_ofNat']
        omega
      refine ⟨[UInt8.ofNat (0x50 + height.toNat)], ?_, ⟨fun heq => by omega, fun _ _ => rfl, fun hbig => by omega⟩,
        ?_, (by decide : 1 ≤ 10)⟩
      · rw [serialize_height, if_neg (by omega), if_neg hzero, if_pos (by omega)]
      · have hne : UInt8.ofNat (0x50 + height.toNat) ≠ 0x00 := by
          intro heq
          rw [heq] at hbyte
          change 0 = _ at hbyte
          omega
        rw [pushed_number, if_pos rfl, if_neg hne, if_pos (by omega), hbyte]
        congr 1
        omega

/-- Every height has the push that BIP34 asks for, which is read back as the height, differs from
that of every other height and stays within the bound of the configuration check. -/
theorem serialize_height_minimal :
    (∀ height : Int, 0 ≤ height → height < 2 ^ 63 →
      ∃ push, serialize_height height = .ok push ∧ MinimalPush height push ∧ pushed_number push = some height ∧
        push.length ≤ kMaxHeightPush) ∧
    ∀ height height' : Int, 0 ≤ height → height < 2 ^ 63 → 0 ≤ height' → height' < 2 ^ 63 →
      serialize_height height = serialize_height height' → height = height' := by
  constructor
  · intro height hnonneg hlt
    exact serialize_height_push hnonneg hlt
  · intro height height' hnonneg hlt hnonneg' hlt' hsame
    obtain ⟨push, hpush, -, hread, -⟩ := serialize_height_push hnonneg hlt
    obtain ⟨push', hpush', -, hread', -⟩ := serialize_height_push hnonneg' hlt'
    rw [hpush, hpush', Except.ok.injEq] at hsame
    rw [hsame, hread', Option.some.injEq] at hread
    exact hread.symm

theorem serialize_height_minimal_padded :
    ∃ push, serialize_height 128 = .ok push ∧ MinimalPush 128 push ∧ pushed_number push = some 128 ∧
      push.length ≤ kMaxHeightPush :=
  serialize_height_minimal.1 128 (by decide) (by decide)

end erikslund.bitcoin
