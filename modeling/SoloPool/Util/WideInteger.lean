import SoloPool.Lib.Limbs

/-! The 320-bit integers of the difficulty conversion. -/

namespace erikslund.util

open List Nat

def kWideWordCount : Nat := 5

def kWordBits : Nat := 64

/-- A fixed number of words, the least significant first. -/
structure WideInteger where
  words : List UInt64
  size_eq : words.length = kWideWordCount

namespace WideInteger

def toNat (value : WideInteger) : Nat := Limbs.value value.words

def zero_words : List UInt64 := replicate kWideWordCount 0

/-- One turn of the loop of `shift_left`. -/
def shift_word (value : List UInt64) (word_shift bit_shift : Nat) (shifted : List UInt64) (source : Nat) : List UInt64 :=
  let destination := source + word_shift
  if destination ≥ shifted.length then shifted
  else
    let word := value.getD source 0
    let low := shifted.modify destination (· ||| word <<< UInt64.ofNat bit_shift)
    if bit_shift ≠ 0 ∧ destination + 1 < shifted.length then
      low.modify (destination + 1) (· ||| word >>> UInt64.ofNat (kWordBits - bit_shift))
    else low

def shift_words (value : List UInt64) (shift : Nat) : List UInt64 :=
  (range value.length).foldl (shift_word value (shift / kWordBits) (shift % kWordBits))
    (replicate value.length 0)

/-- The comparison loop, from the last word down. -/
def compare_words : List UInt64 → List UInt64 → Int
  | left :: lefts, right :: rights =>
    let higher := compare_words lefts rights
    if higher ≠ 0 then higher
    else if left < right then -1
    else if left > right then 1
    else 0
  | _, _ => 0

/-- `std::bit_width`. -/
def bit_width (word : UInt64) : Nat := if word = 0 then 0 else log2 word.toNat + 1

def bit_length_words : List UInt64 → Nat
  | [] => 0
  | word :: words =>
    let higher := bit_length_words words
    if higher ≠ 0 then kWordBits + higher else bit_width word

/-- The subtraction loop, with the borrow out of the words before. -/
def subtract_words (borrow : Bool) : List UInt64 → List UInt64 → List UInt64
  | left :: lefts, right :: rights =>
    let subtrahend := right + borrow.toUInt64
    let addition_overflow := subtrahend < right
    let next_borrow := addition_overflow ∨ left < subtrahend
    (left - subtrahend) :: subtract_words (decide next_borrow) lefts rights
  | _, _ => []

variable {value : List UInt64} {word_shift bit_shift : Nat}

theorem shift_word_length (shifted : List UInt64) (source : Nat) :
    (shift_word value word_shift bit_shift shifted source).length = shifted.length := by
  simp only [shift_word]
  split
  · rfl
  · split
    · rw [length_modify, length_modify]
    · rw [length_modify]

theorem shift_words_length (value : List UInt64) (shift : Nat) : (shift_words value shift).length = value.length := by
  have hfold (sources : List Nat) (shifted : List UInt64) :
      (sources.foldl (shift_word value (shift / kWordBits) (shift % kWordBits)) shifted).length = shifted.length := by
    induction sources generalizing shifted with
    | nil => rfl
    | cons source sources ih => rw [foldl_cons, ih, shift_word_length]
  rw [shift_words, hfold, length_replicate]

theorem subtract_words_length (borrow : Bool) {left right : List UInt64} (h : left.length = right.length) :
    (subtract_words borrow left right).length = left.length := by
  induction left generalizing borrow right with
  | nil => rfl
  | cons word words ih =>
    cases right with
    | nil => cases h
    | cons word' words' => rw [subtract_words, length_cons, ih _ (Nat.succ.inj h), length_cons]

/-- The loop compares the numbers. -/
theorem compare_words_spec {left right : List UInt64} (h : left.length = right.length) :
    (compare_words left right < 0 ↔ Limbs.value left < Limbs.value right) ∧
      (0 < compare_words left right ↔ Limbs.value right < Limbs.value left) := by
  induction left generalizing right with
  | nil =>
    cases right with
    | nil => simp [compare_words]
    | cons word words => cases h
  | cons left lefts ih =>
    cases right with
    | nil => cases h
    | cons right rights =>
      obtain ⟨hlt, hgt⟩ := ih (Nat.succ.inj h)
      have hleft := left.toNat_lt
      have hright := right.toNat_lt
      simp only [compare_words, Limbs.value_cons, gt_iff_lt, UInt64.lt_iff_toNat_lt]
      split
      · omega
      · split
        · omega
        · split <;> omega

theorem borrow_toNat (borrow : Bool) : borrow.toUInt64.toNat = borrow.toNat := by
  cases borrow <;> rfl

/-- One word of a subtraction, with the borrow in and out. -/
theorem subtract_word (left right : UInt64) (borrow : Bool) :
    (left - (right + borrow.toUInt64)).toNat + right.toNat + borrow.toNat = left.toNat + 2 ^ 64 *
      (decide (right + borrow.toUInt64 < right ∨ left < right + borrow.toUInt64)).toNat := by
  have hleft := left.toNat_lt
  have hright := right.toNat_lt
  have hborrow : borrow.toNat ≤ 1 := Bool.toNat_le borrow
  have hsum : (right + borrow.toUInt64).toNat = (right.toNat + borrow.toNat) % 2 ^ 64 := by
    rw [UInt64.toNat_add, borrow_toNat]
  have hnext : (right + borrow.toUInt64 < right ∨ left < right + borrow.toUInt64) ↔
      (right.toNat + borrow.toNat) % 2 ^ 64 < right.toNat ∨ left.toNat < (right.toNat + borrow.toNat) % 2 ^ 64 := by
    rw [UInt64.lt_iff_toNat_lt, UInt64.lt_iff_toNat_lt, hsum]
  rw [UInt64.toNat_sub, hsum, decide_eq_decide.mpr hnext]
  by_cases hborrowed : (right.toNat + borrow.toNat) % 2 ^ 64 < right.toNat ∨ left.toNat < (right.toNat + borrow.toNat) % 2 ^ 64
  · rw [decide_eq_true hborrowed, Bool.toNat_true]
    omega
  · rw [decide_eq_false hborrowed, Bool.toNat_false]
    omega

/-- The words left, and what is owed beyond them. -/
theorem subtract_words_spec (borrow : Bool) {left right : List UInt64} (h : left.length = right.length) :
    ∃ owed, Limbs.value (subtract_words borrow left right) + Limbs.value right + borrow.toNat =
      Limbs.value left + 2 ^ (64 * left.length) * owed := by
  induction left generalizing borrow right with
  | nil =>
    cases right with
    | nil => exact ⟨borrow.toNat, by simp [subtract_words]⟩
    | cons word words => cases h
  | cons left lefts ih =>
    cases right with
    | nil => cases h
    | cons right rights =>
      obtain ⟨owed, howed⟩ := ih (decide (right + borrow.toUInt64 < right ∨ left < right + borrow.toUInt64)) (Nat.succ.inj h)
      have hword := subtract_word left right borrow
      refine ⟨owed, ?_⟩
      simp only [subtract_words, Limbs.value_cons, length_cons, mul_succ, Nat.pow_add']
      calc _ = ((left - (right + borrow.toUInt64)).toNat + right.toNat + borrow.toNat) + 2 ^ 64 * (Limbs.value
            (subtract_words (decide (right + borrow.toUInt64 < right ∨ left < right + borrow.toUInt64)) lefts rights) + Limbs.value rights) := by ring
        _ = _ := by
          rw [hword, Nat.add_assoc, ← Nat.mul_add, Nat.add_comm (Bool.toNat _), howed]
          ring

theorem bit_width_spec {word : UInt64} (h : word ≠ 0) :
    0 < bit_width word ∧ 2 ^ (bit_width word - 1) ≤ word.toNat ∧ word.toNat < 2 ^ bit_width word := by
  have hne : word.toNat ≠ 0 := fun hzero => h (UInt64.toNat_inj.mp hzero)
  rw [bit_width, if_neg h, Nat.add_sub_cancel]
  exact ⟨succ_pos _, log2_self_le hne, lt_log2_self⟩

/-- The number of bits of the number. -/
theorem bit_length_words_spec (words : List UInt64) :
    (bit_length_words words = 0 ∧ Limbs.value words = 0) ∨ (0 < bit_length_words words ∧
      2 ^ (bit_length_words words - 1) ≤ Limbs.value words ∧ Limbs.value words < 2 ^ bit_length_words words) := by
  induction words with
  | nil => exact .inl ⟨rfl, rfl⟩
  | cons word words ih =>
    have hword := word.toNat_lt
    simp only [bit_length_words, Limbs.value_cons, kWordBits]
    rcases ih with ⟨hbits, hvalue⟩ | ⟨hpos, hlow, hhigh⟩
    · rw [if_neg (not_not.mpr hbits), hvalue, Nat.mul_zero, Nat.add_zero]
      by_cases hzero : word = 0
      · subst hzero
        exact .inl ⟨rfl, rfl⟩
      · exact .inr (bit_width_spec hzero)
    · right
      rw [if_pos hpos.ne']
      refine ⟨by omega, ?_, ?_⟩
      · rw [show 64 + bit_length_words words - 1 = 64 + (bit_length_words words - 1) by omega, Nat.pow_add]
        exact (Nat.mul_le_mul_left _ hlow).trans (Nat.le_add_left _ _)
      · rw [Nat.pow_add]
        have hmul := Nat.mul_le_mul_left (2 ^ 64) (succ_le_of_lt hhigh)
        rw [mul_succ] at hmul
        omega

theorem getD_modify_of_ne {words : List UInt64} {index other : Nat} {f : UInt64 → UInt64} (h : index ≠ other) :
    (words.modify index f).getD other 0 = words.getD other 0 := by
  rw [getD_eq_getElem?_getD, getElem?_modify, getD_eq_getElem?_getD]
  cases words[other]? <;> simp [h]

theorem getD_modify_self {words : List UInt64} {index : Nat} {f : UInt64 → UInt64} (h : index < words.length) :
    (words.modify index f).getD index 0 = f (words.getD index 0) := by
  rw [getD_eq_getElem?_getD, getElem?_modify, getD_eq_getElem?_getD, getElem?_eq_getElem h]
  simp

theorem getD_of_length_le {words : List UInt64} {index : Nat} (h : words.length ≤ index) : words.getD index 0 = 0 := by
  rw [getD_eq_getElem?_getD, getElem?_eq_none h, Option.getD_none]

/-- A word moved up within itself. -/
theorem shift_low_toNat (word : UInt64) {bit_shift : Nat} (h : bit_shift < 64) :
    (word <<< UInt64.ofNat bit_shift).toNat = word.toNat % 2 ^ (64 - bit_shift) * 2 ^ bit_shift := by
  have hcount : (UInt64.ofNat bit_shift).toNat % 64 = bit_shift := by
    rw [UInt64.toNat_ofNat']
    omega
  have hpow : 2 ^ 64 = 2 ^ (64 - bit_shift) * 2 ^ bit_shift := by rw [← pow_add, Nat.sub_add_cancel h.le]
  rw [UInt64.toNat_shiftLeft, hcount, shiftLeft_eq, hpow, mul_mod_mul_right]

/-- What a word moved up carries into the next one. -/
theorem shift_high_toNat (word : UInt64) {bit_shift : Nat} (hpos : bit_shift ≠ 0) (h : bit_shift < 64) :
    (word >>> UInt64.ofNat (kWordBits - bit_shift)).toNat = word.toNat / 2 ^ (64 - bit_shift) := by
  have hcount : (UInt64.ofNat (kWordBits - bit_shift)).toNat % 64 = 64 - bit_shift := by
    rw [UInt64.toNat_ofNat', kWordBits]
    omega
  rw [UInt64.toNat_shiftRight, hcount, shiftRight_eq_div_pow]

theorem or_shift_low {carry : UInt64} (word : UInt64) {bit_shift : Nat} (h : bit_shift < 64) (hcarry : carry.toNat < 2 ^ bit_shift) :
    (carry ||| word <<< UInt64.ofNat bit_shift).toNat = carry.toNat + (word <<< UInt64.ofNat bit_shift).toNat := by
  rw [UInt64.toNat_or, shift_low_toNat word h, Nat.or_comm, ← shiftLeft_eq,
    ← shiftLeft_add_eq_or_of_lt hcarry, Nat.add_comm]

theorem high_lt (word : UInt64) {bit_shift : Nat} (h : bit_shift < 64) : word.toNat / 2 ^ (64 - bit_shift) < 2 ^ bit_shift := by
  rw [Nat.div_lt_iff_lt_mul (Nat.two_pow_pos _), ← pow_add, Nat.add_sub_cancel' h.le]
  exact word.toNat_lt

/-- After `source` turns of the loop: what has been placed, less what was lost beyond the last
word, with only a carry in the next word and nothing above it. -/
structure Shifting (value : List UInt64) (word_shift bit_shift source : Nat) (shifted : List UInt64) : Prop where
  length : shifted.length = value.length
  placed : ∃ lost, Limbs.value shifted + lost * 2 ^ (64 * value.length) =
    Limbs.value (value.take source) * 2 ^ (64 * word_shift + bit_shift)
  carry : (shifted.getD (source + word_shift) 0).toNat < 2 ^ bit_shift
  fresh : ∀ index, source + word_shift < index → shifted.getD index 0 = 0

theorem Shifting.start (value : List UInt64) (word_shift bit_shift : Nat) :
    Shifting value word_shift bit_shift 0 (replicate value.length 0) := by
  have hzero (index : Nat) : (replicate value.length (0 : UInt64)).getD index 0 = 0 := by
    rw [getD_eq_getElem?_getD, getElem?_replicate]
    split <;> rfl
  refine ⟨length_replicate, ⟨0, by simp⟩, ?_, fun index _ => hzero index⟩
  rw [hzero]
  exact Nat.two_pow_pos _

theorem word_split (word : UInt64) {bit_shift : Nat} (h : bit_shift < 64) : word.toNat * 2 ^ bit_shift =
    word.toNat % 2 ^ (64 - bit_shift) * 2 ^ bit_shift + word.toNat / 2 ^ (64 - bit_shift) * 2 ^ 64 := by
  have hpow : 2 ^ 64 = 2 ^ (64 - bit_shift) * 2 ^ bit_shift := by rw [← pow_add, Nat.sub_add_cancel h.le]
  have hsplit := congrArg (· * 2 ^ bit_shift) (mod_add_div word.toNat (2 ^ (64 - bit_shift)))
  rw [← hsplit, hpow]
  ring

theorem Shifting.step {shifted : List UInt64} {source : Nat} (hbits : bit_shift < 64)
    (h : Shifting value word_shift bit_shift source shifted) :
    Shifting value word_shift bit_shift (source + 1) (shift_word value word_shift bit_shift shifted source) := by
  obtain ⟨hlength, ⟨lost, hplaced⟩, hcarry, hfresh⟩ := h
  have hsize : (shift_word value word_shift bit_shift shifted source).length = shifted.length :=
    shift_word_length shifted source
  -- What this word adds to the shifted number.
  have htotal : Limbs.value (value.take (source + 1)) * 2 ^ (64 * word_shift + bit_shift) =
      Limbs.value (value.take source) * 2 ^ (64 * word_shift + bit_shift) +
        (value.getD source 0).toNat * 2 ^ bit_shift * 2 ^ (64 * (source + word_shift)) := by
    rw [Limbs.value_take_succ, Nat.mul_add, pow_add, pow_add]
    ring
  rw [← hplaced, word_split _ hbits] at htotal
  unfold shift_word at hsize ⊢
  generalize value.getD source 0 = word at htotal hsize ⊢
  have hhigh := high_lt word hbits
  dsimp only at hsize ⊢
  by_cases hplace : source + word_shift ≥ shifted.length
  · rw [if_pos hplace] at hsize ⊢
    refine ⟨hlength, ⟨lost + word.toNat * 2 ^ bit_shift * 2 ^ (64 * (source + word_shift - value.length)), ?_⟩, ?_, ?_⟩
    · have hexponent : 64 * (source + word_shift) = 64 * (source + word_shift - value.length) + 64 * value.length := by omega
      rw [htotal, ← word_split _ hbits, hexponent, pow_add]
      ring
    · rw [getD_of_length_le (by omega)]
      exact Nat.two_pow_pos _
    · exact fun index hindex => hfresh index (by omega)
  · rw [if_neg hplace] at hsize ⊢
    have hlow := Limbs.value_modify_or (Nat.lt_of_not_le hplace) _ (or_shift_low word hbits hcarry)
    rw [shift_low_toNat word hbits] at hlow
    by_cases hnext : bit_shift ≠ 0 ∧ source + word_shift + 1 < shifted.length
    · rw [if_pos hnext] at hsize ⊢
      have hempty : (shifted.modify (source + word_shift) (· ||| word <<< UInt64.ofNat bit_shift)).getD
          (source + word_shift + 1) 0 = 0 := by
        rw [getD_modify_of_ne (by omega)]
        exact hfresh _ (by omega)
      have hinside : source + word_shift + 1 <
          (shifted.modify (source + word_shift) (· ||| word <<< UInt64.ofNat bit_shift)).length := by
        rw [length_modify]
        exact hnext.2
      have hboth := Limbs.value_modify_or hinside (word >>> UInt64.ofNat (kWordBits - bit_shift)) (by
        rw [hempty, UInt64.zero_or, UInt64.toNat_zero, Nat.zero_add])
      rw [hlow, shift_high_toNat word hnext.1 hbits] at hboth
      refine ⟨hsize.trans hlength, ⟨lost, ?_⟩, ?_, ?_⟩
      · rw [hboth, htotal, mul_succ, pow_add]
        ring
      · rw [show source + 1 + word_shift = source + word_shift + 1 by omega, getD_modify_self hinside, hempty,
          UInt64.zero_or, shift_high_toNat word hnext.1 hbits]
        exact hhigh
      · intro index hindex
        rw [getD_modify_of_ne (by omega), getD_modify_of_ne (by omega)]
        exact hfresh index (by omega)
    · rw [if_neg hnext] at hsize ⊢
      -- Either nothing is carried, or it is carried out of the last word.
      have hcarried : word.toNat / 2 ^ (64 - bit_shift) * 2 ^ 64 * 2 ^ (64 * (source + word_shift)) =
          word.toNat / 2 ^ (64 - bit_shift) * 2 ^ (64 * value.length) := by
        by_cases hzero : bit_shift = 0
        · subst hzero
          rw [pow_zero, lt_one_iff] at hhigh
          rw [hhigh, Nat.zero_mul, Nat.zero_mul, Nat.zero_mul]
        · rw [Nat.mul_assoc, ← pow_add]
          congr 2
          omega
      refine ⟨hsize.trans hlength, ⟨lost + word.toNat / 2 ^ (64 - bit_shift), ?_⟩, ?_, ?_⟩
      · rw [hlow, htotal, Nat.add_mul, Nat.add_mul, hcarried]
        ring
      · rw [getD_modify_of_ne (by omega), hfresh _ (by omega)]
        exact Nat.two_pow_pos _
      · intro index hindex
        rw [getD_modify_of_ne (by omega)]
        exact hfresh index (by omega)

/-- Shifting is exact but for what leaves the last word. -/
theorem shift_words_spec (value : List UInt64) (shift : Nat) :
    Limbs.value (shift_words value shift) = Limbs.value value * 2 ^ shift % 2 ^ (64 * value.length) := by
  have hrun (count : Nat) : Shifting value (shift / kWordBits) (shift % kWordBits) count
      ((range count).foldl (shift_word value (shift / kWordBits) (shift % kWordBits))
        (replicate value.length 0)) := by
    induction count with
    | zero => exact Shifting.start _ _ _
    | succ count ih =>
      rw [range_succ, foldl_append]
      exact ih.step (mod_lt _ (by decide))
  obtain ⟨hlength, ⟨lost, hplaced⟩, -, -⟩ := hrun value.length
  have hlt := Limbs.value_lt (shift_words value shift)
  rw [shift_words_length] at hlt
  have hshift : 64 * (shift / kWordBits) + shift % kWordBits = shift := div_add_mod shift 64
  rw [take_length, hshift] at hplaced
  rw [← hplaced, add_mul_mod_self_right, mod_eq_of_lt]
  · rfl
  · exact hlt

def shift_left (value : WideInteger) (shift : Nat) : WideInteger :=
  ⟨shift_words value.words shift, (shift_words_length _ _).trans value.size_eq⟩

def compare (left right : WideInteger) : Int := compare_words left.words right.words

def bit_length (value : WideInteger) : Nat := bit_length_words value.words

theorem words_length_eq (left right : WideInteger) : left.words.length = right.words.length := by
  rw [left.size_eq, right.size_eq]

def subtract (left right : WideInteger) : WideInteger :=
  ⟨subtract_words false left.words right.words,
    (subtract_words_length false (words_length_eq left right)).trans left.size_eq⟩

variable {left right : WideInteger}

theorem toNat_lt (value : WideInteger) : value.toNat < 2 ^ (64 * kWideWordCount) := by
  have hlt := Limbs.value_lt value.words
  rwa [value.size_eq] at hlt

/-- A shift that loses nothing is a multiplication. -/
theorem shift_left_toNat {value : WideInteger} {shift : Nat} (h : value.toNat * 2 ^ shift < 2 ^ (64 * kWideWordCount)) :
    (value.shift_left shift).toNat = value.toNat * 2 ^ shift := by
  have hspec := shift_words_spec value.words shift
  rw [value.size_eq] at hspec
  rw [toNat, shift_left, hspec]
  exact mod_eq_of_lt (by rwa [toNat] at h)

theorem compare_neg_iff (left right : WideInteger) : left.compare right < 0 ↔ left.toNat < right.toNat :=
  (compare_words_spec (words_length_eq left right)).1

theorem compare_pos_iff (left right : WideInteger) : 0 < left.compare right ↔ right.toNat < left.toNat :=
  (compare_words_spec (words_length_eq left right)).2

theorem compare_eq_zero_iff (left right : WideInteger) : left.compare right = 0 ↔ left.toNat = right.toNat := by
  have hneg := compare_neg_iff left right
  have hpos := compare_pos_iff left right
  omega

/-- A difference that is not negative is exact. -/
theorem subtract_toNat (h : right.toNat ≤ left.toNat) : (left.subtract right).toNat = left.toNat - right.toNat := by
  obtain ⟨owed, howed⟩ : ∃ owed, (left.subtract right).toNat + right.toNat + false.toNat =
      left.toNat + 2 ^ (64 * left.words.length) * owed := subtract_words_spec false (words_length_eq left right)
  have hlt := (left.subtract right).toNat_lt
  rw [left.size_eq, Bool.toNat_false, Nat.add_zero] at howed
  cases owed with
  | zero => omega
  | succ owed =>
    rw [mul_succ] at howed
    have hover := Nat.zero_le (2 ^ (64 * kWideWordCount) * owed)
    omega

theorem bit_length_spec {value : WideInteger} (h : value.toNat ≠ 0) : 0 < value.bit_length ∧
    2 ^ (value.bit_length - 1) ≤ value.toNat ∧ value.toNat < 2 ^ value.bit_length := by
  rcases bit_length_words_spec value.words with ⟨-, hzero⟩ | hspec
  · exact absurd hzero h
  · exact hspec

end WideInteger

end erikslund.util
