import Mathlib.Tactic.IntervalCases
import SoloPool.Lib.Calendar
import SoloPool.Util.Hex

namespace erikslund.stats

open util List

/-- The `unsigned` that an integer wraps to. -/
def unsigned (value : Int) : Int := value % 2 ^ 32

/-- Days since 1970-01-01. The month and the day are of type `unsigned`, and so is what is computed
from them and from the year of the era; the signed terms are of 64 bits, of which a year that is
an `int` needs less than 42. -/
def days_from_civil (y : Int) (m d : Nat) : Int :=
  let y := if m ≤ 2 then y - 1 else y
  let era := (if 0 ≤ y then y else y - 399).tdiv 400
  let yoe := unsigned (y - era * 400)
  let doy := unsigned (unsigned (153 * unsigned (m + if m > 2 then -3 else 9) + 2) / 5 + d - 1)
  let doe := unsigned (yoe * 365 + yoe / 4 - yoe / 100 + doy)
  era * 146097 + doe - 719468

/-- The fields of a `std::tm` that a timestamp shows. -/
structure Tm where
  tm_year : Nat := 0
  tm_mon : Nat := 0
  tm_mday : Nat := 0
  tm_hour : Nat := 0
  tm_min : Nat := 0
  tm_sec : Nat := 0

/-- `gmtime_r` on a `tm` of zeroes. It fails on a year `tm_year` cannot hold, and then sets
no month and no day. -/
def gmtime_r (t : Nat) : Tm :=
  let date := Calendar.date (t / 86400)
  if date.year - 1900 < 2 ^ 31 then
    { tm_year := date.year - 1900
      tm_mon := date.month - 1
      tm_mday := date.day
      tm_hour := t % 86400 / 3600
      tm_min := t % 3600 / 60
      tm_sec := t % 60 }
  else {}

/-- The `%m`, `%d`, `%H`, `%M` and `%S` of `strftime`. -/
def two_digits (value : Nat) : Text := if value < 10 then '0' :: to_string value else to_string value

def strftime (tm : Tm) : Text :=
  to_string (tm.tm_year + 1900) ++ '-' :: (two_digits (tm.tm_mon + 1) ++ '-' :: (two_digits tm.tm_mday ++
    'T' :: (two_digits tm.tm_hour ++ ':' :: (two_digits tm.tm_min ++ ':' :: (two_digits tm.tm_sec ++
      "Z[UTC]".toList)))))

def format_rfc9557 (epoch : Int) : Text := if epoch ≤ 0 then [] else strftime (gmtime_r epoch.toNat)

def white_space (character : Char) : Bool := character = ' ' ∨ ('\t' ≤ character ∧ character ≤ '\r')

/-- A sign and what follows it. -/
def scan_sign : Text → Bool × Text
  | '-' :: rest => (true, rest)
  | '+' :: rest => (false, rest)
  | text => (false, text)

/-- What `%d` stores: the number is held to the range of a `long` and cut to an `int`. -/
def to_int (value : Int) : Int := (max (-2 ^ 63) (min value (2 ^ 63 - 1))).bmod (2 ^ 32)

/-- The conversion `%d` of `sscanf`. -/
def scan_int (text : Text) : Option (Int × Text) :=
  let (negative, text) := scan_sign (text.dropWhile white_space)
  let digits := text.takeWhile Char.isDigit
  if digits = [] then none
  else
    let value : Int := Nat.ofDigitChars 10 digits 0
    some (to_int (if negative then -value else value), text.dropWhile Char.isDigit)

/-- A character of a `sscanf` format that stands for itself. -/
def scan_char (expected : Char) (text : Text) : Option Text :=
  if text.head? = some expected then some text.tail else none

structure Scanned where
  year : Int
  month : Int
  day : Int
  hour : Int
  minute : Int
  second : Int

/-- `sscanf` with the format `%d-%d-%dT%d:%d:%d`, where it converts all six. -/
def scan_timestamp (value : Text) : Option Scanned := do
  let (year, rest) ← scan_int value
  let (month, rest) ← scan_int (← scan_char '-' rest)
  let (day, rest) ← scan_int (← scan_char '-' rest)
  let (hour, rest) ← scan_int (← scan_char 'T' rest)
  let (minute, rest) ← scan_int (← scan_char ':' rest)
  let (second, _) ← scan_int (← scan_char ':' rest)
  return ⟨year, month, day, hour, minute, second⟩

def Scanned.epoch (scanned : Scanned) : Int :=
  if scanned.month < 1 ∨ scanned.month > 12 ∨ scanned.day < 1 ∨ scanned.day > 31 then 0
  else
    days_from_civil scanned.year scanned.month.toNat scanned.day.toNat * 86400 + scanned.hour * 3600 +
      scanned.minute * 60 + scanned.second

def parse_rfc9557 (value : Text) : Int := (scan_timestamp value).elim 0 Scanned.epoch

/-! The calendar of `days_from_civil`. -/

theorem tdiv_era (y : Int) : (if 0 ≤ y then y else y - 399).tdiv 400 = y / 400 := by
  split
  · rename_i hnonneg
    exact Int.tdiv_eq_ediv_of_nonneg hnonneg
  · rename_i hneg
    have hflip : y - 399 = -(399 - y) := by omega
    rw [hflip, Int.neg_tdiv, Int.tdiv_eq_ediv_of_nonneg (by omega)]
    omega

/-- The day of a year that starts in March. -/
def day_of_year (m d : Nat) : Nat := (153 * (if m > 2 then m - 3 else m + 9) + 2) / 5 + d - 1

/-- The days before a year that starts in March, from the year 0. -/
def year_days (y : Int) : Int := 365 * y + y / 4 - y / 100 + y / 400

theorem unsigned_of_lt {value : Int} (hnonneg : 0 ≤ value) (hlt : value < 2 ^ 32) : unsigned value = value :=
  Int.emod_eq_of_lt hnonneg hlt

/-- Adding the unsigned form of −3 wraps to the month counted from March. -/
theorem unsigned_month {m : Nat} (hmonth : 1 ≤ m ∧ m ≤ 12) :
    unsigned (m + if m > 2 then -3 else 9) = (if m > 2 then m - 3 else m + 9 : Nat) := by
  split
  · rw [unsigned_of_lt (by omega) (by omega)]
    omega
  · rw [unsigned_of_lt (by omega) (by omega)]
    omega

/-- Nothing wraps on a month and a day in their ranges but the −3. -/
theorem days_from_civil_eq (y : Int) {m d : Nat} (hmonth : 1 ≤ m ∧ m ≤ 12) (hday : 1 ≤ d ∧ d ≤ 31) :
    days_from_civil y m d = year_days (if m ≤ 2 then y - 1 else y) + day_of_year m d - 719468 := by
  have hshifted : (if m > 2 then m - 3 else m + 9) ≤ 11 := by split <;> omega
  simp only [days_from_civil, tdiv_era, year_days, day_of_year, unsigned_month hmonth]
  generalize (if m ≤ 2 then y - 1 else y) = y'
  generalize (if m > 2 then m - 3 else m + 9) = shifted at hshifted ⊢
  have hera : unsigned (y' - y' / 400 * 400) = y' - y' / 400 * 400 := unsigned_of_lt (by omega) (by omega)
  have hproduct : unsigned (153 * (shifted : Int) + 2) = 153 * shifted + 2 := unsigned_of_lt (by omega) (by omega)
  rw [hera, hproduct]
  have hdoy : unsigned ((153 * (shifted : Int) + 2) / 5 + d - 1) = ((153 * shifted + 2) / 5 + d - 1 : Nat) := by
    rw [unsigned_of_lt (by omega) (by omega)]
    omega
  rw [hdoy]
  generalize hdoys : (153 * shifted + 2) / 5 + d - 1 = doy
  have hlast : doy ≤ 400 := by omega
  generalize hyoe : y' - y' / 400 * 400 = yoe
  have hyear : 0 ≤ yoe ∧ yoe < 400 := by omega
  rw [unsigned_of_lt (by omega) (by omega)]
  omega

open Calendar

/-- The last day of a month is the one before the first of the next. -/
theorem day_of_year_last (year : Nat) {month : Nat} (hmonth : 1 ≤ month) (hlast : month < 12) (hshort : month ≠ 2) :
    day_of_year (month + 1) 1 = day_of_year month (month_length year month) + 1 := by
  unfold day_of_year month_length
  interval_cases month
  all_goals simp_all

/-- February ends a year that starts in March. -/
theorem year_days_succ (year : Nat) :
    year_days year = year_days ((year : Int) - 1) + day_of_year 2 (month_length year 2) + 1 := by
  have hlength : day_of_year 2 (month_length year 2) = if leap year then 365 else 364 := by
    unfold month_length day_of_year
    cases leap year <;> rfl
  rw [hlength]
  unfold year_days leap
  split
  · rename_i hleap
    simp only [ne_eq, decide_eq_true_eq] at hleap
    omega
  · rename_i hcommon
    simp only [ne_eq, decide_eq_true_eq] at hcommon
    omega

variable {date : Date} {value : Nat}

theorem days_from_civil_valid {y : Int} (hvalid : date.Valid) :
    days_from_civil y date.month date.day =
      year_days (if date.month ≤ 2 then y - 1 else y) + day_of_year date.month date.day - 719468 :=
  days_from_civil_eq y ⟨hvalid.month_pos, hvalid.month_le⟩
    ⟨hvalid.day_pos, hvalid.day_le.trans (month_length_le _ _)⟩

theorem days_from_civil_next (hvalid : date.Valid) :
    days_from_civil date.next.year date.next.month date.next.day =
      days_from_civil date.year date.month date.day + 1 := by
  have hpos := hvalid.day_pos
  have hmonth := hvalid.month_pos
  have hle := hvalid.day_le
  rw [days_from_civil_valid hvalid.next, days_from_civil_valid hvalid]
  unfold Calendar.Date.next
  split
  · -- within a month
    have hday : day_of_year date.month (date.day + 1) = day_of_year date.month date.day + 1 := by
      unfold day_of_year
      omega
    simp only [hday]
    omega
  · rename_i hlast
    have hend : date.day = month_length date.year date.month := by omega
    rw [hend]
    split
    · rename_i hmore
      by_cases hshort : date.month = 2
      · have hyear := year_days_succ date.year
        have hmarch : day_of_year 3 1 = 0 := rfl
        rw [hshort]
        simp only [hmarch, Nat.reduceAdd, Nat.reduceLeDiff, if_false, le_refl, if_true]
        omega
      · have hday := day_of_year_last date.year hmonth hmore hshort
        have hsame : date.month + 1 ≤ 2 ↔ date.month ≤ 2 := by omega
        simp only [hday, hsame]
        omega
    · have hdecember : date.month = 12 := by
        have hmonth_le := hvalid.month_le
        omega
      have hlast : day_of_year 12 (month_length date.year 12) = 305 := rfl
      have hfirst : day_of_year 1 1 = 306 := rfl
      rw [hdecember]
      simp only [hlast, hfirst, Nat.reduceLeDiff, if_false, if_true, Nat.cast_add, Nat.cast_one, add_sub_cancel_right]
      omega

/-- `days_from_civil` counts the days of the calendar. -/
theorem days_from_civil_date (days : Nat) :
    days_from_civil (Calendar.date days).year (Calendar.date days).month (Calendar.date days).day = days :=
  count_date (fun date => days_from_civil date.year date.month date.day) (by decide)
    (fun _ hvalid => days_from_civil_next hvalid) days

/-! What is scanned of a text that `strftime` writes. -/

/-- A text of decimal digits that names a number. -/
structure Digits (digits : Text) (value : Nat) : Prop where
  some : digits ≠ []
  digit : ∀ character ∈ digits, character.isDigit = true
  value : Nat.ofDigitChars 10 digits 0 = value

theorem to_string_digits (value : Nat) : Digits (to_string value) value where
  some := Nat.toDigits_ne_nil
  digit _ hmem := Nat.isDigit_of_mem_toDigits (by decide) (by decide) hmem
  value := Nat.ofDigitChars_ten_toDigits

theorem two_digits_digits (value : Nat) : Digits (two_digits value) value := by
  have hplain := to_string_digits value
  unfold two_digits
  split
  · refine ⟨cons_ne_nil _ _, forall_mem_cons.mpr ⟨by decide, hplain.digit⟩, ?_⟩
    rw [Nat.ofDigitChars_cons]
    exact hplain.value
  · exact hplain

theorem to_int_of_lt (h : value < 2 ^ 31) : to_int value = value := by
  unfold to_int
  rw [min_eq_left (by omega), max_eq_right (by omega), Int.bmod_eq_of_le (by omega) (by omega)]

theorem white_space_digit {character : Char} (h : character.isDigit = true) : white_space character = false := by
  have hbounds := h
  simp only [Char.isDigit, Bool.and_eq_true, decide_eq_true_eq, ge_iff_le, UInt32.le_iff_toNat_le] at hbounds
  unfold white_space
  rw [decide_eq_false_iff_not]
  rintro (rfl | ⟨_, hle⟩)
  · exact absurd h (by decide)
  · rw [Char.le_def, UInt32.le_iff_toNat_le] at hle
    have hreturn : '\r'.val.toNat = 13 := rfl
    have hzero : '0'.val.toNat = 48 := rfl
    omega

theorem scan_sign_digit {character : Char} (h : character.isDigit = true) (rest : Text) :
    scan_sign (character :: rest) = (false, character :: rest) := by
  unfold scan_sign
  split
  · rename_i heq
    cases heq
    exact absurd h (by decide)
  · rename_i heq
    cases heq
    exact absurd h (by decide)
  · rfl

/-- `%d` on digits reads them, up to the first character that is none. -/
theorem scan_int_digits {digits : Text} (h : Digits digits value) {next : Char}
    (hnext : next.isDigit = false) (rest : Text) :
    scan_int (digits ++ next :: rest) = some (to_int value, next :: rest) := by
  obtain ⟨first, others, hcons⟩ := exists_cons_of_ne_nil h.some
  have hfirst : first.isDigit = true := h.digit first (by rw [hcons]; exact mem_cons_self)
  have hsign : scan_sign (digits ++ next :: rest) = (false, digits ++ next :: rest) := by
    rw [hcons, cons_append, scan_sign_digit hfirst]
  have htake : (digits ++ next :: rest).takeWhile Char.isDigit = digits := by
    rw [takeWhile_append_of_pos h.digit, takeWhile_cons_of_neg (by rw [hnext]; decide), append_nil]
  have hdrop : (digits ++ next :: rest).dropWhile Char.isDigit = next :: rest := by
    rw [dropWhile_append_of_pos h.digit, dropWhile_cons_of_neg (by rw [hnext]; decide)]
  have hstart : (digits ++ next :: rest).dropWhile white_space = digits ++ next :: rest := by
    rw [hcons, cons_append, dropWhile_cons_of_neg (by rw [white_space_digit hfirst]; decide)]
  simp only [scan_int, hstart, hsign, htake, hdrop, h.some, h.value, if_false, Bool.false_eq_true]

theorem scan_char_cons (expected : Char) (rest : Text) : scan_char expected (expected :: rest) = some rest :=
  if_pos rfl

/-- The fields of a `tm` come back, the year as an `int`. -/
theorem scan_timestamp_strftime {tm : Tm} (hmon : tm.tm_mon < 12) (hmday : tm.tm_mday ≤ 31) (hhour : tm.tm_hour < 24)
    (hmin : tm.tm_min < 60) (hsec : tm.tm_sec < 60) :
    scan_timestamp (strftime tm) =
      some ⟨to_int (tm.tm_year + 1900 : Nat), (tm.tm_mon + 1 : Nat), tm.tm_mday, tm.tm_hour, tm.tm_min, tm.tm_sec⟩ := by
  unfold scan_timestamp strftime
  have hend : "Z[UTC]".toList = 'Z' :: "[UTC]".toList := rfl
  simp only [hend, scan_int_digits (to_string_digits _) (by decide : '-'.isDigit = false),
    scan_int_digits (two_digits_digits _) (by decide : '-'.isDigit = false),
    scan_int_digits (two_digits_digits _) (by decide : 'T'.isDigit = false),
    scan_int_digits (two_digits_digits _) (by decide : ':'.isDigit = false),
    scan_int_digits (two_digits_digits _) (by decide : 'Z'.isDigit = false), scan_char_cons, Option.bind_eq_bind,
    Option.bind_some, Option.pure_def]
  rw [to_int_of_lt (by omega : tm.tm_mon + 1 < 2 ^ 31), to_int_of_lt (by omega : tm.tm_mday < 2 ^ 31),
    to_int_of_lt (by omega : tm.tm_hour < 2 ^ 31), to_int_of_lt (by omega : tm.tm_min < 2 ^ 31),
    to_int_of_lt (by omega : tm.tm_sec < 2 ^ 31)]

/-- The year of a time. -/
def year (epoch : Int) : Nat := (Calendar.date (epoch.toNat / 86400)).year

/-- What is read of a time that `gmtime_r` breaks up. -/
theorem parse_strftime_gmtime_r {t : Nat} (hheld : (Calendar.date (t / 86400)).year - 1900 < 2 ^ 31) :
    parse_rfc9557 (strftime (gmtime_r t)) =
      days_from_civil (to_int (Calendar.date (t / 86400)).year) (Calendar.date (t / 86400)).month
          (Calendar.date (t / 86400)).day * 86400 + (t % 86400 : Nat) := by
  have hvalid := date_valid (t / 86400)
  have hmonth := hvalid.month_pos
  have hmonth_le := hvalid.month_le
  have hday := hvalid.day_pos
  have hday_le := hvalid.day_le.trans (month_length_le _ _)
  have hyear := year_date (t / 86400)
  rw [gmtime_r, if_pos hheld]
  generalize Calendar.date (t / 86400) = date at *
  rw [parse_rfc9557, scan_timestamp_strftime]
  · have hyear' : date.year - 1900 + 1900 = date.year := by omega
    have hmonth' : date.month - 1 + 1 = date.month := by omega
    simp only [Option.elim_some, Scanned.epoch, hyear', hmonth', Int.toNat_natCast]
    rw [if_neg (by omega)]
    omega
  · change date.month - 1 < 12
    omega
  · exact hday_le
  · change t % 86400 / 3600 < 24
    omega
  · change t % 3600 / 60 < 60
    omega
  · change t % 60 < 60
    omega

/-- A year past the range of an `int` is read as one far before the epoch. -/
theorem to_int_wide (hwide : 2 ^ 31 ≤ value) (hheld : value < 2 ^ 31 + 1900) : to_int value < 0 := by
  unfold to_int
  rw [min_eq_left (by omega), max_eq_right (by omega), Int.bmod_def]
  split <;> omega

theorem days_from_civil_neg {y : Int} (hy : y < 0) (hvalid : date.Valid) :
    days_from_civil y date.month date.day < -366 := by
  have hmonth := hvalid.month_le
  have hday := hvalid.day_le.trans (month_length_le _ _)
  have hdoy : day_of_year date.month date.day ≤ 400 := by
    unfold day_of_year
    split <;> omega
  rw [days_from_civil_valid hvalid]
  unfold year_days
  split <;> omega

/-- A time read back as it was written, unless its year is no `int`. -/
theorem parse_format_rfc9557 {epoch : Int} (hpositive : 0 < epoch) :
    parse_rfc9557 (format_rfc9557 epoch) = epoch ↔ year epoch < 2 ^ 31 := by
  obtain ⟨t, rfl⟩ := Int.eq_ofNat_of_zero_le hpositive.le
  rw [format_rfc9557, if_neg (by omega), year, Int.toNat_natCast]
  by_cases hheld : (Calendar.date (t / 86400)).year - 1900 < 2 ^ 31
  · rw [parse_strftime_gmtime_r hheld]
    constructor
    · intro hsame
      by_contra hwide
      have hnegative := to_int_wide (Nat.le_of_not_lt hwide) (by omega)
      have hday := days_from_civil_neg hnegative (date_valid (t / 86400))
      omega
    · intro hyear
      rw [to_int_of_lt hyear, days_from_civil_date]
      omega
  · have hyear : ¬ (Calendar.date (t / 86400)).year < 2 ^ 31 := by omega
    have hzero : parse_rfc9557 (strftime (gmtime_r t)) = 0 := by
      rw [gmtime_r, if_neg hheld]
      decide
    rw [hzero]
    exact iff_of_false (by omega) hyear

/-- Every time whose year is an `int` is read back as it was written, and `days_from_civil` counts
the days from the epoch to every date of the calendar. -/
theorem timestamps_count_days :
    (∀ epoch : Int, 0 < epoch → year epoch < 2 ^ 31 → parse_rfc9557 (format_rfc9557 epoch) = epoch) ∧
    ∀ date : Date, date.Valid → 1970 ≤ date.year →
      ∃ days : Nat, Calendar.date days = date ∧ days_from_civil date.year date.month date.day = days := by
  constructor
  · intro epoch hpositive hyear
    exact (parse_format_rfc9557 hpositive).mpr hyear
  · intro date hvalid hyear
    obtain ⟨days, rfl⟩ := comes_of_valid hvalid hyear
    exact ⟨days, rfl, days_from_civil_date days⟩

/-- A second after midnight, and a leap day. -/
theorem timestamps_count_days_leap :
    parse_rfc9557 (format_rfc9557 1) = 1 ∧
      ∃ days : Nat, Calendar.date days = ⟨2000, 2, 29⟩ ∧ days_from_civil 2000 2 29 = days :=
  ⟨timestamps_count_days.1 1 (by decide) (by decide),
    timestamps_count_days.2 ⟨2000, 2, 29⟩ ⟨by decide, by decide, by decide, by decide⟩ (by decide)⟩

end erikslund.stats
