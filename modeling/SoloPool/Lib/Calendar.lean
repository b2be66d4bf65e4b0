import Mathlib.Logic.Function.Iterate
import Mathlib.Order.Nat

/-! The Gregorian calendar, one day after another. -/

namespace Calendar

structure Date where
  year : Nat
  month : Nat
  day : Nat
deriving DecidableEq

def leap (year : Nat) : Bool := year % 4 = 0 ∧ (year % 100 ≠ 0 ∨ year % 400 = 0)

def month_length (year month : Nat) : Nat :=
  if month = 2 then if leap year then 29 else 28
  else if month = 4 ∨ month = 6 ∨ month = 9 ∨ month = 11 then 30
  else 31

theorem month_length_pos (year month : Nat) : 28 ≤ month_length year month := by
  unfold month_length
  repeat' split
  all_goals omega

theorem month_length_le (year month : Nat) : month_length year month ≤ 31 := by
  unfold month_length
  repeat' split
  all_goals omega

namespace Date

structure Valid (date : Date) : Prop where
  month_pos : 1 ≤ date.month
  month_le : date.month ≤ 12
  day_pos : 1 ≤ date.day
  day_le : date.day ≤ month_length date.year date.month

/-- The day after. -/
def next (date : Date) : Date :=
  if date.day < month_length date.year date.month then { date with day := date.day + 1 }
  else if date.month < 12 then ⟨date.year, date.month + 1, 1⟩
  else ⟨date.year + 1, 1, 1⟩

theorem Valid.next {date : Date} (h : date.Valid) : date.next.Valid := by
  have hpos := h.month_pos
  unfold Date.next
  split
  · rename_i hday
    exact ⟨h.month_pos, h.month_le, Nat.le_add_left 1 _, hday⟩
  · have hlength := fun year month => Nat.le_trans (by decide : 1 ≤ 28) (month_length_pos year month)
    split
    · rename_i hmonth
      exact ⟨Nat.le_add_left 1 _, hmonth, Nat.le_refl 1, hlength _ _⟩
    · exact ⟨Nat.le_refl 1, (by decide : 1 ≤ 12), Nat.le_refl 1, hlength _ _⟩

end Date

/-- The first of January 1970. -/
def epoch : Date := ⟨1970, 1, 1⟩

/-- The date a number of days after the epoch. -/
def date (days : Nat) : Date := Date.next^[days] epoch

theorem date_succ (days : Nat) : date (days + 1) = (date days).next := Function.iterate_succ_apply' _ _ _

theorem date_valid (days : Nat) : (date days).Valid := by
  induction days with
  | zero => exact ⟨by decide, by decide, by decide, by decide⟩
  | succ days ih =>
    rw [date_succ]
    exact ih.next

theorem year_date (days : Nat) : 1970 ≤ (date days).year := by
  induction days with
  | zero => exact Nat.le_refl 1970
  | succ days ih =>
    rw [date_succ]
    unfold Date.next
    repeat' split
    · exact ih
    · exact ih
    · exact Nat.le_succ_of_le ih

/-- A count of days that grows by one from each date to the next counts the days
since the epoch. -/
theorem count_date (count : Date → Int) (hepoch : count epoch = 0)
    (hnext : ∀ date : Date, date.Valid → count date.next = count date + 1) (days : Nat) :
    count (date days) = days := by
  induction days with
  | zero => exact hepoch
  | succ days ih =>
    rw [date_succ, hnext _ (date_valid days), ih]
    omega

/-- Some number of days after the epoch the date comes. -/
def Comes (target : Date) : Prop := ∃ days, date days = target

theorem Comes.next {target : Date} (h : Comes target) : Comes target.next := by
  obtain ⟨days, rfl⟩ := h
  exact ⟨days + 1, date_succ days⟩

/-- After the first of a month come its other days. -/
theorem Comes.day {year month : Nat} (h : Comes ⟨year, month, 1⟩) {day : Nat} (hpos : 1 ≤ day)
    (hle : day ≤ month_length year month) : Comes ⟨year, month, day⟩ := by
  induction day, hpos using Nat.le_induction with
  | base => exact h
  | succ day hpos ih =>
    have hnext := (ih (by omega)).next
    rwa [Date.next, if_pos (by dsimp only; omega)] at hnext

/-- After the first of January come the first days of the other months. -/
theorem Comes.month {year : Nat} (h : Comes ⟨year, 1, 1⟩) {month : Nat} (hpos : 1 ≤ month) (hle : month ≤ 12) :
    Comes ⟨year, month, 1⟩ := by
  induction month, hpos using Nat.le_induction with
  | base => exact h
  | succ month hpos ih =>
    have hlength := month_length_pos year month
    have hnext := ((ih (by omega)).day (by omega) (Nat.le_refl (month_length year month))).next
    rwa [Date.next, if_neg (Nat.lt_irrefl _), if_pos (by dsimp only; omega)] at hnext

theorem Comes.year {year : Nat} (h : epoch.year ≤ year) : Comes ⟨year, 1, 1⟩ := by
  induction year, h using Nat.le_induction with
  | base => exact ⟨0, rfl⟩
  | succ year hyear ih =>
    have hlength := month_length_pos year 12
    have hnext := ((ih.month (by omega) (Nat.le_refl 12)).day (by omega) (Nat.le_refl (month_length year 12))).next
    rwa [Date.next, if_neg (Nat.lt_irrefl _), if_neg (Nat.lt_irrefl _)] at hnext

/-- Every date from the year of the epoch on comes. -/
theorem comes_of_valid {target : Date} (hvalid : target.Valid) (hyear : epoch.year ≤ target.year) : Comes target := by
  have hmonth := (Comes.year hyear).month hvalid.month_pos hvalid.month_le
  exact hmonth.day hvalid.day_pos hvalid.day_le

end Calendar
