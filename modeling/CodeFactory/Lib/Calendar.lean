/-!
# Days of the calendar

Dates of the Gregorian calendar, and the numbers of their days: a date is before another if and only if its day has a smaller number.
-/

namespace CodeFactory

def isLeap (year : Int) : Bool := year % 4 = 0 ∧ (year % 100 ≠ 0 ∨ year % 400 = 0)

def monthDays (leap : Bool) (month : Nat) : Nat :=
  if month = 2 then if leap then 29 else 28 else if month = 4 ∨ month = 6 ∨ month = 9 ∨ month = 11 then 30 else 31

/-- The days of a year that are before a month. -/
def daysBeforeMonth (leap : Bool) (month : Nat) : Nat :=
  [0, 31, 59, 90, 120, 151, 181, 212, 243, 273, 304, 334].getD (month - 1) 0 + if leap ∧ 2 < month then 1 else 0

/-- The days before a year, from the year zero on. -/
def daysBeforeYear (year : Int) : Int := 365 * year + (year + 3) / 4 - (year + 99) / 100 + (year + 399) / 400

/-- The number of a day; the day may be behind the end of the month. -/
def dayNumber (year : Int) (month : Nat) (day : Int) : Int := daysBeforeYear year + daysBeforeMonth (isLeap year) month + day

structure Date where
  year : Int
  month : Nat
  day : Nat
  month_pos : 1 ≤ month
  month_le : month ≤ 12
  day_pos : 1 ≤ day
  day_le : day ≤ monthDays (isLeap year) month

namespace Date

/-- A date is before another. -/
def Before (a b : Date) : Prop := a.year < b.year ∨ a.year = b.year ∧ (a.month < b.month ∨ a.month = b.month ∧ a.day < b.day)

instance (a b : Date) : Decidable (a.Before b) := inferInstanceAs (Decidable (_ ∨ _ ∧ (_ ∨ _ ∧ _)))

/-- The number of the day. -/
def number (a : Date) : Int := dayNumber a.year a.month a.day

variable {a b : Date}

theorem daysBeforeYear_succ (year : Int) : daysBeforeYear (year + 1) = daysBeforeYear year + 365 + if isLeap year then 1 else 0 := by
  simp only [daysBeforeYear, isLeap, decide_eq_true_eq]
  split <;> omega

theorem daysBeforeYear_mono {x y : Int} (h : x ≤ y) : daysBeforeYear x ≤ daysBeforeYear y := by
  simp only [daysBeforeYear]
  omega

theorem daysBeforeMonth_add_le : ∀ leap : Bool, ∀ m < 13, ∀ n < 13, 1 ≤ m → m < n →
    daysBeforeMonth leap m + monthDays leap m ≤ daysBeforeMonth leap n := by
  decide

theorem daysBeforeMonth_le : ∀ leap : Bool, ∀ m < 13, 1 ≤ m → daysBeforeMonth leap m + monthDays leap m ≤ 365 + if leap then 1 else 0 := by
  decide

/-- The days of a year are before those of the next. -/
theorem number_le_of_year (a : Date) : a.number ≤ daysBeforeYear (a.year + 1) := by
  have hmonth := daysBeforeMonth_le (isLeap a.year) a.month (Nat.lt_succ_of_le a.month_le) a.month_pos
  have hday := a.day_le
  have hyear := daysBeforeYear_succ a.year
  simp only [number, dayNumber]
  generalize isLeap a.year = leap at hmonth hday hyear ⊢
  cases leap
  · simp only [Bool.false_eq_true, if_false] at hmonth hyear
    omega
  · simp only [if_true] at hmonth hyear
    omega

theorem number_lt_of_before (h : a.Before b) : a.number < b.number := by
  rcases h with hyear | ⟨hyear, hmonth | ⟨hmonth, hday⟩⟩
  · have ha := number_le_of_year a
    have hmono := daysBeforeYear_mono (Int.add_one_le_of_lt hyear)
    have hb := b.day_pos
    have hnumber : b.number = daysBeforeYear b.year + daysBeforeMonth (isLeap b.year) b.month + b.day := rfl
    omega
  · have hmonths := daysBeforeMonth_add_le (isLeap a.year) a.month (Nat.lt_succ_of_le a.month_le) b.month (Nat.lt_succ_of_le b.month_le)
      a.month_pos hmonth
    have ha := a.day_le
    have hb := b.day_pos
    simp only [number, dayNumber, ← hyear]
    omega
  · simp only [number, dayNumber, ← hyear, ← hmonth]
    omega

theorem eq_of_not_before (hab : ¬a.Before b) (hba : ¬b.Before a) : a = b := by
  obtain ⟨year, month, day, _, _, _, _⟩ := a
  obtain ⟨year', month', day', _, _, _, _⟩ := b
  simp only [Before] at hab hba
  obtain rfl : year = year' := by omega
  obtain rfl : month = month' := by omega
  obtain rfl : day = day' := by omega
  rfl

theorem number_lt_iff : a.number < b.number ↔ a.Before b := by
  refine ⟨fun h => Decidable.byContradiction fun hab => ?_, number_lt_of_before⟩
  rcases Decidable.em (b.Before a) with hba | hba
  · have hlt := number_lt_of_before hba
    omega
  · rw [eq_of_not_before hab hba] at h
    omega

theorem number_inj (h : a.number = b.number) : a = b :=
  eq_of_not_before (fun hab => by have hlt := number_lt_of_before hab; omega) fun hba => by have hlt := number_lt_of_before hba; omega

end Date

end CodeFactory
