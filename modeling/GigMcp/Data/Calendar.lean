import GigMcp.Data.Text
import Mathlib.Tactic.IntervalCases
import Mathlib.Tactic.Ring

/-!
# The Gregorian calendar

Dates of the calendar, extended to all years before and after its introduction, and the numbers
of their days, counted from the first of January 1970.

`Date.next` is the calendar as people know it: months of 28 to 31 days, and a leap day every
fourth year except in three of four centuries.  `dayNumber` and `Date.ofDayNumber` convert
between dates and numbers without a loop.  They count years from March, so that the leap day is
the last day of its year, and divide by the length of a cycle in quarter days, so that four
years and four centuries are handled in the same way (`cycleOf`).

The two conversions are inverse to each other, and the day after a date is its `next`
(`Date.ofDayNumber_succ`).  The text of a date determines it (`Date.format_injective`).
-/

namespace GigMcp.Data

/-! ## Dates -/

/-- Every fourth year, of the last years of a century only every fourth. -/
def IsLeap (year : Int) : Prop := year % 4 = 0 ∧ (year % 100 ≠ 0 ∨ year % 400 = 0)

instance (year : Int) : Decidable (IsLeap year) := inferInstanceAs (Decidable (_ ∧ _))

/-- The length of a month. -/
def daysIn (year month : Int) : Int :=
  if month = 2 then if IsLeap year then 29 else 28
  else if month = 4 ∨ month = 6 ∨ month = 9 ∨ month = 11 then 30
  else 31

theorem daysIn_pos (year month : Int) : 1 ≤ daysIn year month := by
  unfold daysIn
  split
  · split <;> decide
  · split <;> decide

/-- A date of the calendar. -/
@[ext] structure Date where
  year : Int
  month : Int
  day : Int
  one_le_month : 1 ≤ month
  month_le : month ≤ 12
  one_le_day : 1 ≤ day
  day_le : day ≤ daysIn year month
deriving DecidableEq

/-- The day after a date. -/
def Date.next (d : Date) : Date :=
  if hday : d.day < daysIn d.year d.month then
    { d with
      day := d.day + 1
      one_le_day := by have := d.one_le_day; omega
      day_le := by omega }
  else if hmonth : d.month < 12 then
    { year := d.year
      month := d.month + 1
      day := 1
      one_le_month := by have := d.one_le_month; omega
      month_le := by omega
      one_le_day := by decide
      day_le := daysIn_pos _ _ }
  else
    { year := d.year + 1
      month := 1
      day := 1
      one_le_month := by decide
      month_le := by decide
      one_le_day := by decide
      day_le := daysIn_pos _ _ }

/-! ## Cycles of four

Of four consecutive periods three have `k` days and the last one has `k + 1`: the years of a
century with `k = 365`, and the centuries with `k = 36524`. -/

/-- The first day of the `q`-th period. -/
def cycleStart (k q : Int) : Int := (4 * k + 1) * q / 4

/-- The period a day is in. -/
def cycleOf (k n : Int) : Int := (4 * n + 3) / (4 * k + 1)

/-- The number of a day in its period. -/
def dayOfCycle (k n : Int) : Int := (4 * n + 3) % (4 * k + 1) / 4

/-- `d` is a day of the `q`-th period. -/
def InCycle (k q d : Int) : Prop := 0 ≤ d ∧ (d < k ∨ d = k ∧ q % 4 = 3)

theorem cycleStart_eq (k q : Int) : cycleStart k q = k * q + q / 4 := by
  have hmul : (4 * k + 1) * q = 4 * (k * q) + q := by ring
  rw [cycleStart, hmul]
  omega

/-- A day is the sum of its period's first day and its number in the period. -/
theorem cycle_spec {k : Int} (hk : 0 ≤ k) (n : Int) :
    cycleStart k (cycleOf k n) + dayOfCycle k n = n ∧ InCycle k (cycleOf k n) (dayOfCycle k n) := by
  have hdiv := Int.mul_ediv_add_emod (4 * n + 3) (4 * k + 1)
  have hnonneg : 0 ≤ (4 * n + 3) % (4 * k + 1) := Int.emod_nonneg _ (by omega)
  have hlt : (4 * n + 3) % (4 * k + 1) < 4 * k + 1 := Int.emod_lt_of_pos _ (by omega)
  rw [cycleStart_eq]
  unfold cycleOf dayOfCycle InCycle
  generalize (4 * n + 3) / (4 * k + 1) = q at *
  generalize (4 * n + 3) % (4 * k + 1) = r at *
  have hmul : (4 * k + 1) * q = 4 * (k * q) + q := by ring
  rw [hmul] at hdiv
  -- What is left is linear in the product.
  generalize k * q = m at *
  omega

/-- There is only one way to write a day so. -/
theorem cycle_unique {k q d : Int} (hd : InCycle k q d) :
    cycleOf k (cycleStart k q + d) = q ∧ dayOfCycle k (cycleStart k q + d) = d := by
  obtain ⟨hnonneg, hlt⟩ := hd
  have hsplit : (4 * (cycleStart k q + d) + 3) / (4 * k + 1) = q ∧
      (4 * (cycleStart k q + d) + 3) % (4 * k + 1) = 4 * d + 3 - q % 4 := by
    rw [Int.ediv_emod_unique (by omega), cycleStart_eq]
    have hmul : (4 * k + 1) * q = 4 * (k * q) + q := by ring
    rw [hmul]
    generalize k * q = m
    omega
  refine ⟨hsplit.1, ?_⟩
  rw [dayOfCycle, hsplit.2]
  omega

/-! ## Years from March -/

/-- The year after the `y`-th of the `c`-th century is a leap year, and the year itself has 366
days when it is counted from March. -/
theorem isLeap_succ {c y : Int} (hlow : 0 ≤ y) (hhigh : y < 100) :
    IsLeap (100 * c + y + 1) ↔ y % 4 = 3 ∧ (y = 99 → c % 4 = 3) := by
  unfold IsLeap
  omega

/-- `e` is a day of the `y`-th year of the `c`-th century. -/
def InYear (c y e : Int) : Prop :=
  0 ≤ y ∧ y < 100 ∧ 0 ≤ e ∧ (e < 365 ∨ e = 365 ∧ IsLeap (100 * c + y + 1))

theorem InYear.le {c y e : Int} (h : InYear c y e) : e ≤ 365 := by
  rcases h.2.2.2 with hlt | ⟨rfl, -⟩
  · omega
  · exact le_refl _

/-- The number of a day in its century. -/
theorem InYear.inCycle {c y e : Int} (h : InYear c y e) :
    InCycle 365 y e ∧ InCycle 36524 c (cycleStart 365 y + e) := by
  obtain ⟨hlow, hhigh, hnonneg, hlt⟩ := h
  rw [isLeap_succ hlow hhigh] at hlt
  rw [cycleStart_eq]
  unfold InCycle
  omega

theorem inYear_of_inCycle {c d : Int} (hd : InCycle 36524 c d) :
    InYear c (cycleOf 365 d) (dayOfCycle 365 d) := by
  obtain ⟨hsum, hnonneg, hlt⟩ := cycle_spec (show (0 : Int) ≤ 365 by decide) d
  obtain ⟨hlow, hhigh⟩ := hd
  rw [cycleStart_eq] at hsum
  have hyear : 0 ≤ cycleOf 365 d ∧ cycleOf 365 d < 100 := by omega
  refine ⟨hyear.1, hyear.2, hnonneg, ?_⟩
  rw [isLeap_succ hyear.1 hyear.2]
  omega

/-! ## Months from March -/

/-- The first day of a month in its year; January and February are the months 13 and 14. -/
def monthStart (m : Int) : Int := (153 * m - 457) / 5

/-- The month a day of the year is in. -/
def monthOf (e : Int) : Int := (5 * e + 461) / 153

/-- The number of a day in its month. -/
def dayOfMonth (e : Int) : Int := (5 * e + 461) % 153 / 5

theorem month_spec {e : Int} (hlow : 0 ≤ e) (hhigh : e ≤ 365) :
    monthStart (monthOf e) + dayOfMonth e = e ∧ 3 ≤ monthOf e ∧ monthOf e ≤ 14 ∧
      0 ≤ dayOfMonth e := by
  unfold monthStart monthOf dayOfMonth
  omega

/-- The year of the calendar that a month from March on belongs to. -/
def yearOf (c y m : Int) : Int := 100 * c + y + if 12 < m then 1 else 0

/-- The month of the calendar. -/
def calendarMonth (m : Int) : Int := if 12 < m then m - 12 else m

/-- The length of a month from March on. -/
theorem daysIn_march {c y m : Int} (hlow : 3 ≤ m) (hhigh : m ≤ 14) :
    daysIn (yearOf c y m) (calendarMonth m) =
      if m = 14 then if IsLeap (100 * c + y + 1) then 29 else 28
      else monthStart (m + 1) - monthStart m := by
  interval_cases m <;> simp [daysIn, yearOf, calendarMonth, monthStart]

/-- The days of a year are days of the calendar. -/
theorem dayOfMonth_lt {c y e : Int} (h : InYear c y e) :
    dayOfMonth e < daysIn (yearOf c y (monthOf e)) (calendarMonth (monthOf e)) := by
  obtain ⟨-, -, hnonneg, hlt⟩ := h
  have hle : e ≤ 365 := by
    rcases hlt with hlt | ⟨rfl, -⟩
    · omega
    · exact le_refl _
  obtain ⟨hsum, hlow, hhigh, hday⟩ := month_spec hnonneg hle
  rw [daysIn_march hlow hhigh]
  unfold monthStart monthOf dayOfMonth at *
  split
  · split
    · omega
    · rename_i hleap
      have hlt := hlt.resolve_right fun h ↦ hleap h.2
      omega
  · omega

theorem daysIn_march_le {c y m : Int} (hlow : 3 ≤ m) (hhigh : m ≤ 14) :
    daysIn (yearOf c y m) (calendarMonth m) ≤ monthStart (m + 1) - monthStart m := by
  rw [daysIn_march hlow hhigh]
  split
  · rename_i hm
    subst hm
    split
    · decide
    · decide
  · exact le_refl _

/-- A day that a month has room for is in that month. -/
theorem monthOf_add {m d : Int} (hlow : 3 ≤ m) (hhigh : m ≤ 14) (hd : 0 ≤ d)
    (hlt : d < monthStart (m + 1) - monthStart m) :
    monthOf (monthStart m + d) = m ∧ dayOfMonth (monthStart m + d) = d := by
  interval_cases m <;> simp only [monthStart, monthOf, dayOfMonth] at hlt ⊢ <;> omega

/-- The days of the calendar are days of a year. -/
theorem inYear_of_lt {c y m d : Int} (hy : 0 ≤ y ∧ y < 100) (hm : 3 ≤ m ∧ m ≤ 14) (hd : 0 ≤ d)
    (hlt : d < daysIn (yearOf c y m) (calendarMonth m)) :
    InYear c y (monthStart m + d) ∧ monthOf (monthStart m + d) = m ∧
      dayOfMonth (monthStart m + d) = d := by
  obtain ⟨hlow, hhigh⟩ := hm
  have hmonth := monthOf_add hlow hhigh hd (lt_of_lt_of_le hlt (daysIn_march_le hlow hhigh))
  have hstart : 0 ≤ monthStart m + d := by
    unfold monthStart
    omega
  refine ⟨⟨hy.1, hy.2, hstart, ?_⟩, hmonth⟩
  -- Only the last month of a year, February, has a last day that not every year has.
  rw [daysIn_march hlow hhigh] at hlt
  split at hlt
  · rename_i hm
    subst hm
    rw [show monthStart 14 = 337 from rfl]
    split at hlt
    · rename_i hleap
      by_cases hd : d = 28
      · exact .inr ⟨by omega, hleap⟩
      · exact .inl (by omega)
    · exact .inl (by omega)
  · left
    unfold monthStart at *
    omega

/-! ## Day numbers -/

/-- The year from March on that a month of the calendar is in. -/
def marchYear (year month : Int) : Int := if month < 3 then year - 1 else year

/-- A month of the calendar, with January and February after December. -/
def marchMonth (month : Int) : Int := if month < 3 then month + 12 else month

theorem marchMonth_bounds {month : Int} (hlow : 1 ≤ month) (hhigh : month ≤ 12) :
    3 ≤ marchMonth month ∧ marchMonth month ≤ 14 := by
  unfold marchMonth
  split <;> omega

theorem marchYear_calendar {c y m : Int} (hlow : 3 ≤ m) (hhigh : m ≤ 14) :
    marchYear (yearOf c y m) (calendarMonth m) = 100 * c + y := by
  unfold marchYear yearOf calendarMonth
  split <;> split <;> omega

theorem marchMonth_calendar {m : Int} (hlow : 3 ≤ m) (hhigh : m ≤ 14) :
    marchMonth (calendarMonth m) = m := by
  unfold marchMonth calendarMonth
  split <;> split <;> omega

theorem calendarMonth_march {month : Int} (hlow : 1 ≤ month) (hhigh : month ≤ 12) :
    calendarMonth (marchMonth month) = month := by
  unfold marchMonth calendarMonth
  split <;> split <;> omega

theorem yearOf_march (year : Int) {month : Int} (hlow : 1 ≤ month) (hhigh : month ≤ 12) :
    yearOf (marchYear year month / 100) (marchYear year month % 100) (marchMonth month) = year := by
  unfold yearOf marchYear marchMonth
  split <;> split <;> omega

/-- The first day of a year that is counted from March. -/
def yearStart (y : Int) : Int := cycleStart 36524 (y / 100) + cycleStart 365 (y % 100)

theorem yearStart_succ (y : Int) :
    yearStart (y + 1) = yearStart y + if IsLeap (y + 1) then 366 else 365 := by
  simp only [yearStart, cycleStart_eq]
  by_cases hleap : IsLeap (y + 1)
  · rw [if_pos hleap]
    unfold IsLeap at hleap
    omega
  · rw [if_neg hleap]
    unfold IsLeap at hleap
    omega

/-- The number of a day by its year and month, which is one of the twelve; the number of the day
may be any. -/
def dayNumber (year month day : Int) : Int :=
  yearStart (marchYear year month) + monthStart (marchMonth month) + (day - 1) - 719468

theorem dayNumber_add (year month day n : Int) :
    dayNumber year month (day + n) = dayNumber year month day + n := by
  unfold dayNumber
  omega

/-- The first day of a month comes after the last day of the month before. -/
theorem dayNumber_month {year month : Int} (hlow : 1 ≤ month) (hhigh : month < 12) :
    dayNumber year (month + 1) 1 = dayNumber year month (daysIn year month + 1) := by
  by_cases hfeb : month = 2
  · subst hfeb
    have hsucc := yearStart_succ (year - 1)
    rw [Int.sub_add_cancel] at hsucc
    show yearStart year + 0 + 0 - 719468 = yearStart (year - 1) + 337 + _ - 719468
    rw [hsucc, daysIn, if_pos rfl]
    split
    · omega
    · omega
  · have hyear : marchYear year (month + 1) = marchYear year month := by
      unfold marchYear
      split <;> split <;> omega
    have hmonth : marchMonth (month + 1) = marchMonth month + 1 := by
      unfold marchMonth
      split <;> split <;> omega
    have hlen : daysIn year month =
        monthStart (marchMonth month + 1) - monthStart (marchMonth month) := by
      obtain ⟨hmlow, hmhigh⟩ := marchMonth_bounds hlow (Int.le_of_lt hhigh)
      have hmarch := daysIn_march (c := marchYear year month / 100)
        (y := marchYear year month % 100) hmlow hmhigh
      rw [yearOf_march year hlow (by omega), calendarMonth_march hlow (by omega)] at hmarch
      rw [hmarch]
      refine if_neg ?_
      unfold marchMonth
      split <;> omega
    unfold dayNumber
    rw [hyear, hmonth, hlen]
    omega

/-- The first of January comes after the last of December. -/
theorem dayNumber_year (year : Int) : dayNumber (year + 1) 1 1 = dayNumber year 12 32 := by
  show yearStart (year + 1 - 1) + 306 + 0 - 719468 = yearStart year + 275 + 31 - 719468
  rw [Int.add_sub_cancel]
  omega

namespace Date

/-- The date of a day of a year that is counted from March. -/
def ofYear {c y e : Int} (h : InYear c y e) : Date where
  year := yearOf c y (monthOf e)
  month := calendarMonth (monthOf e)
  day := dayOfMonth e + 1
  one_le_month := by
    obtain ⟨-, hlow, -, -⟩ := month_spec h.2.2.1 h.le
    unfold calendarMonth
    split <;> omega
  month_le := by
    obtain ⟨-, -, hhigh, -⟩ := month_spec h.2.2.1 h.le
    unfold calendarMonth
    split <;> omega
  one_le_day := by
    obtain ⟨-, -, -, hday⟩ := month_spec h.2.2.1 h.le
    omega
  day_le := dayOfMonth_lt h

/-- The date with a given number. -/
def ofDayNumber (n : Int) : Date :=
  ofYear (inYear_of_inCycle (cycle_spec (show (0 : Int) ≤ 36524 by decide) (n + 719468)).2)

/-- The number of a date. -/
def number (d : Date) : Int := dayNumber d.year d.month d.day

theorem number_ofYear {c y e : Int} (h : InYear c y e) :
    (ofYear h).number = cycleStart 36524 c + cycleStart 365 y + e - 719468 := by
  obtain ⟨hsum, hlow, hhigh, -⟩ := month_spec h.2.2.1 h.le
  have hc : (100 * c + y) / 100 = c := by
    have := h.1
    have := h.2.1
    omega
  have hy : (100 * c + y) % 100 = y := by
    have := h.1
    have := h.2.1
    omega
  simp only [number, dayNumber, yearStart, ofYear, marchYear_calendar hlow hhigh,
    marchMonth_calendar hlow hhigh, hc, hy]
  omega

/-- Every date is a day of a year that is counted from March. -/
theorem exists_ofYear (d : Date) : ∃ c y e, ∃ h : InYear c y e, ofYear h = d := by
  have hyear := yearOf_march d.year d.one_le_month d.month_le
  have hmonth := calendarMonth_march d.one_le_month d.month_le
  have hm := marchMonth_bounds d.one_le_month d.month_le
  have hday := d.one_le_day
  have hlast : d.day - 1 <
      daysIn (yearOf (marchYear d.year d.month / 100) (marchYear d.year d.month % 100)
        (marchMonth d.month)) (calendarMonth (marchMonth d.month)) := by
    have := d.day_le
    rw [hyear, hmonth]
    omega
  have hcyear : 0 ≤ marchYear d.year d.month % 100 ∧ marchYear d.year d.month % 100 < 100 := by
    omega
  obtain ⟨hin, hof, hnum⟩ := inYear_of_lt hcyear hm (by omega) hlast
  refine ⟨_, _, _, hin, Date.ext ?_ ?_ ?_⟩
  · simp only [ofYear, hof, hyear]
  · simp only [ofYear, hof, hmonth]
  · simp only [ofYear, hnum]
    omega

theorem ofYear_congr {c y e c' y' e' : Int} (h : InYear c y e) (h' : InYear c' y' e')
    (hc : c' = c) (hy : y' = y) (he : e' = e) : ofYear h' = ofYear h := by
  subst hc hy he
  rfl

@[simp] theorem ofDayNumber_number (d : Date) : ofDayNumber d.number = d := by
  obtain ⟨c, y, e, h, rfl⟩ := d.exists_ofYear
  have hn : (ofYear h).number + 719468 = cycleStart 36524 c + (cycleStart 365 y + e) := by
    rw [number_ofYear]
    omega
  obtain ⟨hyear, hcentury⟩ := h.inCycle
  obtain ⟨hc, hd⟩ := cycle_unique hcentury
  obtain ⟨hy, he⟩ := cycle_unique hyear
  refine ofYear_congr h _ ?_ ?_ ?_
  · rw [hn, hc]
  · rw [hn, hd, hy]
  · rw [hn, hd, he]

@[simp] theorem number_ofDayNumber (n : Int) : (ofDayNumber n).number = n := by
  obtain ⟨hsum, hcentury⟩ := cycle_spec (show (0 : Int) ≤ 36524 by decide) (n + 719468)
  obtain ⟨hday, -⟩ := cycle_spec (show (0 : Int) ≤ 365 by decide) (dayOfCycle 36524 (n + 719468))
  rw [ofDayNumber, number_ofYear]
  omega

theorem number_next (d : Date) : d.next.number = d.number + 1 := by
  unfold next
  split
  · exact dayNumber_add d.year d.month d.day 1
  · rename_i hday
    have hlast : d.day = daysIn d.year d.month := by
      have := d.day_le
      omega
    have hsucc := dayNumber_add d.year d.month d.day 1
    split
    · rename_i hmonth
      show dayNumber d.year (d.month + 1) 1 = dayNumber d.year d.month d.day + 1
      rw [dayNumber_month d.one_le_month hmonth, ← hlast, hsucc]
    · rename_i hmonth
      have hdec : d.month = 12 := by
        have := d.month_le
        omega
      show dayNumber (d.year + 1) 1 1 = dayNumber d.year d.month d.day + 1
      rw [dayNumber_year, ← hsucc, hlast, hdec]
      rfl

/-- The dates of consecutive days follow each other. -/
theorem ofDayNumber_succ (n : Int) : ofDayNumber (n + 1) = (ofDayNumber n).next := by
  have hnumber := number_next (ofDayNumber n)
  rw [number_ofDayNumber] at hnumber
  rw [← hnumber, ofDayNumber_number]

theorem ofDayNumber_injective : Function.Injective ofDayNumber := by
  intro m n h
  rw [← number_ofDayNumber m, h, number_ofDayNumber]

example : ofDayNumber 0 = ⟨1970, 1, 1, by decide, by decide, by decide, by decide⟩ := by decide

end Date

/-! ## Texts -/

/-- A number in decimal, with zeros in front that make it `width` digits long. -/
def padded (width : Nat) (x : Int) : List Char :=
  (if x < 0 then ['-'] else []) ++ (Nat.toDigits 10 x.natAbs).leftpad width '0'

theorem ofDigitChars_leftpad (width n : Nat) :
    Nat.ofDigitChars 10 ((Nat.toDigits 10 n).leftpad width '0') 0 = n := by
  have hzeros (k : Nat) : Nat.ofDigitChars 10 (List.replicate k '0') 0 = 0 := by
    induction k with
    | zero => rfl
    | succ k ih => rw [List.replicate_succ, Nat.ofDigitChars_cons]; exact ih
  rw [List.leftpad, Nat.ofDigitChars_append, hzeros,
    Nat.ofDigitChars_toDigits (by decide) (by decide)]

/-- There is no sign among the digits. -/
theorem minus_notMem_leftpad (width n : Nat) : '-' ∉ (Nat.toDigits 10 n).leftpad width '0' := by
  intro h
  rcases List.mem_append.mp h with h | h
  · exact absurd (List.eq_of_mem_replicate h) (by decide)
  · exact absurd (Nat.isDigit_of_mem_toDigits (by decide) (by decide) h) (by decide)

/-- Different numbers have different texts. -/
theorem padded_injective (width : Nat) : Function.Injective (padded width) := by
  intro x y h
  have habs {m n : Nat} (h : (Nat.toDigits 10 m).leftpad width '0' =
      (Nat.toDigits 10 n).leftpad width '0') : m = n := by
    rw [← ofDigitChars_leftpad width m, h, ofDigitChars_leftpad]
  unfold padded at h
  split at h
  · split at h
    · have := habs (List.append_cancel_left h)
      omega
    · rw [List.nil_append] at h
      exact absurd (h ▸ List.mem_cons_self) (minus_notMem_leftpad width y.natAbs)
  · split at h
    · rw [List.nil_append] at h
      exact absurd (h.symm ▸ List.mem_cons_self) (minus_notMem_leftpad width x.natAbs)
    · have := habs (List.append_cancel_left h)
      omega

/-- A number of at most two digits takes two places. -/
theorem length_padded_two {x : Int} (hlow : 0 ≤ x) (hhigh : x < 100) : (padded 2 x).length = 2 := by
  have hlen : (Nat.toDigits 10 x.natAbs).length ≤ 2 := by
    rw [Nat.length_toDigits_le_iff (by decide) (by decide)]
    omega
  rw [padded, if_neg (by omega), List.nil_append, List.length_leftpad]
  omega

namespace Date

/-- The text of a date: `2006-01-02`. -/
def format (d : Date) : String :=
  String.ofList (padded 4 d.year ++ '-' :: (padded 2 d.month ++ '-' :: padded 2 d.day))

theorem day_lt (d : Date) : d.day < 100 := by
  have hle := d.day_le
  unfold daysIn at hle
  split at hle
  · split at hle <;> omega
  · split at hle <;> omega

/-- The text of a date determines it. -/
theorem format_injective : Function.Injective format := by
  intro d d' h
  have hmonth (d : Date) : (padded 2 d.month).length = 2 := by
    have := d.one_le_month
    have := d.month_le
    exact length_padded_two (by omega) (by omega)
  have hday (d : Date) : (padded 2 d.day).length = 2 := by
    have := d.one_le_day
    exact length_padded_two (by omega) d.day_lt
  have hlist := String.ofList_injective h
  obtain ⟨hyear, hrest⟩ := List.append_inj' hlist (by simp [hmonth, hday])
  obtain ⟨hm, hrest⟩ := List.append_inj (List.cons.inj hrest).2 (by rw [hmonth, hmonth])
  exact Date.ext (padded_injective 4 hyear) (padded_injective 2 hm)
    (padded_injective 2 (List.cons.inj hrest).2)

example : (ofDayNumber 20612).format = "2026-06-08" := by decide

end Date

end GigMcp.Data
