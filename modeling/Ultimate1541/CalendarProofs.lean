import Mathlib

/-! # The Gregorian calendar

    A library about dates and times of day.  A clock is what it shows
    and how it goes on: `Moment.next` is the next second, with its
    carries into the minute, the hour, the day, the month and the year,
    and the day of the week goes on with the day.  `after n` is what a
    clock shows `n` seconds after the first of January 1980.

    Against it stands the count of days from the first of March of the
    year 0, which has no carries: `dayCount` counts one more for the
    next day (`dayCount_next`), and the date can be told from it
    (`civil_dayCount`).  So every moment from 1980 on is what the clock
    shows after some seconds (`exists_after`). -/

namespace Calendar

/-! ## Days -/

/-- A leap year. -/
def Leap (y : Nat) : Prop :=
  y % 4 = 0 ∧ (y % 100 ≠ 0 ∨ y % 400 = 0)

instance : DecidablePred Leap := fun y =>
  inferInstanceAs (Decidable (y % 4 = 0 ∧ (y % 100 ≠ 0 ∨ y % 400 = 0)))

/-- The days of a month. -/
def monthLength (y m : Nat) : Nat :=
  if m = 2 then (if Leap y then 29 else 28)
  else if m = 4 ∨ m = 6 ∨ m = 9 ∨ m = 11 then 30
  else 31

/-- A date and its day of the week, 0 for Sunday. -/
structure Date where
  year : Nat
  month : Nat
  day : Nat
  weekday : Nat
  month_pos : 1 ≤ month
  month_le : month ≤ 12
  day_pos : 1 ≤ day
  day_le : day ≤ monthLength year month
  weekday_lt : weekday < 7
deriving DecidableEq

theorem monthLength_pos (y m : Nat) : 28 ≤ monthLength y m := by
  rw [monthLength]
  split
  · split
    · omega
    · omega
  · split
    · omega
    · omega

theorem monthLength_le (y m : Nat) : monthLength y m ≤ 31 := by
  rw [monthLength]
  split
  · split
    · omega
    · omega
  · split
    · omega
    · omega

/-- The day after. -/
def Date.next (t : Date) : Date :=
  if hd : t.day < monthLength t.year t.month then
    { t with
      day := t.day + 1
      weekday := (t.weekday + 1) % 7
      day_pos := Nat.le_add_left 1 t.day
      day_le := hd
      weekday_lt := Nat.mod_lt _ (by decide) }
  else if hm : t.month < 12 then
    { year := t.year
      month := t.month + 1
      day := 1
      weekday := (t.weekday + 1) % 7
      month_pos := Nat.le_add_left 1 t.month
      month_le := hm
      day_pos := Nat.le_refl 1
      day_le := Nat.le_trans (by decide) (monthLength_pos _ _)
      weekday_lt := Nat.mod_lt _ (by decide) }
  else
    { year := t.year + 1
      month := 1
      day := 1
      weekday := (t.weekday + 1) % 7
      month_pos := Nat.le_refl 1
      month_le := by decide
      day_pos := Nat.le_refl 1
      day_le := Nat.le_trans (by decide) (monthLength_pos _ _)
      weekday_lt := Nat.mod_lt _ (by decide) }

@[simp] theorem Date.next_weekday (t : Date) : t.next.weekday = (t.weekday + 1) % 7 := by
  rw [Date.next]
  split
  · rfl
  · split
    · rfl
    · rfl

theorem Date.year_le_next (t : Date) : t.year ≤ t.next.year := by
  rw [Date.next]
  split
  · exact Nat.le_refl _
  · split
    · exact Nat.le_refl _
    · exact Nat.le_succ _

/-! ## The count of days -/

/-- The year that began with the last March. -/
def marchYear (y m : Nat) : Nat :=
  if m ≤ 2 then y - 1 else y

/-- The month, March being 0. -/
def marchMonth (m : Nat) : Nat :=
  if 2 < m then m - 3 else m + 9

/-- The days from March to the month. -/
def daysBefore (mp : Nat) : Nat :=
  (153 * mp + 2) / 5

/-- The days before a year that begins in March. -/
def yearStart (y : Nat) : Nat :=
  365 * y + y / 4 - y / 100 + y / 400

/-- The day of a year that begins in March. -/
def dayOfYear (m d : Nat) : Nat :=
  daysBefore (marchMonth m) + d - 1

/-- The days from the first of March of the year 0 to a date. -/
def dayCount (y m d : Nat) : Nat :=
  yearStart (marchYear y m) + dayOfYear m d

/-- A year that begins in March has a leap day when the next year is a
    leap year. -/
theorem yearStart_succ (y : Nat) :
    yearStart (y + 1) = yearStart y + if Leap (y + 1) then 366 else 365 := by
  -- each quotient goes on by one where its divisor is met
  have h4 : (y + 1) / 4 = y / 4 + if (y + 1) % 4 = 0 then 1 else 0 := by
    split <;> omega
  have h100 : (y + 1) / 100 = y / 100 + if (y + 1) % 100 = 0 then 1 else 0 := by
    split <;> omega
  have h400 : (y + 1) / 400 = y / 400 + if (y + 1) % 400 = 0 then 1 else 0 := by
    split <;> omega
  have hle : y / 100 ≤ y / 4 := by omega
  rw [yearStart, yearStart, h4, h100, h400]
  simp only [Leap]
  generalize y / 4 = a at *
  generalize y / 100 = b at *
  generalize y / 400 = c at *
  by_cases e4 : (y + 1) % 4 = 0
  · by_cases e100 : (y + 1) % 100 = 0
    · by_cases e400 : (y + 1) % 400 = 0
      · simp [e4, e100, e400]
        omega
      · simp [e4, e100, e400]
        omega
    · have e400 : (y + 1) % 400 ≠ 0 := by omega
      simp [e4, e100, e400]
      omega
  · have e100 : (y + 1) % 100 ≠ 0 := by omega
    have e400 : (y + 1) % 400 ≠ 0 := by omega
    simp [e4, e100, e400]
    omega

/-- The month after, counted on from the first of a month: the months
    other than February have a fixed length. -/
theorem daysBefore_succ (y m : Nat) (hpos : 1 ≤ m) (hle : m < 12) (hfeb : m ≠ 2) :
    daysBefore (marchMonth (m + 1)) = daysBefore (marchMonth m) + monthLength y m := by
  have hcases : m = 1 ∨ m = 3 ∨ m = 4 ∨ m = 5 ∨ m = 6 ∨ m = 7 ∨ m = 8 ∨ m = 9 ∨ m = 10
      ∨ m = 11 := by omega
  rcases hcases with rfl | rfl | rfl | rfl | rfl | rfl | rfl | rfl | rfl | rfl
  all_goals rfl

/-- **ONE MORE DAY** is one more in the count. -/
theorem dayCount_next (t : Date) (hyear : 1 ≤ t.year) :
    dayCount t.next.year t.next.month t.next.day = dayCount t.year t.month t.day + 1 := by
  have hpos := t.day_pos
  have hmle := t.month_le
  rw [Date.next]
  split
  · -- within the month
    show dayCount t.year t.month (t.day + 1) = _
    simp only [dayCount, dayOfYear]
    omega
  · rename_i hlast
    have hday : t.day = monthLength t.year t.month := Nat.le_antisymm t.day_le (Nat.le_of_not_lt hlast)
    split
    · rename_i hm
      show dayCount t.year (t.month + 1) 1 = _
      by_cases hfeb : t.month = 2
      · -- the leap day, or its absence, is the last of its year
        have hstart := yearStart_succ (t.year - 1)
        rw [Nat.sub_add_cancel hyear] at hstart
        by_cases hleap : Leap t.year
        · simp [dayCount, dayOfYear, marchYear, marchMonth, daysBefore, hfeb, hday, monthLength,
            hleap] at hstart ⊢
          omega
        · simp [dayCount, dayOfYear, marchYear, marchMonth, daysBefore, hfeb, hday, monthLength,
            hleap] at hstart ⊢
          omega
      · have hmonth := daysBefore_succ t.year t.month t.month_pos hm hfeb
        have hyears : marchYear t.year (t.month + 1) = marchYear t.year t.month := by
          rw [marchYear, marchYear]
          split
          · rw [if_pos (by omega)]
          · rw [if_neg (by omega)]
        simp only [dayCount, dayOfYear, hyears, hmonth, hday]
        have := monthLength_pos t.year t.month
        omega
    · -- December is followed by January of the same count of years
      rename_i hm
      have hdec : t.month = 12 := Nat.le_antisymm t.month_le (Nat.le_of_not_lt hm)
      show dayCount (t.year + 1) 1 1 = _
      simp only [hdec, monthLength] at hday
      simp only [dayCount, dayOfYear, marchYear, marchMonth, daysBefore, hdec, hday]
      rfl

/-! ## From the count to the date -/

/-- The year of its era, from the day of the era. -/
def yearOfEra (doe : Nat) : Nat :=
  (doe - doe / 1460 + doe / 36524 - doe / 146096) / 365

/-- The year in an era of 400, as centuries, olympiads and years. -/
theorem yearOfEra_parts (c q r doy : Nat) (hc : c < 4) (hq : q < 25) (hr : r < 4)
    (hdoy : doy ≤ 365) (hleap : doy = 365 → r = 3 ∧ (q ≠ 24 ∨ c = 3)) :
    yearOfEra (36524 * c + 1461 * q + 365 * r + doy) = 100 * c + 4 * q + r := by
  have h1460 : (36524 * c + 1461 * q + 365 * r + doy) / 1460
      = 25 * c + q + (24 * c + q + 365 * r + doy) / 1460 := by omega
  have h36524 : (36524 * c + 1461 * q + 365 * r + doy) / 36524
      = c + (1461 * q + 365 * r + doy) / 36524 := by omega
  -- the last two quotients count the last day of a century and of the era
  have hlast : (1461 * q + 365 * r + doy) / 36524 = if q = 24 ∧ doy = 365 then 1 else 0 := by
    split <;> omega
  have hera : (36524 * c + 1461 * q + 365 * r + doy) / 146096
      = if q = 24 ∧ doy = 365 then 1 else 0 := by
    split <;> omega
  have hlate : (24 * c + q + 365 * r + doy) / 1460
      = if r = 3 ∧ 365 ≤ 24 * c + q + doy then 1 else 0 := by
    split <;> omega
  rw [yearOfEra, h1460, h36524, hlast, hera, hlate]
  by_cases h24 : q = 24 ∧ doy = 365
  · rw [if_pos h24]
    split <;> omega
  · rw [if_neg h24]
    split <;> omega

theorem yearOfEra_eq (k doy : Nat) (hk : k < 400)
    (hdoy : doy < if Leap (k + 1) then 366 else 365) :
    yearOfEra (365 * k + k / 4 - k / 100 + doy) = k := by
  have hform : 365 * k + k / 4 - k / 100 + doy
      = 36524 * (k / 100) + 1461 * (k % 100 / 4) + 365 * (k % 4) + doy := by omega
  have hle : doy ≤ 365 := by
    split at hdoy
    · omega
    · omega
  rw [hform, yearOfEra_parts _ _ _ _ (by omega) (by omega) (by omega) hle]
  · omega
  · intro h365
    by_cases hleap : Leap (k + 1)
    · rw [Leap] at hleap
      omega
    · rw [if_neg hleap] at hdoy
      omega

/-- The months of a year, one by one. -/
theorem month_cases {m : Nat} (hpos : 1 ≤ m) (hle : m ≤ 12) :
    m = 1 ∨ m = 2 ∨ m = 3 ∨ m = 4 ∨ m = 5 ∨ m = 6 ∨ m = 7 ∨ m = 8 ∨ m = 9 ∨ m = 10 ∨ m = 11
      ∨ m = 12 := by
  omega

/-- The month and the day, from the day of the year. -/
theorem monthOf_dayOfYear (t : Date) :
    (5 * dayOfYear t.month t.day + 2) / 153 = marchMonth t.month := by
  have hpos := t.day_pos
  have hle := t.day_le
  have hfeb : monthLength t.year 2 ≤ 29 := by
    rw [monthLength, if_pos rfl]
    split <;> omega
  rw [dayOfYear]
  rcases month_cases t.month_pos t.month_le with h | h | h | h | h | h | h | h | h | h | h | h
  all_goals simp only [h] at hle ⊢
  all_goals simp [monthLength, marchMonth, daysBefore] at hle hfeb ⊢
  all_goals omega

/-- A year that begins in March is over with the last of February. -/
theorem dayOfYear_lt (t : Date) (hyear : 1 ≤ t.year) :
    dayOfYear t.month t.day < if Leap (marchYear t.year t.month + 1) then 366 else 365 := by
  have hpos := t.day_pos
  have hle := t.day_le
  have hlong : monthLength t.year t.month ≤ 31 := monthLength_le _ _
  by_cases hfeb : t.month = 2
  · have hmarch : marchYear t.year t.month + 1 = t.year := by
      rw [marchYear, if_pos (by omega)]
      omega
    rw [hmarch, hfeb]
    simp only [hfeb, monthLength] at hle
    by_cases hleap : Leap t.year
    · simp [dayOfYear, daysBefore, marchMonth, hleap] at hle ⊢
      omega
    · simp [dayOfYear, daysBefore, marchMonth, hleap] at hle ⊢
      omega
  · have hshort : dayOfYear t.month t.day < 365 := by
      rw [dayOfYear]
      rcases month_cases t.month_pos t.month_le with h | h | h | h | h | h | h | h | h | h | h | h
      all_goals simp only [h] at hfeb ⊢
      all_goals simp [marchMonth, daysBefore] at hfeb ⊢
      all_goals omega
    split <;> omega

/-- The count of a day as its era, its year in the era and its day. -/
theorem dayCount_parts (t : Date) :
    dayCount t.year t.month t.day = 146097 * (marchYear t.year t.month / 400)
      + (365 * (marchYear t.year t.month % 400) + marchYear t.year t.month % 400 / 4
        - marchYear t.year t.month % 400 / 100 + dayOfYear t.month t.day) := by
  rw [dayCount, yearStart]
  generalize marchYear t.year t.month = y
  omega

/-- A day stays within its era. -/
theorem dayOfEra_lt {k doy : Nat} (hk : k < 400) (hdoy : doy < if Leap (k + 1) then 366 else 365) :
    365 * k + k / 4 - k / 100 + doy < 146097 := by
  by_cases hleap : Leap (k + 1)
  · rw [if_pos hleap] at hdoy
    omega
  · rw [if_neg hleap] at hdoy
    rw [Leap] at hleap
    omega

/-- The era of a date, the day of the era and the year of that day. -/
theorem dayCount_era (t : Date) (hyear : 1 ≤ t.year) :
    dayCount t.year t.month t.day / 146097 = marchYear t.year t.month / 400
    ∧ dayCount t.year t.month t.day % 146097 = 365 * (marchYear t.year t.month % 400)
        + marchYear t.year t.month % 400 / 4 - marchYear t.year t.month % 400 / 100
        + dayOfYear t.month t.day
    ∧ yearOfEra (dayCount t.year t.month t.day % 146097) = marchYear t.year t.month % 400 := by
  have hmod : marchYear t.year t.month % 400 < 400 := Nat.mod_lt _ (by decide)
  have hdoy : dayOfYear t.month t.day
      < if Leap (marchYear t.year t.month % 400 + 1) then 366 else 365 := by
    have hsame : Leap (marchYear t.year t.month % 400 + 1) ↔ Leap (marchYear t.year t.month + 1) := by
      rw [Leap, Leap]
      omega
    simp only [hsame]
    exact dayOfYear_lt t hyear
  have hlt := dayOfEra_lt hmod hdoy
  have hera := yearOfEra_eq _ _ hmod hdoy
  rw [dayCount_parts]
  generalize 365 * (marchYear t.year t.month % 400) + marchYear t.year t.month % 400 / 4
      - marchYear t.year t.month % 400 / 100 + dayOfYear t.month t.day = doe at hlt hera
  have hrem : (146097 * (marchYear t.year t.month / 400) + doe) % 146097 = doe := by omega
  rw [hrem]
  exact ⟨by omega, rfl, hera⟩

/-- The date of a count: the year, the month and the day. -/
def civil (days : Nat) : Nat × Nat × Nat :=
  let era := days / 146097
  let doe := days % 146097
  let k := yearOfEra doe
  let doy := doe - (365 * k + k / 4 - k / 100)
  let mp := (5 * doy + 2) / 153
  let m := if mp < 10 then mp + 3 else mp - 9
  (era * 400 + k + if m ≤ 2 then 1 else 0, m, doy - daysBefore mp + 1)

/-- **THE COUNT TELLS THE DATE.** -/
theorem civil_dayCount (t : Date) (hyear : 1 ≤ t.year) :
    civil (dayCount t.year t.month t.day) = (t.year, t.month, t.day) := by
  have hpos := t.day_pos
  have hmpos := t.month_pos
  have hmle := t.month_le
  obtain ⟨hdiv, hrem, hera⟩ := dayCount_era t hyear
  have hback : dayCount t.year t.month t.day % 146097 - (365 * (marchYear t.year t.month % 400)
      + marchYear t.year t.month % 400 / 4 - marchYear t.year t.month % 400 / 100)
      = dayOfYear t.month t.day := by omega
  simp only [civil, hdiv, hera, hback, monthOf_dayOfYear t]
  have hm : (if marchMonth t.month < 10 then marchMonth t.month + 3 else marchMonth t.month - 9)
      = t.month := by
    rw [marchMonth]
    by_cases h : 2 < t.month
    · rw [if_pos h]
      split <;> omega
    · rw [if_neg h]
      split <;> omega
  have hd : dayOfYear t.month t.day - daysBefore (marchMonth t.month) + 1 = t.day := by
    rw [dayOfYear]
    omega
  have hy : marchYear t.year t.month / 400 * 400 + marchYear t.year t.month % 400
      + (if t.month ≤ 2 then 1 else 0) = t.year := by
    rw [Nat.div_add_mod', marchYear]
    by_cases h : t.month ≤ 2
    · rw [if_pos h, if_pos h]
      omega
    · rw [if_neg h, if_neg h]
      rfl
  rw [hm, hd, hy]

/-! ## Times -/

/-- What a clock shows. -/
structure Moment where
  date : Date
  hour : Nat
  min : Nat
  sec : Nat
  hour_lt : hour < 24
  min_lt : min < 60
  sec_lt : sec < 60
deriving DecidableEq

/-- A second later. -/
def Moment.next (t : Moment) : Moment :=
  if hs : t.sec + 1 < 60 then { t with sec := t.sec + 1, sec_lt := hs }
  else if hm : t.min + 1 < 60 then
    { t with min := t.min + 1, sec := 0, min_lt := hm, sec_lt := by decide }
  else if hh : t.hour + 1 < 24 then
    { t with
      hour := t.hour + 1, min := 0, sec := 0
      hour_lt := hh, min_lt := by decide, sec_lt := by decide }
  else
    { date := t.date.next
      hour := 0, min := 0, sec := 0
      hour_lt := by decide, min_lt := by decide, sec_lt := by decide }

/-- The second of the day. -/
def Moment.ofDay (t : Moment) : Nat :=
  (t.hour * 60 + t.min) * 60 + t.sec

/-- The count of the day. -/
def Date.count (t : Date) : Nat :=
  dayCount t.year t.month t.day

/-- The seconds from the first of March of the year 0. -/
def Moment.count (t : Moment) : Nat :=
  t.date.count * 86400 + t.ofDay

/-- The year is in step with the count of days. -/
theorem Date.count_bounds (t : Date) :
    365 * (t.year - 1) ≤ t.count ∧ t.count < 366 * (t.year + 2) := by
  have hlong := monthLength_le t.year t.month
  have hday := t.day_le
  have hmonth := t.month_le
  have hmarch : t.year - 1 ≤ marchYear t.year t.month ∧ marchYear t.year t.month ≤ t.year := by
    rw [marchYear]
    split <;> omega
  have hbefore : daysBefore (marchMonth t.month) ≤ 337 := by
    rw [daysBefore, marchMonth]
    split <;> omega
  rw [Date.count, dayCount, yearStart, dayOfYear]
  omega

theorem Moment.ofDay_lt (t : Moment) : t.ofDay < 86400 := by
  have hh := t.hour_lt
  have hm := t.min_lt
  have hs := t.sec_lt
  rw [Moment.ofDay]
  omega

theorem Moment.year_le_next (t : Moment) : t.date.year ≤ t.next.date.year := by
  rw [Moment.next]
  split
  · exact Nat.le_refl _
  · split
    · exact Nat.le_refl _
    · split
      · exact Nat.le_refl _
      · exact t.date.year_le_next

/-- **ONE MORE SECOND** is one more in the count. -/
theorem Moment.count_next (t : Moment) (hyear : 1 ≤ t.date.year) : t.next.count = t.count + 1 := by
  have hs := t.sec_lt
  have hm := t.min_lt
  have hh := t.hour_lt
  rw [Moment.next]
  split
  · show t.date.count * 86400 + ((t.hour * 60 + t.min) * 60 + (t.sec + 1)) = _
    rw [Moment.count, Moment.ofDay]
    omega
  · split
    · show t.date.count * 86400 + ((t.hour * 60 + (t.min + 1)) * 60 + 0) = _
      rw [Moment.count, Moment.ofDay]
      omega
    · split
      · show t.date.count * 86400 + (((t.hour + 1) * 60 + 0) * 60 + 0) = _
        rw [Moment.count, Moment.ofDay]
        omega
      · have hnext : t.date.next.count = t.date.count + 1 := dayCount_next t.date hyear
        show t.date.next.count * 86400 + ((0 * 60 + 0) * 60 + 0) = _
        rw [hnext, Moment.count, Moment.ofDay]
        omega

/-- The day of the week is the one the date has. -/
def Date.Right (t : Date) : Prop :=
  t.weekday = (t.count + 3) % 7

theorem Date.Right.next {t : Date} (h : t.Right) (hyear : 1 ≤ t.year) : t.next.Right := by
  have hcount : t.next.count = t.count + 1 := dayCount_next t hyear
  rw [Date.Right] at h ⊢
  rw [Date.next_weekday, hcount, h]
  omega

theorem Moment.right_next {t : Moment} (h : t.date.Right) (hyear : 1 ≤ t.date.year) :
    t.next.date.Right := by
  rw [Moment.next]
  split
  · exact h
  · split
    · exact h
    · split
      · exact h
      · exact h.next hyear

/-- Midnight of the first of January 1980, a Tuesday. -/
def epoch : Moment where
  date :=
    { year := 1980, month := 1, day := 1, weekday := 2
      month_pos := by decide, month_le := by decide
      day_pos := by decide, day_le := by decide, weekday_lt := by decide }
  hour := 0
  min := 0
  sec := 0
  hour_lt := by decide
  min_lt := by decide
  sec_lt := by decide

/-- What a clock shows `n` seconds later. -/
def after (n : Nat) : Moment :=
  Moment.next^[n] epoch

theorem after_succ (n : Nat) : after (n + 1) = (after n).next :=
  Function.iterate_succ_apply' Moment.next n epoch

/-- A clock that shows the epoch shows the right day of the week ever
    after, and its count goes on with the seconds. -/
theorem after_spec (n : Nat) :
    1980 ≤ (after n).date.year ∧ (after n).date.Right ∧ (after n).count = epoch.count + n := by
  induction n with
  | zero => exact ⟨Nat.le_refl _, rfl, rfl⟩
  | succ n ih =>
      obtain ⟨hyear, hright, hcount⟩ := ih
      have hone : 1 ≤ (after n).date.year := Nat.le_trans (by decide) hyear
      rw [after_succ]
      refine ⟨Nat.le_trans hyear (Moment.year_le_next _), Moment.right_next hright hone, ?_⟩
      rw [Moment.count_next _ hone, hcount]
      rfl

/-! ## Every moment is some seconds after the epoch -/

theorem yearStart_mono : Monotone yearStart := by
  refine monotone_nat_of_le_succ fun y => ?_
  rw [yearStart_succ]
  exact Nat.le_add_right _ _

/-- The count of a day in 1980 or later is no less than the epoch's. -/
theorem Date.epoch_le (t : Date) (hyear : 1980 ≤ t.year) : epoch.date.count ≤ t.count := by
  have hepoch : epoch.date.count = yearStart 1979 + 306 := rfl
  have hpos := t.day_pos
  have hmpos := t.month_pos
  rw [hepoch, Date.count, dayCount]
  by_cases h : t.month ≤ 2
  · have hstart := yearStart_mono (show 1979 ≤ marchYear t.year t.month by
      rw [marchYear, if_pos h]
      omega)
    have hdays : 306 ≤ dayOfYear t.month t.day := by
      rw [dayOfYear, daysBefore, marchMonth, if_neg (by omega)]
      omega
    exact Nat.add_le_add hstart hdays
  · have hstart := yearStart_mono (show 1980 ≤ marchYear t.year t.month by
      rw [marchYear, if_neg h]
      exact hyear)
    have hnext : yearStart 1980 = yearStart 1979 + 366 := rfl
    calc yearStart 1979 + 306 ≤ yearStart 1979 + 366 := Nat.add_le_add_left (by decide) _
      _ ≤ yearStart (marchYear t.year t.month) := hnext ▸ hstart
      _ ≤ _ := Nat.le_add_right _ _

/-- A moment with the right day of the week is told by its count. -/
theorem Moment.eq_of_count {t u : Moment} (ht : 1 ≤ t.date.year) (hu : 1 ≤ u.date.year)
    (hrt : t.date.Right) (hru : u.date.Right) (h : t.count = u.count) : t = u := by
  have htd := t.ofDay_lt
  have hud := u.ofDay_lt
  rw [Moment.count, Moment.count] at h
  have hdate : t.date.count = u.date.count := by omega
  have hday : t.ofDay = u.ofDay := by omega
  have hcivil : (t.date.year, t.date.month, t.date.day) = (u.date.year, u.date.month, u.date.day) := by
    rw [← civil_dayCount t.date ht, ← civil_dayCount u.date hu]
    exact congrArg civil hdate
  rw [Date.Right, hdate, ← hru] at hrt
  obtain ⟨⟨y, m, d, w, _, _, _, _, _⟩, h1, m1, s1, hh1, hm1, hs1⟩ := t
  obtain ⟨⟨y', m', d', w', _, _, _, _, _⟩, h2, m2, s2, hh2, hm2, hs2⟩ := u
  simp only [Prod.mk.injEq] at hcivil
  obtain ⟨rfl, rfl, rfl⟩ := hcivil
  subst hrt
  simp only [Moment.ofDay] at hday
  obtain rfl : h1 = h2 := by omega
  obtain rfl : m1 = m2 := by omega
  obtain rfl : s1 = s2 := by omega
  rfl

theorem exists_after (t : Moment) (hyear : 1980 ≤ t.date.year) (hright : t.date.Right) :
    ∃ n, t = after n := by
  have hle : epoch.count ≤ t.count := by
    have hday := t.date.epoch_le hyear
    exact Nat.add_le_add (Nat.mul_le_mul_right 86400 hday) (Nat.zero_le _)
  obtain ⟨hy, hr, hc⟩ := after_spec (t.count - epoch.count)
  refine ⟨t.count - epoch.count, Moment.eq_of_count (by omega) (by omega) hright hr ?_⟩
  omega

theorem iterate_after (n d : Nat) : Moment.next^[d] (after n) = after (n + d) := by
  rw [after, after, Nat.add_comm, Function.iterate_add_apply]

end Calendar
