import Ultimate1541.CalendarProofs
import Ultimate1541.CbmdosCommandProofs

/-! # The clock of the software drive and the calendar

    The drive counts seconds and derives the date from the count.  What
    it counts for a date is the calendar's count (`clockSeconds_eq`),
    and what it derives from a count is what the calendar's clock shows,
    the day of the week included (`clockFromSeconds_eq`). -/

namespace Cbmdos

open Calendar

/-- The clock time of a moment, with a day of the week. -/
def face (wd : Int) (t : Moment) : ClockTime :=
  ⟨wd, t.date.year, t.date.month, t.date.day, t.hour, t.min, t.sec⟩

/-- `clock_seconds` of the fields of a time. -/
theorem clockSeconds_mk (wd y m d h mi s : Int) :
    clockSeconds ⟨wd, y, m, d, h, mi, s⟩ =
      let year := y - if m ≤ 2 then 1 else 0
      let era := year.tdiv 400
      let yoe := year - era * 400
      let doy := (153 * (m + if m > 2 then -3 else 9) + 2).tdiv 5 + d - 1
      let doe := yoe * 365 + yoe.tdiv 4 - yoe.tdiv 100 + doy
      (era * 146097 + doe) * 86400 + (h * 60 + mi) * 60 + s := rfl

theorem marchYear_natCast {y m : Nat} (hy : 1 ≤ y) :
    (y : Int) - (if (m : Int) ≤ 2 then 1 else 0) = (marchYear y m : Nat) := by
  rw [marchYear]
  by_cases h : m ≤ 2
  · rw [if_pos h, if_pos (by omega)]
    omega
  · rw [if_neg h, if_neg (by omega)]
    omega

theorem marchMonth_natCast {m : Nat} :
    (m : Int) + (if (m : Int) > 2 then -3 else 9) = (marchMonth m : Nat) := by
  rw [marchMonth]
  by_cases h : 2 < m
  · rw [if_pos h, if_pos (by omega)]
    omega
  · rw [if_neg h, if_neg (by omega)]
    omega

/-- The seconds the drive counts are those of the calendar. -/
theorem clockSeconds_eq (wd : Int) (t : Moment) (hyear : 1 ≤ t.date.year) :
    clockSeconds (face wd t) = (t.count : Int) := by
  have hday := t.date.day_pos
  have hdoy : ((153 * (marchMonth t.date.month : Int) + 2).tdiv 5 + (t.date.day : Int) - 1)
      = (dayOfYear t.date.month t.date.day : Nat) := by
    have hdiv : (153 * (marchMonth t.date.month : Int) + 2).tdiv 5
        = ((153 * marchMonth t.date.month + 2) / 5 : Nat) := rfl
    rw [hdiv, dayOfYear, daysBefore]
    omega
  have hparts := dayCount_parts t.date
  simp only [face, clockSeconds_mk, marchYear_natCast hyear, marchMonth_natCast, hdoy]
  rw [Moment.count, Date.count, hparts, Moment.ofDay]
  generalize marchYear t.date.year t.date.month = y
  generalize dayOfYear t.date.month t.date.day = doy
  have hera : (y : Int).tdiv 400 = (y / 400 : Nat) := rfl
  have hrem : (y : Int) - (y / 400 : Nat) * 400 = (y % 400 : Nat) := by omega
  have h4 : ((y % 400 : Nat) : Int).tdiv 4 = (y % 400 / 4 : Nat) := rfl
  have h100 : ((y % 400 : Nat) : Int).tdiv 100 = (y % 400 / 100 : Nat) := rfl
  rw [hera, hrem, h4, h100]
  omega

/-- The day of the week the drive derives, with the year counted from
    its March. -/
theorem clockDayOfWeek_march (y m d : Nat) (hy : 1 ≤ y) :
    clockDayOfWeek y m d =
      (((23 * m / 9 + d + (if m < 3 then 1 else 0) + marchYear y m + 4 : Nat) : Int)
        - (if m < 3 then 0 else 2) + (marchYear y m / 4 : Nat) - (marchYear y m / 100 : Nat)
        + (marchYear y m / 400 : Nat)).tmod 7 := by
  have hyear : (if (m : Int) < 3 then (y : Int) - 1 else y) = (marchYear y m : Nat) := by
    rw [marchYear]
    split <;> split <;> omega
  have hday : (d : Int) + (if (m : Int) < 3 then (y : Int) else y - 2)
      = (d + (if m < 3 then 1 else 0) + marchYear y m : Nat) - (if m < 3 then 0 else 2) := by
    rw [marchYear]
    split <;> split <;> split <;> omega
  have h9 : (23 * (m : Int)).tdiv 9 = (23 * m / 9 : Nat) := rfl
  have h4 : ((marchYear y m : Nat) : Int).tdiv 4 = (marchYear y m / 4 : Nat) := rfl
  have h100 : ((marchYear y m : Nat) : Int).tdiv 100 = (marchYear y m / 100 : Nat) := rfl
  have h400 : ((marchYear y m : Nat) : Int).tdiv 400 = (marchYear y m / 400 : Nat) := rfl
  rw [clockDayOfWeek]
  simp only [hyear, hday, h9, h4, h100, h400]
  congr 1
  omega

/-- The day of the week the drive derives is the one the calendar's
    count has. -/
theorem clockDayOfWeek_eq (t : Date) (hyear : 1 ≤ t.year) :
    clockDayOfWeek t.year t.month t.day = ((t.count + 3) % 7 : Nat) := by
  have hday := t.day_pos
  rw [clockDayOfWeek_march _ _ _ hyear, Date.count, dayCount, dayOfYear, yearStart]
  generalize marchYear t.year t.month = y
  -- a year has a day more than whole weeks, and the months agree one by one
  rcases month_cases t.month_pos t.month_le with h | h | h | h | h | h | h | h | h | h | h | h
  all_goals simp only [h, marchMonth, daysBefore, Nat.reduceLT, reduceIte, Nat.reduceSub,
    Nat.reduceAdd, Nat.reduceMul, Nat.reduceDiv]
  all_goals rw [Int.tmod_eq_emod_of_nonneg (by omega)]
  all_goals omega

/-- What the drive derives from a count, where its year of the era is
    no later than the day of the era. -/
theorem clockFromSeconds_natCast (n doy : Nat)
    (hdoe : n / 86400 % 146097 = 365 * yearOfEra (n / 86400 % 146097)
      + yearOfEra (n / 86400 % 146097) / 4 - yearOfEra (n / 86400 % 146097) / 100 + doy) :
    clockFromSeconds (n : Int) =
      ⟨clockDayOfWeek (civil (n / 86400)).1 (civil (n / 86400)).2.1 (civil (n / 86400)).2.2,
        (civil (n / 86400)).1, (civil (n / 86400)).2.1, (civil (n / 86400)).2.2,
        (n % 86400 / 3600 : Nat), (n % 86400 / 60 % 60 : Nat), (n % 86400 % 60 : Nat)⟩ := by
  have hdays : (n : Int).tdiv 86400 = (n / 86400 : Nat) := rfl
  have hrest : (n : Int) - (n / 86400 : Nat) * 86400 = (n % 86400 : Nat) := by omega
  have hhour : ((n % 86400 : Nat) : Int).tdiv 3600 = (n % 86400 / 3600 : Nat) := rfl
  have hmin : (((n % 86400 : Nat) : Int).tdiv 60).tmod 60 = (n % 86400 / 60 % 60 : Nat) := rfl
  have hsec : ((n % 86400 : Nat) : Int).tmod 60 = (n % 86400 % 60 : Nat) := rfl
  simp only [clockFromSeconds, hdays, hrest, hhour, hmin, hsec]
  generalize n / 86400 = days at hdoe
  have hera : (days : Int).tdiv 146097 = (days / 146097 : Nat) := rfl
  have hrem : (days : Int) - (days / 146097 : Nat) * 146097 = (days % 146097 : Nat) := by omega
  simp only [hera, hrem, civil]
  generalize days / 146097 = era
  generalize days % 146097 = doe at hdoe
  have hyoe : ((doe : Int) - (doe : Int).tdiv 1460 + (doe : Int).tdiv 36524
      - (doe : Int).tdiv 146096).tdiv 365 = (yearOfEra doe : Nat) := by
    have hnum : (doe : Int) - (doe : Int).tdiv 1460 + (doe : Int).tdiv 36524
        - (doe : Int).tdiv 146096 = (doe - doe / 1460 + doe / 36524 - doe / 146096 : Nat) := by
      rw [Int.tdiv_eq_ediv_of_nonneg (by omega), Int.tdiv_eq_ediv_of_nonneg (by omega),
        Int.tdiv_eq_ediv_of_nonneg (by omega)]
      omega
    rw [hnum]
    rfl
  simp only [hyoe]
  generalize yearOfEra doe = k at hdoe
  have hdoy : (doe : Int) - (365 * (k : Nat) + (k : Int).tdiv 4 - (k : Int).tdiv 100)
      = (doe - (365 * k + k / 4 - k / 100) : Nat) := by
    have h4 : (k : Int).tdiv 4 = (k / 4 : Nat) := rfl
    have h100 : (k : Int).tdiv 100 = (k / 100 : Nat) := rfl
    rw [h4, h100]
    omega
  rw [hdoy]
  generalize doe - (365 * k + k / 4 - k / 100) = doy
  have hmp : (5 * (doy : Int) + 2).tdiv 153 = ((5 * doy + 2) / 153 : Nat) := rfl
  have hday : (doy : Int) - (153 * (((5 * doy + 2) / 153 : Nat) : Int) + 2).tdiv 5 + 1
      = (doy - daysBefore ((5 * doy + 2) / 153) + 1 : Nat) := by
    have h5 : (153 * (((5 * doy + 2) / 153 : Nat) : Int) + 2).tdiv 5
        = ((153 * ((5 * doy + 2) / 153) + 2) / 5 : Nat) := rfl
    rw [h5, daysBefore]
    omega
  simp only [hmp, hday]
  generalize (5 * doy + 2) / 153 = mp
  have hmonth : (if (mp : Int) < 10 then (mp : Int) + 3 else mp - 9)
      = ((if mp < 10 then mp + 3 else mp - 9 : Nat) : Int) := by
    split <;> split <;> omega
  simp only [hmonth]
  generalize (if mp < 10 then mp + 3 else mp - 9) = m
  have hyear : (k : Int) + (era : Nat) * 400 + (if (m : Int) ≤ 2 then 1 else 0)
      = (era * 400 + k + if m ≤ 2 then 1 else 0 : Nat) := by
    split <;> split <;> omega
  simp only [hyear]

/-- What the drive derives from a moment's count is that moment. -/
theorem clockFromSeconds_eq (t : Moment) (hyear : 1 ≤ t.date.year) (hright : t.date.Right) :
    clockFromSeconds (t.count : Int) = face t.date.weekday t := by
  have hday := t.ofDay_lt
  have hh := t.hour_lt
  have hm := t.min_lt
  have hs := t.sec_lt
  have hdays : t.count / 86400 = t.date.count := by
    rw [Moment.count]
    omega
  have hrest : t.count % 86400 = t.ofDay := by
    rw [Moment.count]
    omega
  have hcivil : civil t.date.count = (t.date.year, t.date.month, t.date.day) :=
    civil_dayCount t.date hyear
  have hparts : t.count / 86400 % 146097 = 365 * yearOfEra (t.count / 86400 % 146097)
      + yearOfEra (t.count / 86400 % 146097) / 4 - yearOfEra (t.count / 86400 % 146097) / 100
      + dayOfYear t.date.month t.date.day := by
    obtain ⟨_, hrem, hera⟩ := dayCount_era t.date hyear
    rw [hdays, Date.count, hera]
    exact hrem
  rw [clockFromSeconds_natCast _ _ hparts, hdays, hrest, hcivil]
  have hwd : (t.date.count + 3) % 7 = t.date.weekday := hright.symm
  simp only [clockDayOfWeek_eq t.date hyear, hwd, face, Moment.ofDay]
  have hhour : ((t.hour * 60 + t.min) * 60 + t.sec) / 3600 = t.hour := by omega
  have hmin : ((t.hour * 60 + t.min) * 60 + t.sec) / 60 % 60 = t.min := by omega
  have hsec : ((t.hour * 60 + t.min) * 60 + t.sec) % 60 = t.sec := by omega
  rw [hhour, hmin, hsec]

end Cbmdos
