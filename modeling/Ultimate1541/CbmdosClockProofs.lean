import Ultimate1541.CbmdosCalendarProofs
import Ultimate1541.CbmdosReadProofs

/-! # Writing and reading the clock of the software drive

    `T-W` sets how far the drive's clock is from the system's, in one of
    four forms; `T-R` answers the drive's clock in one of four.  A
    written time is told here by the moment it stands for
    (`WriteForm.text`), and so is an answer (`ReadForm.answer`).

    Every form of a moment between 1980 and 2079 is taken as that
    moment (`parseClockWrite_text`), and the answer is that of the
    moment the clock has come to (`clock_runs_on`). -/

namespace Cbmdos

open Calendar BoundedRead BoundedRead.Read

/-! ## The forms -/

/-- Two decimal digits. -/
def two (n : Nat) : List UInt8 :=
  [UInt8.ofNat (48 + n / 10), UInt8.ofNat (48 + n % 10)]

/-- Two decimal digits in one byte. -/
def packed (n : Nat) : UInt8 :=
  UInt8.ofNat (n / 10 * 16 + n % 10)

/-- The hour on a clock with twelve. -/
def onTwelve (h : Nat) : Nat :=
  if h % 12 = 0 then 12 else h % 12

/-- The flag of the second half of the day. -/
def half (h : Nat) : UInt8 :=
  if 12 ≤ h then 1 else 0

/-- The time of day with two separators. -/
def timeText (h : Nat) (t : Moment) : List UInt8 :=
  two h ++ [ch ':'] ++ two t.min ++ [ch ':'] ++ two t.sec

/-- The date of the ASCII forms. -/
def dateText (t : Moment) : List UInt8 :=
  two t.date.month ++ [ch '/'] ++ two t.date.day ++ [ch '/'] ++ two (t.date.year % 100)

/-- AM or PM. -/
def marker (h : Nat) : List UInt8 :=
  [ch ' ', if 12 ≤ h then ch 'P' else ch 'A', ch 'M']

/-- The date and the time of the ISO forms. -/
def isoText (t : Moment) : List UInt8 :=
  two (t.date.year / 100) ++ two (t.date.year % 100) ++ [ch '-'] ++ two t.date.month ++ [ch '-']
    ++ two t.date.day ++ [ch 'T'] ++ timeText t.hour t

/-- The forms an answer may have. -/
inductive ReadForm
  | ascii | decimal | bcd | iso
deriving DecidableEq

/-- The letter of a form. -/
def ReadForm.letter : ReadForm → UInt8
  | .ascii => ch 'A'
  | .decimal => ch 'D'
  | .bcd => ch 'B'
  | .iso => ch 'I'

/-- The command that asks for a form. -/
def ReadForm.text (form : ReadForm) : List UInt8 :=
  [ch 'T', ch '-', ch 'R', form.letter]

/-- The text or the bytes of a moment. -/
def ReadForm.answer : ReadForm → Moment → List UInt8
  | .ascii, t =>
      weekday4.getD t.date.weekday [] ++ [ch ' '] ++ dateText t ++ [ch ' ']
        ++ timeText (onTwelve t.hour) t ++ marker t.hour ++ [0x0D]
  | .decimal, t =>
      [UInt8.ofNat t.date.weekday, UInt8.ofNat (t.date.year - 1900), UInt8.ofNat t.date.month,
        UInt8.ofNat t.date.day, UInt8.ofNat (onTwelve t.hour), UInt8.ofNat t.min,
        UInt8.ofNat t.sec, half t.hour, 0x0D]
  | .bcd, t =>
      [UInt8.ofNat t.date.weekday, packed (t.date.year % 100), packed t.date.month,
        packed t.date.day, packed (onTwelve t.hour), packed t.min, packed t.sec, half t.hour, 0x0D]
  | .iso, t => isoText t ++ [ch ' '] ++ weekday3.getD t.date.weekday [] ++ [0x0D]

/-- The forms a whole time may be written in.  The day of the week that
    some of them carry is not kept, and the year of the decimal form may
    be counted from 1900 or have two digits. -/
inductive WriteForm
  | ascii24 (dow : Fin 7)
  | ascii12 (dow : Fin 7)
  | bcd (dow : Fin 7)
  | decimal (dow : Fin 7) (whole : Bool)
  | iso
  | isoDay (dow : Fin 7)

/-- The command that writes a moment. -/
def WriteForm.text : WriteForm → Moment → List UInt8
  | .ascii24 dow, t =>
      str "T-WA" ++ weekday4.getD dow [] ++ [ch ' '] ++ dateText t ++ [ch ' '] ++ timeText t.hour t
  | .ascii12 dow, t =>
      str "T-WA" ++ weekday4.getD dow [] ++ [ch ' '] ++ dateText t ++ [ch ' ']
        ++ timeText (onTwelve t.hour) t ++ marker t.hour
  | .bcd dow, t =>
      str "T-WB" ++ [UInt8.ofNat dow, packed (t.date.year % 100), packed t.date.month,
        packed t.date.day, packed (onTwelve t.hour), packed t.min, packed t.sec, half t.hour]
  | .decimal dow whole, t =>
      str "T-WD" ++ [UInt8.ofNat dow,
        UInt8.ofNat (if whole then t.date.year - 1900 else t.date.year % 100),
        UInt8.ofNat t.date.month, UInt8.ofNat t.date.day, UInt8.ofNat (onTwelve t.hour),
        UInt8.ofNat t.min, UInt8.ofNat t.sec, half t.hour]
  | .iso, t => str "T-WI" ++ isoText t
  | .isoDay dow, t => str "T-WI" ++ isoText t ++ [ch ' '] ++ weekday3.getD dow []

/-! ## Numbers -/

theorem padded_two {n : Nat} (h : n < 100) : padded 2 n = two n := by
  have hall : ∀ n : Nat, n < 100 → padded 2 n = two n := by decide +kernel
  exact hall n h

theorem digitsReversed_four {n : Nat} (h1000 : 1000 ≤ n) (h : n < 10000) (fuel : Nat) :
    digitsReversed (fuel + 4) n = (two (n / 100) ++ two (n % 100)).reverse := by
  simp only [digitsReversed]
  rw [if_neg (by omega), if_neg (by omega), if_neg (by omega), if_pos (by omega)]
  have h0 : n % 100 % 10 = n % 10 := by omega
  have h1 : n % 100 / 10 = n / 10 % 10 := by omega
  have h2 : n / 100 % 10 = n / 10 / 10 % 10 := by omega
  have h3 : n / 100 / 10 = n / 10 / 10 / 10 % 10 := by omega
  rw [two, two, h0, h1, h2, h3]
  rfl

theorem padded_four {n : Nat} (h1000 : 1000 ≤ n) (h : n < 10000) :
    padded 4 n = two (n / 100) ++ two (n % 100) := by
  obtain ⟨fuel, hfuel⟩ : ∃ fuel, n + 1 = fuel + 4 := ⟨n - 3, by omega⟩
  have hpos : ¬(n : Int) < 0 := by omega
  rw [padded, Int.natAbs_natCast, hfuel, digitsReversed_four h1000 h, if_neg hpos]
  rfl

theorem bcdbyte_packed {n : Nat} (h : n < 100) : bcdbyte n = packed n := by
  have hall : ∀ n : Nat, n < 100 → bcdbyte n = packed n := by decide +kernel
  exact hall n h

theorem clockBcd_packed {n : Nat} (h : n < 100) : clockBcd (packed n) = some (n : Int) := by
  have hall : ∀ n : Nat, n < 100 → clockBcd (packed n) = some (n : Int) := by decide +kernel
  exact hall n h

theorem byteOf_natCast (n : Nat) : byteOf (n : Int) = UInt8.ofNat n := by
  rw [byteOf]
  have h : ((n : Int) % 256).toNat = n % 256 := by omega
  rw [h]
  exact UInt8.toNat_inj.mp (by simp)

theorem onTwelve_lt (h : Nat) : onTwelve h < 13 := by
  rw [onTwelve]
  split <;> omega

theorem hour12_natCast (h : Nat) : hour12 (h : Int) = (onTwelve h : Nat) := by
  have hmod : (h : Int).tmod 12 = (h % 12 : Nat) := rfl
  rw [hour12, hmod, onTwelve]
  split <;> split <;> omega

/-- The two digits of a number. -/
theorem digits_two {n : Nat} (h : n < 100) :
    isDigit (UInt8.ofNat (48 + n / 10)) = true ∧ isDigit (UInt8.ofNat (48 + n % 10)) = true
      ∧ digitValue (UInt8.ofNat (48 + n / 10)) = n / 10
      ∧ digitValue (UInt8.ofNat (48 + n % 10)) = n % 10 := by
  have hall : ∀ n : Nat, n < 100 → isDigit (UInt8.ofNat (48 + n / 10)) = true
      ∧ isDigit (UInt8.ofNat (48 + n % 10)) = true
      ∧ digitValue (UInt8.ofNat (48 + n / 10)) = n / 10
      ∧ digitValue (UInt8.ofNat (48 + n % 10)) = n % 10 := by decide +kernel
  exact hall n h

/-! ## Answers -/

/-- What a clock that shows a moment answers. -/
theorem clockAnswer_face (form : ReadForm) (t : Moment) (h1000 : 1980 ≤ t.date.year)
    (hyear : t.date.year < 10000) :
    clockAnswer form.letter (face t.date.weekday t) = some (form.answer t) := by
  have hmonth := t.date.month_le
  have hday := Nat.le_trans t.date.day_le (monthLength_le _ _)
  have hhour := t.hour_lt
  have hmin := t.min_lt
  have hsec := t.sec_lt
  have htwelve := onTwelve_lt t.hour
  have hshort : (t.date.year : Int).tmod 100 = (t.date.year % 100 : Nat) := rfl
  have hpm : ((t.hour : Int) ≥ 12) ↔ 12 ≤ t.hour := by omega
  cases form with
  | ascii =>
      have htext : clockAnswer (ch 'A') (face t.date.weekday t) = some (weekday4.getD t.date.weekday []
          ++ [ch ' '] ++ padded 2 t.date.month ++ [ch '/'] ++ padded 2 t.date.day ++ [ch '/']
          ++ padded 2 (t.date.year % 100 : Nat) ++ [ch ' '] ++ padded 2 (hour12 t.hour) ++ [ch ':']
          ++ padded 2 t.min ++ [ch ':'] ++ padded 2 t.sec ++ [ch ' ']
          ++ (if (t.hour : Int) ≥ 12 then str "PM" else str "AM") ++ [0x0D]) := rfl
      show clockAnswer (ch 'A') _ = _
      rw [htext, hour12_natCast, padded_two (by omega), padded_two (by omega), padded_two (by omega),
        padded_two (by omega), padded_two (by omega), padded_two (by omega)]
      simp only [ReadForm.answer, dateText, timeText, marker, hpm, List.append_assoc]
      by_cases h : 12 ≤ t.hour
      · simp only [if_pos h]
        rfl
      · simp only [if_neg h]
        rfl
  | decimal =>
      have hcentury : (t.date.year : Int) - 1900 = (t.date.year - 1900 : Nat) := by omega
      have htext : clockAnswer (ch 'D') (face t.date.weekday t)
          = some (clockBytes byteOf (byteOf (t.date.year - 1900)) (face t.date.weekday t)) := rfl
      show clockAnswer (ch 'D') _ = _
      rw [htext, hcentury, byteOf_natCast]
      simp only [clockBytes, face, hour12_natCast, byteOf_natCast, hpm]
      rfl
  | bcd =>
      have htext : clockAnswer (ch 'B') (face t.date.weekday t)
          = some (clockBytes bcdbyte (bcdbyte (t.date.year % 100 : Nat)) (face t.date.weekday t)) := rfl
      show clockAnswer (ch 'B') _ = _
      rw [htext, bcdbyte_packed (by omega)]
      simp only [clockBytes, face, hour12_natCast, byteOf_natCast, hpm]
      rw [bcdbyte_packed (by omega), bcdbyte_packed (by omega), bcdbyte_packed (by omega),
        bcdbyte_packed (by omega), bcdbyte_packed (by omega)]
      rfl
  | iso =>
      have htext : clockAnswer (ch 'I') (face t.date.weekday t) = some (padded 4 t.date.year
          ++ [ch '-'] ++ padded 2 t.date.month ++ [ch '-'] ++ padded 2 t.date.day ++ [ch 'T']
          ++ padded 2 t.hour ++ [ch ':'] ++ padded 2 t.min ++ [ch ':'] ++ padded 2 t.sec ++ [ch ' ']
          ++ weekday3.getD t.date.weekday [] ++ [0x0D]) := rfl
      show clockAnswer (ch 'I') _ = _
      rw [htext, padded_four (by omega) hyear, padded_two (by omega), padded_two (by omega),
        padded_two (by omega), padded_two (by omega), padded_two (by omega)]
      simp only [ReadForm.answer, isoText, timeText, List.append_assoc]

/-! ## What is written -/

theorem run_bind {α β : Type} (p : Reads α) (f : α → Reads β) (m : List UInt8) :
    (p >>= f).run m = (p.run m).bind fun a => (f a).run m := rfl

theorem run_pure {α : Type} (a : α) (m : List UInt8) : (pure a : Reads α).run m = some a := rfl

theorem run_byte (i : Nat) (m : List UInt8) : (byte i : Reads UInt8).run m = m[i]? := rfl

theorem run_firstBytes {n : Nat} {m : List UInt8} (h : n ≤ m.length) :
    (firstBytes n : Reads (List UInt8)).run m = some (m.take n) := if_pos h

/-- A digit counts for what was read before it. -/
theorem clockField_step {m : List UInt8} {off : Nat} {c : UInt8} (hbyte : m[off]? = some c)
    (hdigit : isDigit c = true) (k : Nat) (value : Int) :
    (clockField off (k + 1) value).run m
      = (clockField (off + 1) k (value * 10 + digitValue c)).run m := by
  rw [clockField, run_bind, run_byte, hbyte, Option.bind_some, if_pos hdigit]

/-- Two digits within a field. -/
theorem clockField_two {m : List UInt8} {off n : Nat} (h : n < 100)
    (h0 : m[off]? = some (UInt8.ofNat (48 + n / 10)))
    (h1 : m[off + 1]? = some (UInt8.ofNat (48 + n % 10))) (k : Nat) (value : Int) :
    (clockField off (k + 2) value).run m = (clockField (off + 2) k (value * 100 + n)).run m := by
  obtain ⟨hd0, hd1, hv0, hv1⟩ := digits_two h
  rw [clockField_step h0 hd0, clockField_step h1 hd1, hv0, hv1]
  have hvalue : (value * 10 + (n / 10 : Nat)) * 10 + (n % 10 : Nat) = value * 100 + n := by omega
  rw [hvalue]

/-- A field of two digits. -/
theorem clockField_whole {m : List UInt8} {off n : Nat} (h : n < 100)
    (h0 : m[off]? = some (UInt8.ofNat (48 + n / 10)))
    (h1 : m[off + 1]? = some (UInt8.ofNat (48 + n % 10))) :
    (clockField off 2 0).run m = some (some (n : Int)) := by
  rw [clockField_two h h0 h1, Int.zero_mul, Int.zero_add]
  rfl

/-- The fields of the A form, wherever its separators are right. -/
theorem clockFieldsA_run {mo d y h mi s : Nat} (hmo : mo < 100) (hd : d < 100) (hy : y < 100)
    (hh : h < 100) (hmi : mi < 100) (hs : s < 100) (b0 b1 b2 b3 b4 b5 b6 b7 b8 : UInt8)
    (x1 x2 x3 x4 x5 : UInt8) (tail : List UInt8) :
    clockFieldsA.run ([b0, b1, b2, b3, b4, b5, b6, b7, b8] ++ (two mo ++ [x1] ++ two d ++ [x2]
        ++ two y) ++ [x3] ++ (two h ++ [x4] ++ two mi ++ [x5] ++ two s) ++ tail)
      = some (some ⟨0, clockYearOf y, mo, d, h, mi, s⟩) := by
  rw [clockFieldsA, run_bind, clockField_whole hmo rfl rfl, Option.bind_some,
    run_bind, clockField_whole hd rfl rfl, Option.bind_some,
    run_bind, clockField_whole hy rfl rfl, Option.bind_some,
    run_bind, clockField_whole hh rfl rfl, Option.bind_some,
    run_bind, clockField_whole hmi rfl rfl, Option.bind_some,
    run_bind, clockField_whole hs rfl rfl, Option.bind_some]
  rfl

/-- The name of a day of the week, and that a write is matched to it. -/
theorem weekday4_spec (dow : Fin 7) : ∃ n0 n1 n2 n3, weekday4.getD dow [] = [n0, n1, n2, n3]
    ∧ weekday4.findIdx? (fun name => [n0, n1] == name.take 2) = some (dow : Nat) := by
  match dow with
  | 0 => exact ⟨_, _, _, _, rfl, rfl⟩
  | 1 => exact ⟨_, _, _, _, rfl, rfl⟩
  | 2 => exact ⟨_, _, _, _, rfl, rfl⟩
  | 3 => exact ⟨_, _, _, _, rfl, rfl⟩
  | 4 => exact ⟨_, _, _, _, rfl, rfl⟩
  | 5 => exact ⟨_, _, _, _, rfl, rfl⟩
  | 6 => exact ⟨_, _, _, _, rfl, rfl⟩

/-- The year of a time from its last two digits. -/
theorem clockYearOf_short {y : Nat} (hlo : 1980 ≤ y) (hhi : y ≤ 2079) :
    clockYearOf ((y % 100 : Nat) : Int) = y := by
  rw [clockYearOf]
  split <;> omega

/-- The year of a time from the years since 1900. -/
theorem clockYearOf_whole {y : Nat} (hlo : 1980 ≤ y) (hhi : y ≤ 2079) :
    clockYearOf ((y - 1900 : Nat) : Int) = y := by
  rw [clockYearOf]
  split <;> omega

/-- The A form, once its day, its separators and its fields are read. -/
theorem parseClockA_run {len wd : Nat} {m p : List UInt8} {t : ClockTime}
    (hfields : clockFieldsA.run m = some (some t)) (hlen : len = 26 ∨ len = 29)
    (hm : len ≤ m.length) (hp : (m.take len).drop 4 = p)
    (hfind : weekday4.findIdx? (fun name => p.take 2 == name.take 2) = some wd)
    (hsep : separatedA p = true) :
    (parseClockA len).run m = some
      (if len = 29 then
        if p.getD 22 0 = ch ' ' ∧ p.getD 24 0 = ch 'M' ∧
            (p.getD 23 0 = ch 'A' ∨ p.getD 23 0 = ch 'P') then
          some { t with
            wd := wd
            hour := (if t.hour = 12 then 0 else t.hour) + if p.getD 23 0 = ch 'P' then 12 else 0 }
        else none
      else some { t with wd := wd }) := by
  have hboth : ¬(len ≠ 26 ∧ len ≠ 29) := by omega
  have hseparated : ¬separatedA p = false := by
    rw [hsep]
    exact nofun
  rw [parseClockA, if_neg hboth, run_bind, run_firstBytes hm, Option.bind_some]
  simp only [hp, hfind, if_neg hseparated]
  rw [run_bind, hfields]
  rfl

/-- The marker of the A form, and the hour it makes. -/
theorem marked_hour {p : List UInt8} {h : Nat} (h22 : p.getD 22 0 = ch ' ')
    (h23 : p.getD 23 0 = if 12 ≤ h then ch 'P' else ch 'A') (h24 : p.getD 24 0 = ch 'M')
    (hour : Int) (f : Int → ClockTime) :
    (if p.getD 22 0 = ch ' ' ∧ p.getD 24 0 = ch 'M' ∧
        (p.getD 23 0 = ch 'A' ∨ p.getD 23 0 = ch 'P') then
      some (f (hour + if p.getD 23 0 = ch 'P' then 12 else 0))
    else none) = some (f (hour + if 12 ≤ h then 12 else 0)) := by
  rw [h22, h23, h24]
  by_cases hpm : 12 ≤ h
  · rw [if_pos hpm, if_pos hpm]
    rfl
  · rw [if_neg hpm, if_neg hpm]
    rfl

/-- The hour read back from the clock with twelve. -/
theorem hour_of_twelve {h : Nat} (hh : h < 24) :
    (if (onTwelve h : Int) = 12 then (0 : Int) else onTwelve h) + (if 12 ≤ h then 12 else 0) = h := by
  rw [onTwelve]
  split <;> split <;> split <;> omega

theorem parseClockA_ascii24 (dow : Fin 7) (t : Moment) (hlo : 1980 ≤ t.date.year)
    (hhi : t.date.year ≤ 2079) :
    (parseClockA 26).run (WriteForm.text (.ascii24 dow) t) = some (some (face dow t)) := by
  have hmonth := t.date.month_le
  have hday := Nat.le_trans t.date.day_le (monthLength_le _ _)
  have hhour := t.hour_lt
  have hmin := t.min_lt
  have hsec := t.sec_lt
  obtain ⟨n0, n1, n2, n3, hname, hfind⟩ := weekday4_spec dow
  have htext : WriteForm.text (.ascii24 dow) t
      = [ch 'T', ch '-', ch 'W', ch 'A', n0, n1, n2, n3, ch ' '] ++ (two t.date.month ++ [ch '/']
          ++ two t.date.day ++ [ch '/'] ++ two (t.date.year % 100)) ++ [ch ' ']
          ++ (two t.hour ++ [ch ':'] ++ two t.min ++ [ch ':'] ++ two t.sec) ++ [] := by
    rw [WriteForm.text, hname]
    rfl
  have hfields := clockFieldsA_run (show t.date.month < 100 by omega)
    (show t.date.day < 100 by omega) (show t.date.year % 100 < 100 by omega)
    (show t.hour < 100 by omega) (show t.min < 100 by omega) (show t.sec < 100 by omega)
    (ch 'T') (ch '-') (ch 'W') (ch 'A') n0 n1 n2 n3 (ch ' ') (ch '/') (ch '/') (ch ' ') (ch ':')
    (ch ':') []
  rw [htext, parseClockA_run hfields (Or.inl rfl) (by simp [two]) rfl hfind rfl,
    if_neg (by decide), clockYearOf_short hlo hhi]
  rfl

theorem parseClockA_ascii12 (dow : Fin 7) (t : Moment) (hlo : 1980 ≤ t.date.year)
    (hhi : t.date.year ≤ 2079) :
    (parseClockA 29).run (WriteForm.text (.ascii12 dow) t) = some (some (face dow t)) := by
  have hmonth := t.date.month_le
  have hday := Nat.le_trans t.date.day_le (monthLength_le _ _)
  have hhour := t.hour_lt
  have hmin := t.min_lt
  have hsec := t.sec_lt
  have htwelve := onTwelve_lt t.hour
  obtain ⟨n0, n1, n2, n3, hname, hfind⟩ := weekday4_spec dow
  have htext : WriteForm.text (.ascii12 dow) t
      = [ch 'T', ch '-', ch 'W', ch 'A', n0, n1, n2, n3, ch ' '] ++ (two t.date.month ++ [ch '/']
          ++ two t.date.day ++ [ch '/'] ++ two (t.date.year % 100)) ++ [ch ' ']
          ++ (two (onTwelve t.hour) ++ [ch ':'] ++ two t.min ++ [ch ':'] ++ two t.sec)
          ++ marker t.hour := by
    rw [WriteForm.text, hname]
    rfl
  have hfields := clockFieldsA_run (show t.date.month < 100 by omega)
    (show t.date.day < 100 by omega) (show t.date.year % 100 < 100 by omega)
    (show onTwelve t.hour < 100 by omega) (show t.min < 100 by omega) (show t.sec < 100 by omega)
    (ch 'T') (ch '-') (ch 'W') (ch 'A') n0 n1 n2 n3 (ch ' ') (ch '/') (ch '/') (ch ' ') (ch ':')
    (ch ':') (marker t.hour)
  rw [htext, parseClockA_run hfields (Or.inr rfl) (by simp [two, marker]) rfl hfind rfl,
    if_pos rfl, clockYearOf_short hlo hhi]
  refine congrArg some ((marked_hour (h := t.hour) rfl rfl rfl _ fun hour =>
    ⟨dow, t.date.year, t.date.month, t.date.day, hour, t.min, t.sec⟩).trans ?_)
  rw [hour_of_twelve hhour]
  rfl

/-- The B and D forms, byte by byte. -/
theorem parseClockBytes_run {field : UInt8 → Option Int} {dow t : _} {b0 b1 b2 b3 w y mo d h mi s : UInt8}
    {year : Int} (hw : field w = some (dow : Int)) (hy : field y = some year)
    (hyear : clockYearOf year = (t : Moment).date.year) (hmo : field mo = some (t.date.month : Int))
    (hd : field d = some (t.date.day : Int)) (hh : field h = some (onTwelve t.hour : Int))
    (hmi : field mi = some (t.min : Int)) (hs : field s = some (t.sec : Int)) :
    (parseClockBytes 12 field).run [b0, b1, b2, b3, w, y, mo, d, h, mi, s, half t.hour]
      = some (some (face dow t)) := by
  have hrun : (parseClockBytes 12 field).run [b0, b1, b2, b3, w, y, mo, d, h, mi, s, half t.hour]
      = some (clockOfBytes field [w, y, mo, d, h, mi, s, half t.hour]) := rfl
  have hflag : (half t.hour ≠ 0) ↔ 12 ≤ t.hour := by
    rw [half]
    split
    · rename_i h
      exact ⟨fun _ => h, fun _ => by decide⟩
    · rename_i h
      exact ⟨fun h0 => absurd rfl h0, fun h12 => absurd h12 h⟩
  have hbytes : clockOfBytes field [w, y, mo, d, h, mi, s, half t.hour]
      = some ⟨dow, t.date.year, t.date.month, t.date.day,
          (if (onTwelve t.hour : Int) = 12 then 0 else (onTwelve t.hour : Int))
            + (if half t.hour ≠ 0 then 12 else 0), t.min, t.sec⟩ := by
    simp only [clockOfBytes, List.getD_cons_zero, List.getD_cons_succ, hw, hy, hmo, hd, hh, hmi, hs,
      hyear, Option.getD_some]
  rw [hrun, hbytes]
  simp only [hflag]
  rw [hour_of_twelve t.hour_lt]
  rfl

theorem parseClockBytes_bcd (dow : Fin 7) (t : Moment) (hlo : 1980 ≤ t.date.year)
    (hhi : t.date.year ≤ 2079) :
    (parseClockBytes 12 clockBcd).run (WriteForm.text (.bcd dow) t)
      = some (some (face dow t)) := by
  have hmonth := t.date.month_le
  have hday := Nat.le_trans t.date.day_le (monthLength_le _ _)
  have hmin := t.min_lt
  have hsec := t.sec_lt
  have htwelve := onTwelve_lt t.hour
  have hdow : UInt8.ofNat dow = packed dow := by
    have hall : ∀ dow : Fin 7, UInt8.ofNat dow = packed dow := by decide
    exact hall dow
  have hw : clockBcd (UInt8.ofNat dow) = some ((dow : Nat) : Int) := by
    rw [hdow, clockBcd_packed (by omega)]
  exact parseClockBytes_run hw (clockBcd_packed (by omega)) (clockYearOf_short hlo hhi)
    (clockBcd_packed (by omega)) (clockBcd_packed (by omega)) (clockBcd_packed (by omega))
    (clockBcd_packed (by omega)) (clockBcd_packed (by omega))

theorem parseClockBytes_decimal (dow : Fin 7) (whole : Bool) (t : Moment)
    (hlo : 1980 ≤ t.date.year) (hhi : t.date.year ≤ 2079) :
    (parseClockBytes 12 fun b => some b.toNat).run (WriteForm.text (.decimal dow whole) t)
      = some (some (face dow t)) := by
  have hmonth := t.date.month_le
  have hday := Nat.le_trans t.date.day_le (monthLength_le _ _)
  have hmin := t.min_lt
  have hsec := t.sec_lt
  have htwelve := onTwelve_lt t.hour
  have hbyte : ∀ n : Nat, n < 256 → some ((UInt8.ofNat n).toNat : Int) = some (n : Int) := by
    intro n hn
    rw [UInt8.toNat_ofNat', Nat.mod_eq_of_lt hn]
  have hyear : clockYearOf ((if whole then t.date.year - 1900 else t.date.year % 100 : Nat) : Int)
      = t.date.year := by
    cases whole with
    | true => exact clockYearOf_whole hlo hhi
    | false => exact clockYearOf_short hlo hhi
  have hsmall : (if whole then t.date.year - 1900 else t.date.year % 100) < 256 := by
    split <;> omega
  exact parseClockBytes_run (hbyte _ (by omega)) (hbyte _ hsmall) hyear (hbyte _ (by omega))
    (hbyte _ (by omega)) (hbyte _ (by omega)) (hbyte _ (by omega)) (hbyte _ (by omega))

/-- The fields of the I form. -/
theorem clockFieldsI_run (t : Moment) (hlo : 1980 ≤ t.date.year) (hhi : t.date.year ≤ 2079)
    (b0 b1 b2 b3 : UInt8) (tail : List UInt8) :
    clockFieldsI.run ([b0, b1, b2, b3] ++ isoText t ++ tail)
      = some (some (face (clockDayOfWeek t.date.year t.date.month t.date.day) t)) := by
  have hmpos := t.date.month_pos
  have hmonth := t.date.month_le
  have hday := Nat.le_trans t.date.day_le (monthLength_le _ _)
  have hhour := t.hour_lt
  have hmin := t.min_lt
  have hsec := t.sec_lt
  have hyear : (clockField 4 4 0).run ([b0, b1, b2, b3] ++ isoText t ++ tail)
      = some (some (t.date.year : Int)) := by
    rw [clockField_two (n := t.date.year / 100) (by omega) rfl rfl 2 0,
      clockField_two (n := t.date.year % 100) (by omega) rfl rfl 0]
    have hvalue : ((0 : Int) * 100 + (t.date.year / 100 : Nat)) * 100 + (t.date.year % 100 : Nat)
        = t.date.year := by omega
    rw [hvalue]
    rfl
  rw [clockFieldsI, run_bind, hyear, Option.bind_some,
    run_bind, clockField_whole (show t.date.month < 100 by omega) rfl rfl, Option.bind_some,
    run_bind, clockField_whole (show t.date.day < 100 by omega) rfl rfl, Option.bind_some,
    run_bind, clockField_whole (show t.hour < 100 by omega) rfl rfl, Option.bind_some,
    run_bind, clockField_whole (show t.min < 100 by omega) rfl rfl, Option.bind_some,
    run_bind, clockField_whole (show t.sec < 100 by omega) rfl rfl, Option.bind_some]
  have hrange : ¬((t.date.year : Int) < 1980 ∨ (t.date.year : Int) > 2079
      ∨ (t.date.month : Int) < 1 ∨ (t.date.month : Int) > 12) := by omega
  rw [run_pure]
  simp only [Option.getD_some]
  rw [if_neg hrange]
  rfl

/-- The I form, once its separators and its fields are read. -/
theorem parseClockI_run {len : Nat} {m p : List UInt8} {t : Option ClockTime}
    (hfields : clockFieldsI.run m = some t) (hlen : len = 23 ∨ len = 27) (hm : len ≤ m.length)
    (hp : (m.take len).drop 4 = p) (hblank : len = 27 → p.getD 19 0 = ch ' ')
    (hsep : separatedI p = true) : (parseClockI len).run m = some t := by
  have hboth : ¬(len ≠ 23 ∧ len ≠ 27) := by omega
  have hday : ¬(len = 27 ∧ p.getD 19 0 ≠ ch ' ') := fun h => h.2 (hblank h.1)
  have hseparated : ¬separatedI p = false := by
    rw [hsep]
    exact nofun
  rw [parseClockI, if_neg hboth, run_bind, run_firstBytes hm, Option.bind_some]
  simp only [hp, if_neg hday, if_neg hseparated]
  exact hfields

theorem parseClockI_iso (t : Moment) (hlo : 1980 ≤ t.date.year) (hhi : t.date.year ≤ 2079) :
    (parseClockI 23).run (WriteForm.text .iso t)
      = some (some (face (clockDayOfWeek t.date.year t.date.month t.date.day) t)) := by
  have hfields := clockFieldsI_run t hlo hhi (ch 'T') (ch '-') (ch 'W') (ch 'I') []
  have htext : WriteForm.text .iso t = [ch 'T', ch '-', ch 'W', ch 'I'] ++ isoText t ++ [] := rfl
  rw [htext]
  exact parseClockI_run hfields (Or.inl rfl) (by simp [isoText, timeText, two]) rfl (nofun) rfl

theorem weekday3_spec (dow : Fin 7) : ∃ n0 n1 n2, weekday3.getD dow [] = [n0, n1, n2]
    ∧ n2 ≠ 0x0D ∧ n2 ≠ 0x0A := by
  match dow with
  | 0 => exact ⟨_, _, _, rfl, by decide, by decide⟩
  | 1 => exact ⟨_, _, _, rfl, by decide, by decide⟩
  | 2 => exact ⟨_, _, _, rfl, by decide, by decide⟩
  | 3 => exact ⟨_, _, _, rfl, by decide, by decide⟩
  | 4 => exact ⟨_, _, _, rfl, by decide, by decide⟩
  | 5 => exact ⟨_, _, _, rfl, by decide, by decide⟩
  | 6 => exact ⟨_, _, _, rfl, by decide, by decide⟩

theorem parseClockI_isoDay (dow : Fin 7) (t : Moment) (hlo : 1980 ≤ t.date.year)
    (hhi : t.date.year ≤ 2079) :
    (parseClockI 27).run (WriteForm.text (.isoDay dow) t)
      = some (some (face (clockDayOfWeek t.date.year t.date.month t.date.day) t)) := by
  obtain ⟨n0, n1, n2, hname, _⟩ := weekday3_spec dow
  have hfields := clockFieldsI_run t hlo hhi (ch 'T') (ch '-') (ch 'W') (ch 'I')
    ([ch ' '] ++ [n0, n1, n2])
  have htext : WriteForm.text (.isoDay dow) t
      = [ch 'T', ch '-', ch 'W', ch 'I'] ++ isoText t ++ ([ch ' '] ++ [n0, n1, n2]) := by
    rw [WriteForm.text, hname, List.append_assoc]
    rfl
  rw [htext]
  exact parseClockI_run hfields (Or.inr rfl) (by simp [isoText, timeText, two]) rfl
    (fun _ => rfl) rfl

theorem clockDaysInMonth_eq (t : Date) :
    clockDaysInMonth t.year t.month = (monthLength t.year t.month : Nat) := by
  have hleap : ((t.year : Int) % 4 = 0 ∧ ((t.year : Int) % 100 ≠ 0 ∨ (t.year : Int) % 400 = 0))
      ↔ Leap t.year := by
    rw [Leap]
    omega
  simp only [clockDaysInMonth, hleap, monthLength]
  rcases month_cases t.month_pos t.month_le with h | h | h | h | h | h | h | h | h | h | h | h
  all_goals rw [h]
  all_goals by_cases hl : Leap t.year
  all_goals simp [hl]

/-- A moment of the clock's century is a valid time. -/
theorem face_valid {wd : Int} {t : Moment} (hwd : 0 ≤ wd ∧ wd ≤ 6) (hlo : 1980 ≤ t.date.year)
    (hhi : t.date.year ≤ 2079) : (face wd t).Valid := by
  have hmpos := t.date.month_pos
  have hmonth := t.date.month_le
  have hdpos := t.date.day_pos
  have hday := t.date.day_le
  have hhour := t.hour_lt
  have hmin := t.min_lt
  have hsec := t.sec_lt
  refine ⟨⟨by simp only [face]; omega, by simp only [face]; omega⟩,
    ⟨by simp only [face]; omega, by simp only [face]; omega⟩,
    ⟨by simp only [face]; omega, ?_⟩, hwd,
    ⟨by simp only [face]; omega, by simp only [face]; omega⟩,
    ⟨by simp only [face]; omega, by simp only [face]; omega⟩,
    ⟨by simp only [face]; omega, by simp only [face]; omega⟩⟩
  show (t.date.day : Int) ≤ clockDaysInMonth t.date.year t.date.month
  rw [clockDaysInMonth_eq]
  omega

/-- The form of a write is told by its fourth byte. -/
theorem parseClockWrite_run {len : Nat} {m : List UInt8} {c : UInt8} {t : ClockTime}
    (hc : m[3]? = some c)
    (hform : (if c = ch 'A' then parseClockA len
      else if c = ch 'B' then parseClockBytes len clockBcd
      else if c = ch 'D' then parseClockBytes len fun b => some b.toNat
      else if c = ch 'I' then parseClockI len
      else pure none).run m = some (some t)) (hvalid : t.Valid) :
    (parseClockWrite len).run m = some (some t) := by
  rw [parseClockWrite, run_bind, run_byte, hc, Option.bind_some, run_bind, hform, Option.bind_some,
    run_pure]
  show some (if t.Valid then some t else none) = _
  rw [if_pos hvalid]

/-- **EVERY FORM IS TAKEN** as the moment it stands for. -/
theorem parseClockWrite_text (form : WriteForm) (t : Moment) (hlo : 1980 ≤ t.date.year)
    (hhi : t.date.year ≤ 2079) :
    ∃ wd, (parseClockWrite (form.text t).length).run (form.text t) = some (some (face wd t)) := by
  have hone : 1 ≤ t.date.year := Nat.le_trans (by decide) hlo
  have hday : ∀ dow : Fin 7, (0 : Int) ≤ (dow : Nat) ∧ ((dow : Nat) : Int) ≤ 6 := by
    intro dow
    omega
  have hderived : (0 : Int) ≤ clockDayOfWeek t.date.year t.date.month t.date.day
      ∧ clockDayOfWeek t.date.year t.date.month t.date.day ≤ 6 := by
    rw [clockDayOfWeek_eq t.date hone]
    omega
  cases form with
  | ascii24 dow =>
      have hlen : (WriteForm.text (.ascii24 dow) t).length = 26 := by
        obtain ⟨n0, n1, n2, n3, hname, _⟩ := weekday4_spec dow
        rw [WriteForm.text, hname]
        rfl
      rw [hlen]
      exact ⟨_, parseClockWrite_run rfl (parseClockA_ascii24 dow t hlo hhi)
        (face_valid (hday dow) hlo hhi)⟩
  | ascii12 dow =>
      have hlen : (WriteForm.text (.ascii12 dow) t).length = 29 := by
        obtain ⟨n0, n1, n2, n3, hname, _⟩ := weekday4_spec dow
        rw [WriteForm.text, hname]
        rfl
      rw [hlen]
      exact ⟨_, parseClockWrite_run rfl (parseClockA_ascii12 dow t hlo hhi)
        (face_valid (hday dow) hlo hhi)⟩
  | bcd dow =>
      exact ⟨_, parseClockWrite_run rfl (parseClockBytes_bcd dow t hlo hhi)
        (face_valid (hday dow) hlo hhi)⟩
  | decimal dow whole =>
      exact ⟨_, parseClockWrite_run rfl (parseClockBytes_decimal dow whole t hlo hhi)
        (face_valid (hday dow) hlo hhi)⟩
  | iso =>
      exact ⟨_, parseClockWrite_run rfl (parseClockI_iso t hlo hhi) (face_valid hderived hlo hhi)⟩
  | isoDay dow =>
      have hlen : (WriteForm.text (.isoDay dow) t).length = 27 := by
        obtain ⟨n0, n1, n2, hname, _⟩ := weekday3_spec dow
        rw [WriteForm.text, hname]
        rfl
      rw [hlen]
      exact ⟨_, parseClockWrite_run rfl (parseClockI_isoDay dow t hlo hhi)
        (face_valid hderived hlo hhi)⟩

/-! ## The commands -/

/-- What may follow a command: nothing, a carriage return, or a line
    feed behind it. -/
def terminators : List (List UInt8) := [[], [0x0D], [0x0D, 0x0A]]

/-- A terminator is stripped from a command that does not end in one. -/
theorem stripTerminator_run {text tail : List UInt8} {c : UInt8} (hT : text.head? = some (ch 'T'))
    (hlast : text.getLast? = some c) (hcr : c ≠ 0x0D) (hlf : c ≠ 0x0A) (htail : tail ∈ terminators) :
    (stripTerminator (text ++ tail).length).run (buffered (text ++ tail)) = some text.length := by
  obtain ⟨rest, rfl⟩ := List.head?_eq_some_iff.mp hT
  obtain ⟨front, hfront⟩ := List.getLast?_eq_some_iff.mp hlast
  have hlen : (ch 'T' :: rest).length = front.length + 1 := by rw [hfront]; simp
  have hbuffer : (firstBytes (ch 'T' :: rest ++ tail).length).run
      (buffered (ch 'T' :: rest ++ tail)) = some (ch 'T' :: rest ++ tail) := by
    rw [run_firstBytes (by simp [buffered]), buffered, List.take_left']
    rfl
  rw [stripTerminator, run_bind, hbuffer, Option.bind_some, run_pure]
  have hnotC : ¬(1 < (ch 'T' :: rest ++ tail).length
      ∧ (ch 'T' :: rest ++ tail).take 2 = [ch 'C', 0xD0]) := by
    rintro ⟨_, h⟩
    have hhead := congrArg List.head? h
    simp only [List.cons_append, List.take_succ_cons, List.head?_cons, Option.some.injEq] at hhead
    exact absurd hhead (by decide)
  have hnotU : ¬((ch 'T' :: rest ++ tail).length = 4 ∧ (ch 'T' :: rest ++ tail).take 3 = str "U0>") := by
    rintro ⟨_, h⟩
    have hhead := congrArg List.head? h
    simp only [List.cons_append, List.take_succ_cons, List.head?_cons] at hhead
    exact absurd hhead (by decide)
  rw [if_neg hnotC, if_neg hnotU, hlen]
  rw [hfront]
  simp only [terminators, List.mem_cons, List.not_mem_nil, or_false] at htail
  rcases htail with rfl | rfl | rfl
  · -- nothing to strip
    have hat : (front ++ [c] ++ []).getD ((front ++ [c] ++ []).length - 1) 0 = c := by simp
    rw [if_neg (fun h => hcr (hat.symm.trans h.2)), if_neg (fun h => hlf (hat.symm.trans h.2.2))]
    simp
  · have hat : 0 < (front ++ [c] ++ [0x0D]).length
        ∧ (front ++ [c] ++ [0x0D]).getD ((front ++ [c] ++ [0x0D]).length - 1) 0 = 0x0D := by simp
    rw [if_pos hat]
    simp
  · have hat : ¬(0 < (front ++ [c] ++ [0x0D, 0x0A]).length
        ∧ (front ++ [c] ++ [0x0D, 0x0A]).getD ((front ++ [c] ++ [0x0D, 0x0A]).length - 1) 0
          = 0x0D) := by
      simp
    have hpair : 2 < (front ++ [c] ++ [0x0D, 0x0A]).length
        ∧ (front ++ [c] ++ [0x0D, 0x0A]).getD ((front ++ [c] ++ [0x0D, 0x0A]).length - 2) 0 = 0x0D
        ∧ (front ++ [c] ++ [0x0D, 0x0A]).getD ((front ++ [c] ++ [0x0D, 0x0A]).length - 1) 0
          = 0x0A := by
      simp
    rw [if_neg hat, if_pos hpair]
    simp

/-- A command of the clock is handed to the clock, without its
    terminator. -/
theorem executeCommand_clock {text tail : List UInt8} {c : UInt8} (hT : text.head? = some (ch 'T'))
    (hlast : text.getLast? = some c) (hcr : c ≠ 0x0D) (hlf : c ≠ 0x0A) (htail : tail ∈ terminators)
    (hlen : text.length < 200) (now : ClockTime) (offset : Int) :
    (executeCommand now offset (text ++ tail).length).run (buffered (text ++ tail))
      = (timeCommand now offset text.length).run (buffered (text ++ tail)) := by
  have hstrip := stripTerminator_run hT hlast hcr hlf htail
  obtain ⟨rest, rfl⟩ := List.head?_eq_some_iff.mp hT
  have hshort : tail.length ≤ 2 := by
    simp only [terminators, List.mem_cons, List.not_mem_nil, or_false] at htail
    rcases htail with rfl | rfl | rfl <;> simp
  have hfits : ¬commandBufferSize ≤ (ch 'T' :: rest ++ tail).length := by
    rw [List.length_append, commandBufferSize]
    omega
  have hsome : ¬(ch 'T' :: rest).length = 0 := by simp
  rw [executeCommand, if_neg hfits, run_bind, hstrip, Option.bind_some, if_neg hsome, run_bind]
  rfl

/-- What a write comes to: the offset is that of the moment written. -/
theorem timeCommand_write {text more : List UInt8} {t : ClockTime} (hW : text.take 3 = str "T-W")
    (hlen : 4 ≤ text.length) (hparse : (parseClockWrite text.length).run text = some (some t))
    (now : ClockTime) (offset : Int) :
    (timeCommand now offset text.length).run (text ++ more)
      = some ⟨[.getClockOffset, .setClockOffset (clockSeconds t - clockSeconds now)], some 0⟩ := by
  have hbehind := (parseClockWrite text.length).grows text more _ hparse
  have hshape : text = str "T-W" ++ text.drop 3 := by rw [← hW, List.take_append_drop]
  have h1 : (text ++ more)[1]? = some (ch '-') := by
    rw [hshape]
    rfl
  have h2 : (text ++ more)[2]? = some (ch 'W') := by
    rw [hshape]
    rfl
  have hlong : ¬text.length < 4 := by omega
  rw [timeCommand, run_bind, run_byte, h1, Option.bind_some, if_neg (by simp), run_bind, run_byte,
    h2, Option.bind_some, if_neg (by decide), if_pos rfl, if_neg hlong, run_bind, hbehind,
    Option.bind_some]
  rfl

/-- What a read comes to: the answer of the drive's clock. -/
theorem timeCommand_read (form : ReadForm) (more : List UInt8) (now : ClockTime) (offset : Int)
    {data : List UInt8} (hdata : clockAnswer form.letter (driveTime now offset) = some data) :
    (timeCommand now offset form.text.length).run (form.text ++ more)
      = some ⟨[.getClockOffset, .doCmdResponse data], none⟩ := by
  have h1 : (form.text ++ more)[1]? = some (ch '-') := rfl
  have h2 : (form.text ++ more)[2]? = some (ch 'R') := rfl
  have h3 : (form.text ++ more)[3]? = some form.letter := rfl
  have hlen : ¬form.text.length ≠ 4 := not_not.mpr rfl
  rw [timeCommand, run_bind, run_byte, h1, Option.bind_some, if_neg (by simp), run_bind, run_byte,
    h2, Option.bind_some, if_pos rfl, if_neg hlen, run_bind, run_byte, h3, Option.bind_some,
    run_pure, hdata]
  rfl

/-- No written form ends in what could be a terminator. -/
theorem text_last (form : WriteForm) (t : Moment) :
    ∃ c, (form.text t).getLast? = some c ∧ c ≠ 0x0D ∧ c ≠ 0x0A := by
  have hdigit : ∀ n : Nat, n % 10 < 10 := fun n => Nat.mod_lt _ (by decide)
  have hones : ∀ n : Nat, UInt8.ofNat (48 + n % 10) ≠ 0x0D ∧ UInt8.ofNat (48 + n % 10) ≠ 0x0A := by
    have hall : ∀ k < 10, UInt8.ofNat (48 + k) ≠ 0x0D ∧ UInt8.ofNat (48 + k) ≠ 0x0A := by
      decide +kernel
    exact fun n => hall _ (hdigit n)
  have hhalf : half t.hour ≠ 0x0D ∧ half t.hour ≠ 0x0A := by
    rw [half]
    split
    · decide
    · decide
  cases form with
  | ascii24 dow =>
      refine ⟨UInt8.ofNat (48 + t.sec % 10), ?_, hones _⟩
      rw [WriteForm.text, List.getLast?_append, timeText, List.getLast?_append]
      rfl
  | ascii12 dow =>
      refine ⟨ch 'M', ?_, by decide⟩
      rw [WriteForm.text, List.getLast?_append]
      rfl
  | bcd dow =>
      refine ⟨half t.hour, ?_, hhalf⟩
      rw [WriteForm.text]
      simp
  | decimal dow whole =>
      refine ⟨half t.hour, ?_, hhalf⟩
      rw [WriteForm.text]
      simp
  | iso =>
      refine ⟨UInt8.ofNat (48 + t.sec % 10), ?_, hones _⟩
      rw [WriteForm.text, isoText, timeText, List.getLast?_append, List.getLast?_append,
        List.getLast?_append]
      rfl
  | isoDay dow =>
      obtain ⟨n0, n1, n2, hname, hn2⟩ := weekday3_spec dow
      refine ⟨n2, ?_, hn2⟩
      rw [WriteForm.text, hname]
      simp

/-- A written form begins like a write, and is not long. -/
theorem text_shape (form : WriteForm) (t : Moment) :
    (form.text t).take 3 = str "T-W" ∧ (form.text t).head? = some (ch 'T')
      ∧ 4 ≤ (form.text t).length ∧ (form.text t).length < 200 := by
  cases form with
  | ascii24 dow =>
      obtain ⟨n0, n1, n2, n3, hname, _⟩ := weekday4_spec dow
      rw [WriteForm.text, hname]
      exact ⟨rfl, rfl, by simp [dateText, timeText, two, str], by simp [dateText, timeText, two, str]⟩
  | ascii12 dow =>
      obtain ⟨n0, n1, n2, n3, hname, _⟩ := weekday4_spec dow
      rw [WriteForm.text, hname]
      exact ⟨rfl, rfl, by simp [dateText, timeText, two, marker, str],
        by simp [dateText, timeText, two, marker, str]⟩
  | bcd dow => exact ⟨rfl, rfl, by simp [WriteForm.text, str], by simp [WriteForm.text, str]⟩
  | decimal dow whole => exact ⟨rfl, rfl, by simp [WriteForm.text, str], by simp [WriteForm.text, str]⟩
  | iso =>
      exact ⟨rfl, rfl, by simp [WriteForm.text, isoText, timeText, two, str],
        by simp [WriteForm.text, isoText, timeText, two, str]⟩
  | isoDay dow =>
      obtain ⟨n0, n1, n2, hname, _⟩ := weekday3_spec dow
      rw [WriteForm.text, hname]
      exact ⟨rfl, rfl, by simp [isoText, timeText, two, str], by simp [isoText, timeText, two, str]⟩

/-! ## The clock runs on -/

/-- What the drive's clock shows, given a moment to show: the system's
    clock, moved by the difference of two counts. -/
theorem driveTime_eq {now : ClockTime} {offset : Int} {wd : Int} {a t : Moment} (hnow : now = face wd a)
    (ha : 1 ≤ a.date.year) (ht : 1 ≤ t.date.year) (hright : t.date.Right)
    (hcount : (a.count : Int) + offset = t.count) (hzero : offset = 0 → a = t ∧ wd = t.date.weekday) :
    driveTime now offset = face t.date.weekday t := by
  rw [driveTime]
  by_cases h0 : offset = 0
  · obtain ⟨rfl, rfl⟩ := hzero h0
    rw [if_pos h0, hnow]
  · rw [if_neg h0, hnow, clockSeconds_eq wd a ha, hcount, clockFromSeconds_eq t ht hright]

/-- A clock within the century is far from a year of five digits. -/
theorem year_after {n a d : Nat} (hn : (after n).date.year ≤ 2079)
    (ha : (after (a + d)).date.year ≤ 2079) : (after (n + d)).date.year < 10000 := by
  have hsum := (after_spec (n + d)).2.2
  have hcn := (after_spec n).2.2
  have hca := (after_spec (a + d)).2.2
  have hlow := (after (n + d)).date.count_bounds.1
  have hup := (after n).date.count_bounds.2
  have hua := (after (a + d)).date.count_bounds.2
  have hdayn := (after n).ofDay_lt
  have hdaya := (after (a + d)).ofDay_lt
  rw [Moment.count] at hsum hcn hca
  omega

/-- The clock, with its moments as seconds after the epoch. -/
theorem clock_after (form : WriteForm) (answer : ReadForm) (n a d : Nat) (wd₀ wd₁ offset₀ : Int)
    {tail₀ tail₁ : List UInt8} (ht₀ : tail₀ ∈ terminators) (ht₁ : tail₁ ∈ terminators)
    (hn : (after n).date.year ≤ 2079) (ha : (after (a + d)).date.year ≤ 2079)
    (hwd : n = a → wd₁ = (after (a + d)).date.weekday) :
    ∃ offset,
      (executeCommand (face wd₀ (after a)) offset₀ (form.text (after n) ++ tail₀).length).run
          (buffered (form.text (after n) ++ tail₀))
        = some ⟨[.getClockOffset, .setClockOffset offset], some 0⟩
      ∧ (executeCommand (face wd₁ (after (a + d))) offset (answer.text ++ tail₁).length).run
          (buffered (answer.text ++ tail₁))
        = some ⟨[.getClockOffset, .doCmdResponse (answer.answer (after (n + d)))], none⟩ := by
  obtain ⟨hloN, _, hcN⟩ := after_spec n
  obtain ⟨hloA, _, hcA⟩ := after_spec a
  obtain ⟨hloS, _, hcS⟩ := after_spec (a + d)
  obtain ⟨hloT, hrightT, hcT⟩ := after_spec (n + d)
  obtain ⟨c, hlast, hcr, hlf⟩ := text_last form (after n)
  obtain ⟨hW, hT, hfour, hshort⟩ := text_shape form (after n)
  obtain ⟨wd, hparse⟩ := parseClockWrite_text form (after n) hloN hn
  refine ⟨clockSeconds (face wd (after n)) - clockSeconds (face wd₀ (after a)), ?_, ?_⟩
  · rw [executeCommand_clock hT hlast hcr hlf ht₀ hshort, buffered, List.append_assoc]
    exact timeCommand_write hW hfour hparse _ _
  · have hletter : answer.letter ≠ 0x0D ∧ answer.letter ≠ 0x0A := by
      cases answer <;> decide
    have hask : answer.text.head? = some (ch 'T') := rfl
    have hend : answer.text.getLast? = some answer.letter := rfl
    have hfour : answer.text.length < 200 := show 4 < 200 by decide
    rw [executeCommand_clock hask hend hletter.1 hletter.2 ht₁ hfour, buffered, List.append_assoc]
    refine timeCommand_read answer _ _ _ ?_
    rw [clockSeconds_eq wd _ (by omega), clockSeconds_eq wd₀ _ (by omega),
      driveTime_eq (t := after (n + d)) rfl (by omega) (by omega) hrightT]
    · exact clockAnswer_face answer _ hloT (year_after hn ha)
    · omega
    · intro h0
      have hna : n = a := by omega
      subst hna
      exact ⟨rfl, hwd rfl⟩

/-- **THE CLOCK RUNS ON**: a moment `t` of the clock's century written in
    any form, while the system's clock shows `s`, is answered `d` seconds
    later, in any form, as the moment `d` seconds on.  The system's own
    day of the week may be wrong, except where the moment written is the
    one the system's clock shows: then the drive's clock is the system's
    clock, as it reads. -/
theorem clock_runs_on (form : WriteForm) (answer : ReadForm) (t s : Moment) (d : Nat)
    (wd₀ wd₁ offset₀ : Int) {tail₀ tail₁ : List UInt8} (ht₀ : tail₀ ∈ terminators)
    (ht₁ : tail₁ ∈ terminators) (hlo : 1980 ≤ t.date.year) (hhi : t.date.year ≤ 2079)
    (hright : t.date.Right) (hslo : 1980 ≤ s.date.year) (hsright : s.date.Right)
    (hshi : (Moment.next^[d] s).date.year ≤ 2079)
    (hwd : t = s → wd₁ = (Moment.next^[d] s).date.weekday) :
    ∃ offset,
      (executeCommand (face wd₀ s) offset₀ (form.text t ++ tail₀).length).run
          (buffered (form.text t ++ tail₀))
        = some ⟨[.getClockOffset, .setClockOffset offset], some 0⟩
      ∧ (executeCommand (face wd₁ (Moment.next^[d] s)) offset (answer.text ++ tail₁).length).run
          (buffered (answer.text ++ tail₁))
        = some ⟨[.getClockOffset, .doCmdResponse (answer.answer (Moment.next^[d] t))], none⟩ := by
  obtain ⟨n, rfl⟩ := exists_after t hlo hright
  obtain ⟨a, rfl⟩ := exists_after s hslo hsright
  rw [iterate_after] at hshi hwd
  rw [iterate_after, iterate_after]
  exact clock_after form answer n a d wd₀ wd₁ offset₀ ht₀ ht₁ hhi hshi fun h => hwd (h ▸ rfl)

/-- A write of the second after the epoch, and the answer two seconds
    later. -/
theorem clock_runs_on_small : ∃ offset,
    (executeCommand (face 2 epoch) 0 (WriteForm.iso.text epoch.next ++ []).length).run
        (buffered (WriteForm.iso.text epoch.next ++ []))
      = some ⟨[.getClockOffset, .setClockOffset offset], some 0⟩
    ∧ (executeCommand (face 2 (Moment.next^[2] epoch)) offset
          (ReadForm.ascii.text ++ [0x0D]).length).run (buffered (ReadForm.ascii.text ++ [0x0D]))
      = some ⟨[.getClockOffset,
          .doCmdResponse (ReadForm.ascii.answer (Moment.next^[2] epoch.next))], none⟩ :=
  clock_runs_on .iso .ascii epoch.next epoch 2 2 2 0 (by decide) (by decide) (by decide) (by decide)
    rfl (by decide) rfl (by decide) (fun h => absurd (congrArg Moment.sec h) (by decide))

/-- A system clock that calls the first of January 1980 a Wednesday, and
    the same moment written to the drive: it goes on being a
    Wednesday. -/
theorem clock_keeps_wrong_day : ∃ offset data,
    (executeCommand (face 3 epoch) 0 (WriteForm.iso.text epoch).length).run
        (buffered (WriteForm.iso.text epoch))
      = some ⟨[.getClockOffset, .setClockOffset offset], some 0⟩
    ∧ (executeCommand (face 3 (Moment.next^[0] epoch)) offset ReadForm.iso.text.length).run
        (buffered ReadForm.iso.text)
      = some ⟨[.getClockOffset, .doCmdResponse data], none⟩
    ∧ data ≠ ReadForm.iso.answer (Moment.next^[0] epoch) := by
  refine ⟨0, str "1980-01-01T00:00:00 WED" ++ [0x0D], ?_, ?_, ?_⟩
  · decide +kernel
  · decide +kernel
  · decide +kernel

end Cbmdos
