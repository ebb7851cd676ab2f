import Mathlib.Data.List.GetD
import EntropyOS.Libexfat.View

/-!
# Timestamps

`exfat_exfat2unix` and `exfat_unix2exfat` of `time.c`.  The local time is UTC, as
`exfat_tzset` leaves it in this build.  Every fourth year counts as a leap year.
-/

namespace EntropyOS.Libexfat

open EntropyOS.Foundation

/-! ## The code -/

def secInMin : Int := 60

def secInHour : Int := 60 * secInMin

def secInDay : Int := 24 * secInHour

def secInYear : Int := 365 * secInDay

def epochDiffSec : Int := (10 * 365 + 10 / 4) * secInDay

def leapYears (year : Nat) : Int := (1980 + year - 1) / 4 - (1980 - 1) / 4

abbrev IsLeapYear (year : Nat) : Prop := (1980 + year) % 4 = 0

/-- `days_in_year`; the first entry is for no month. -/
def daysInYear (month : Nat) : Int :=
  [0, 0, 31, 59, 90, 120, 151, 181, 212, 243, 273, 304, 334].getD month 0

/-- What `exfat_exfat2unix` computes for fields in range. -/
def unixTime (year month day hour min twosec centisec tzoffset : Nat) : Int :=
  let days : Int := if (1980 + year) % 4 = 0 ∧ month > 2 then 1 else 0
  let zone : Int := if tzoffset &&& 0x80 ≠ 0 then
    -((Int.bmod (tzoffset * 2) 256 * 15 * 60).tdiv 2) else 0
  epochDiffSec + (year * secInYear + leapYears year * secInDay) +
    daysInYear month * secInDay + days * secInDay + (day - 1) * secInDay +
    hour * secInHour + min * secInMin + twosec * 2 + centisec / 100 + zone

def exfat2unix (date time centisec tzoffset : Nat) : Program Volume Int := do
  let day := date &&& 0x1f
  let month := date >>> 5 &&& 0xf
  let year := date >>> 9
  let twosec := time &&& 0x1f
  let min := time >>> 5 &&& 0x3f
  let hour := time >>> 11
  if day = 0 ∨ month = 0 ∨ month > 12 then
    exfatError "bad date %u-%02hu-%02hu"
    return 0
  if hour > 23 ∨ min > 59 ∨ twosec > 29 then
    exfatError "bad time %hu:%02hu:%02u"
    return 0
  if centisec > 199 then
    exfatError "bad centiseconds count %hhu"
    return 0
  return unixTime year month day hour min twosec centisec tzoffset

def leapDay (year i : Nat) : Int := if IsLeapYear year ∧ i = 2 then 1 else 0

def leapSub (year i : Nat) : Int := if IsLeapYear year ∧ i ≥ 3 then 1 else 0

/-- The loop of `exfat_unix2exfat`: the month from `i` on, and the days in it. -/
def findMonth (year : Nat) (days : Int) : (rounds i : Nat) → Nat × Int
  | 0, _ => (0, days)
  | rounds + 1, i =>
      if i = 12 ∨ days - leapSub year i < daysInYear (i + 1) + leapDay year i then
        (i, days - (daysInYear i + leapSub year i))
      else findMonth year days rounds (i + 1)

/-- What `exfat_unix2exfat` stores. -/
structure Stamp where
  date : Nat
  time : Nat
  centisec : Nat
  tzoffset : Nat

def unix2exfat (unixTime : Int) : Stamp :=
  -- time before exFAT epoch cannot be represented
  let seconds := (max unixTime epochDiffSec - epochDiffSec).toNat
  let days := seconds / 86400
  let year := 4 * days / (4 * 365 + 1) % 65536
  let (month, rest) := findMonth year (days - (year * 365 + leapYears year)) 12 1
  let day := (rest + 1).toNat % 65536
  let hour := seconds % 86400 / 3600
  let min := seconds % 3600 / 60
  let twosec := seconds % 60 / 2
  { date := (day ||| month <<< 5 ||| year <<< 9) % 65536
    time := twosec ||| min <<< 5 ||| hour <<< 11
    centisec := seconds % 2 * 100
    tzoffset := 0x80 }

/-! ## The month of a day -/

theorem daysInYear_succ : ∀ i < 12, daysInYear (i + 1) ≤ daysInYear i + 31 ∧
    (i = 2 → daysInYear (i + 1) ≤ daysInYear i + 30) := by decide

theorem daysInYear_le : ∀ i, daysInYear i ≤ 334 := by
  intro i
  by_cases hi : i ≤ 12
  · revert i
    decide
  · rw [daysInYear, List.getD_eq_default _ _ (by simp; omega)]
    decide

theorem findMonth_spec {year : Nat} {days : Int} (rounds : Nat) {i : Nat}
    (hrounds : rounds + i = 13) (hi : 1 ≤ i) (hlt : i ≤ 12)
    (hlow : daysInYear i + leapSub year i ≤ days)
    (hhigh : days < if IsLeapYear year then 366 else 365) :
    ∃ month rest, findMonth year days rounds i = (month, rest) ∧ 1 ≤ month ∧ month ≤ 12 ∧
      0 ≤ rest ∧ rest < 31 ∧ daysInYear month + leapSub year month + rest = days ∧
      (month < 12 → rest < daysInYear (month + 1) + leapDay year month - daysInYear month) := by
  induction rounds generalizing i with
  | zero => omega
  | succ rounds ih =>
      have hnext := daysInYear_succ i
      rw [findMonth]
      split
      · next hfound =>
          refine ⟨i, _, rfl, hi, hlt, by omega, ?_, by omega, ?_⟩
          · by_cases hlast : i = 12
            · subst hlast
              have hdecember : daysInYear 12 = 334 := rfl
              simp only [leapSub] at *
              split at hhigh <;> simp_all <;> omega
            · have hlength : daysInYear (i + 1) + leapDay year i ≤ daysInYear i + 31 := by
                simp only [leapDay]
                split <;> omega
              omega
          · omega
      · next hmore =>
          rw [not_or, not_lt] at hmore
          refine ih (by omega) (by omega) (by omega) ?_
          have hsub : leapSub year (i + 1) = leapDay year i + leapSub year i := by
            simp only [leapSub, leapDay]
            split <;> split <;> split <;> omega
          omega

/-! ## The fields of a stamp -/

theorem packed_low {low high width : Nat} (h : low < 2 ^ width) :
    low ||| high <<< width = high * 2 ^ width + low := by
  rw [Nat.or_comm, ← Nat.shiftLeft_add_eq_or_of_lt h, Nat.shiftLeft_eq]

theorem packed_time {twosec min hour : Nat} (htwosec : twosec < 32) (hmin : min < 64) :
    twosec ||| min <<< 5 ||| hour <<< 11 = hour * 2048 + min * 32 + twosec := by
  have hlow : twosec ||| min <<< 5 = min * 2 ^ 5 + twosec := packed_low htwosec
  rw [hlow, packed_low (by omega)]
  omega

structure Fields where
  year : Nat
  month : Nat
  day : Nat
  hour : Nat
  min : Nat
  twosec : Nat

structure Fields.InRange (f : Fields) : Prop where
  year_lt : f.year < 128
  month_pos : 1 ≤ f.month
  month_le : f.month ≤ 12
  day_pos : 1 ≤ f.day
  day_lt : f.day < 32
  hour_lt : f.hour < 24
  min_lt : f.min < 60
  twosec_lt : f.twosec < 30

def Fields.date (f : Fields) : Nat := f.day ||| f.month <<< 5 ||| f.year <<< 9

def Fields.time (f : Fields) : Nat := f.twosec ||| f.min <<< 5 ||| f.hour <<< 11

section Packing

variable {f : Fields} (h : f.InRange)

include h

theorem Fields.InRange.date_eq : f.date = f.year * 512 + f.month * 32 + f.day := by
  have hday := h.day_lt
  have hmonth := h.month_le
  have hlow : f.day ||| f.month <<< 5 = f.month * 2 ^ 5 + f.day := packed_low hday
  rw [Fields.date, hlow, packed_low (by omega)]
  omega

theorem Fields.InRange.time_eq : f.time = f.hour * 2048 + f.min * 32 + f.twosec :=
  packed_time (by have := h.twosec_lt; omega) (by have := h.min_lt; omega)

theorem Fields.InRange.date_day : f.date &&& 0x1f = f.day := by
  have hday := h.day_lt
  rw [h.date_eq, show 0x1f = 2 ^ 5 - 1 from rfl, Nat.and_two_pow_sub_one_eq_mod]
  omega

theorem Fields.InRange.date_month : f.date >>> 5 &&& 0xf = f.month := by
  have hday := h.day_lt
  have hmonth := h.month_le
  rw [h.date_eq, show 0xf = 2 ^ 4 - 1 from rfl, Nat.and_two_pow_sub_one_eq_mod,
    Nat.shiftRight_eq_div_pow]
  omega

theorem Fields.InRange.date_year : f.date >>> 9 = f.year := by
  have hday := h.day_lt
  have hmonth := h.month_le
  rw [h.date_eq, Nat.shiftRight_eq_div_pow]
  omega

theorem exfat2unix_runs {v : View} {centisec : Nat} (hcentisec : centisec ≤ 199)
    (tzoffset : Nat) :
    Runs Shows v (exfat2unix f.date f.time centisec tzoffset)
      (unixTime f.year f.month f.day f.hour f.min f.twosec centisec tzoffset) v := by
  obtain ⟨hyear, hmonth, hmonth', hday, hday', hhour, hmin, htwosec⟩ := id h
  have hs : f.time &&& 0x1f = f.twosec := by
    rw [h.time_eq, show 0x1f = 2 ^ 5 - 1 from rfl, Nat.and_two_pow_sub_one_eq_mod]
    omega
  have hi : f.time >>> 5 &&& 0x3f = f.min := by
    rw [h.time_eq, show 0x3f = 2 ^ 6 - 1 from rfl, Nat.and_two_pow_sub_one_eq_mod,
      Nat.shiftRight_eq_div_pow]
    omega
  have hh : f.time >>> 11 = f.hour := by
    rw [h.time_eq, Nat.shiftRight_eq_div_pow]
    omega
  simp only [exfat2unix, h.date_day, h.date_month, h.date_year, hs, hi, hh]
  refine Runs.if_neg (by omega) (Runs.if_neg (by omega) (Runs.if_neg (by omega) ?_))
  exact Runs.pure v _

end Packing

/-! ## The fields of a time -/

/-- The last second that a stamp has room for is the one before. -/
def stampLimit : Int := epochDiffSec + 46752 * secInDay

/-- The fields of the second `seconds` after the exFAT epoch. -/
def fieldsOf (seconds : Nat) : Fields :=
  let days := seconds / 86400
  let year := 4 * days / (4 * 365 + 1)
  let (month, rest) := findMonth year (days - (year * 365 + leapYears year)) 12 1
  ⟨year, month, (rest + 1).toNat, seconds % 86400 / 3600, seconds % 3600 / 60,
    seconds % 60 / 2⟩

theorem leapYears_eq (year : Nat) : leapYears year = ((year + 3) / 4 : Nat) := by
  simp only [leapYears]
  omega

theorem fieldsOf_spec {seconds : Nat} (h : seconds < 46752 * 86400) :
    (fieldsOf seconds).InRange ∧
      (fieldsOf seconds).year * 365 + leapYears (fieldsOf seconds).year +
        daysInYear (fieldsOf seconds).month +
        leapSub (fieldsOf seconds).year (fieldsOf seconds).month +
        ((fieldsOf seconds).day - 1) = seconds / 86400 ∧
      ((fieldsOf seconds).month < 12 → (fieldsOf seconds).day ≤
        daysInYear ((fieldsOf seconds).month + 1) +
          leapDay (fieldsOf seconds).year (fieldsOf seconds).month -
          daysInYear (fieldsOf seconds).month) := by
  let days := seconds / 86400
  let year := 4 * days / (4 * 365 + 1)
  have hleap := leapYears_eq year
  have hlow : daysInYear 1 + leapSub year 1 ≤ days - (year * 365 + leapYears year) := by
    have hfirst : daysInYear 1 = 0 := rfl
    have hsub : leapSub year 1 = 0 := by simp [leapSub]
    omega
  have hhigh : (days - (year * 365 + leapYears year) : Int) <
      if IsLeapYear year then 366 else 365 := by
    have hquarter : ¬ IsLeapYear year → year + 1 ≤ 4 * ((year + 3) / 4) := by omega
    rw [hleap]
    split <;> omega
  obtain ⟨month, rest, hfound, hpos, hle, hrest, hlt, hsum, hlength⟩ :=
    findMonth_spec 12 (i := 1) rfl le_rfl (by omega) hlow hhigh
  have heq : fieldsOf seconds = ⟨year, month, (rest + 1).toNat, seconds % 86400 / 3600,
      seconds % 3600 / 60, seconds % 60 / 2⟩ := by
    simp only [fieldsOf]
    rw [hfound]
  rw [heq]
  refine ⟨⟨by simp only; omega, hpos, hle, by simp only; omega, by simp only; omega,
    by simp only; omega, by simp only; omega, by simp only; omega⟩, ?_, ?_⟩
  · simp only
    omega
  · intro hmonth
    have hday := hlength hmonth
    simp only
    omega

/-! ## There and back -/

/-- The second after the exFAT epoch that a time is stored as. -/
def stampSecond (time : Int) : Nat := (max time epochDiffSec - epochDiffSec).toNat

theorem stampSecond_lt {time : Int} (h : time < stampLimit) :
    stampSecond time < 46752 * 86400 := by
  have hlimit : stampLimit = 315532800 + 46752 * 86400 := rfl
  have hepoch : epochDiffSec = 315532800 := rfl
  simp only [stampSecond]
  omega

theorem unix2exfat_eq {time : Int} (h : time < stampLimit) :
    unix2exfat time = ⟨(fieldsOf (stampSecond time)).date, (fieldsOf (stampSecond time)).time,
      stampSecond time % 2 * 100, 0x80⟩ := by
  have hlt := stampSecond_lt h
  have hrange := (fieldsOf_spec hlt).1
  have hdate := hrange.date_eq
  have hyear := hrange.year_lt
  have hmonth := hrange.month_le
  have hday := hrange.day_lt
  have hsmall : 4 * (stampSecond time / 86400) / (4 * 365 + 1) % 65536 =
      4 * (stampSecond time / 86400) / (4 * 365 + 1) := Nat.mod_eq_of_lt (by omega)
  have hword : (fieldsOf (stampSecond time)).date < 65536 := by omega
  have hday' : (fieldsOf (stampSecond time)).day % 65536 =
      (fieldsOf (stampSecond time)).day := Nat.mod_eq_of_lt (by omega)
  simp only [fieldsOf, Fields.date] at hword hday'
  simp only [unix2exfat, stampSecond, fieldsOf, Fields.date, Fields.time] at *
  simp only [hsmall, hday', Nat.mod_eq_of_lt hword]

theorem unixTime_fieldsOf {seconds : Nat} (h : seconds < 46752 * 86400) (centisec : Nat) :
    unixTime (fieldsOf seconds).year (fieldsOf seconds).month (fieldsOf seconds).day
        (fieldsOf seconds).hour (fieldsOf seconds).min (fieldsOf seconds).twosec centisec 0x80 =
      epochDiffSec + (seconds - seconds % 2) + (centisec / 100 : Nat) := by
  obtain ⟨hrange, hdays, -⟩ := fieldsOf_spec h
  have hleap : (if (1980 + (fieldsOf seconds).year) % 4 = 0 ∧ (fieldsOf seconds).month > 2 then
      1 else 0) = leapSub (fieldsOf seconds).year (fieldsOf seconds).month := rfl
  have hzone : (if 0x80 &&& 0x80 ≠ 0 then
      -((Int.bmod ((0x80 : Nat) * 2) 256 * 15 * 60).tdiv 2) else 0) = 0 := by decide
  have hhour : (fieldsOf seconds).hour = seconds % 86400 / 3600 := rfl
  have hmin : (fieldsOf seconds).min = seconds % 3600 / 60 := rfl
  have htwosec : (fieldsOf seconds).twosec = seconds % 60 / 2 := rfl
  have hday := hrange.day_pos
  simp only [unixTime, hleap, hzone, hhour, hmin, htwosec, secInYear, secInDay, secInHour,
    secInMin]
  omega

/-- A time that a stamp has room for is read back, rounded down where it must be. -/
theorem stamp_runs {v : View} {time : Int} (h : time < stampLimit) {centisec : Nat}
    (hcentisec : centisec ≤ 199) :
    Runs Shows v (exfat2unix (unix2exfat time).date (unix2exfat time).time centisec 0x80)
      (epochDiffSec + (stampSecond time - stampSecond time % 2) + (centisec / 100 : Nat)) v := by
  have hlt := stampSecond_lt h
  rw [unix2exfat_eq h, ← unixTime_fieldsOf hlt centisec]
  exact exfat2unix_runs (fieldsOf_spec hlt).1 hcentisec 0x80

theorem exfat2unix_lt {v : View} {date time centisec : Nat} (hdate : date < 65536)
    (htime : time < 65536) (hcentisec : centisec ≤ 199) :
    ∃ r v', Runs Shows v (exfat2unix date time centisec 0x80) r v' ∧ r < stampLimit := by
  have hzero : (0 : Int) < stampLimit := by decide
  by_cases hbad : date &&& 0x1f = 0 ∨ date >>> 5 &&& 0xf = 0 ∨ date >>> 5 &&& 0xf > 12
  · exact ⟨0, _, Runs.if_pos hbad ((exfatError_runs _).bind (Runs.pure _ _)), hzero⟩
  by_cases hbad' : time >>> 11 > 23 ∨ time >>> 5 &&& 0x3f > 59 ∨ time &&& 0x1f > 29
  · exact ⟨0, _, Runs.if_neg hbad (Runs.if_pos hbad'
      ((exfatError_runs _).bind (Runs.pure _ _))), hzero⟩
  refine ⟨_, v, Runs.if_neg hbad (Runs.if_neg hbad' (Runs.if_neg (by omega)
    (Runs.pure v _))), ?_⟩
  have hyear : date >>> 9 < 128 := by
    rw [Nat.shiftRight_eq_div_pow]
    omega
  have hday : date &&& 0x1f ≤ 31 := Nat.and_le_right
  have hmonth := daysInYear_le (date >>> 5 &&& 0xf)
  have hzone : (if 0x80 &&& 0x80 ≠ 0 then
      -((Int.bmod ((0x80 : Nat) * 2) 256 * 15 * 60).tdiv 2) else 0) = 0 := by decide
  have hleap := leapYears_eq (date >>> 9)
  have hlimit : stampLimit = 315532800 + 46752 * 86400 := rfl
  have hepoch : epochDiffSec = 315532800 := rfl
  rw [hlimit]
  simp only [unixTime, hzone, hleap, hepoch, secInYear, secInDay, secInHour, secInMin]
  split <;> omega

/-! ## The calendar -/

def GregorianLeap (year : Nat) : Prop := year % 4 = 0 ∧ (year % 100 ≠ 0 ∨ year % 400 = 0)

instance (year : Nat) : Decidable (GregorianLeap year) :=
  inferInstanceAs (Decidable (_ ∧ _))

def yearLength (year : Nat) : Nat := if GregorianLeap year then 366 else 365

def monthLength (year month : Nat) : Nat :=
  if month = 2 then if GregorianLeap year then 29 else 28
  else if month = 4 ∨ month = 6 ∨ month = 9 ∨ month = 11 then 30
  else 31

/-- The date is the one of the day `days` after January 1st 1970. -/
structure IsCivil (year month day days : Nat) : Prop where
  month_pos : 1 ≤ month
  month_le : month ≤ 12
  day_pos : 1 ≤ day
  day_le : day ≤ monthLength year month
  days_eq : ∑ y ∈ Finset.Ico 1970 year, yearLength y +
    ∑ m ∈ Finset.Ico 1 month, monthLength year m + (day - 1) = days

theorem sum_yearLength {n : Nat} (h : n < 128) :
    ∑ y ∈ Finset.Ico 1970 (1980 + n), yearLength y =
      3652 + n * 365 + (n + 3) / 4 - if n > 120 then 1 else 0 := by
  induction n with
  | zero => decide
  | succ n ih =>
      have hyear : yearLength (1980 + n) = if n % 4 = 0 ∧ n ≠ 120 then 366 else 365 :=
        if_congr (by simp only [GregorianLeap]; omega) rfl rfl
      rw [← Nat.add_assoc, Finset.sum_Ico_succ_top (by omega), ih (by omega), hyear]
      split <;> split <;> split <;> omega

theorem monthLength_eq (year : Nat) : ∀ month, 1 ≤ month → month < 12 →
    (monthLength year month : Int) = daysInYear (month + 1) - daysInYear month +
      if GregorianLeap year ∧ month = 2 then 1 else 0 := by
  intro month hpos hlt
  by_cases hleap : GregorianLeap year
  · interval_cases month <;> simp [monthLength, daysInYear, hleap]
  · interval_cases month <;> simp [monthLength, daysInYear, hleap]

theorem sum_monthLength (year : Nat) : ∀ month, 1 ≤ month → month ≤ 12 →
    ((∑ m ∈ Finset.Ico 1 month, monthLength year m : Nat) : Int) = daysInYear month +
      if GregorianLeap year ∧ month ≥ 3 then 1 else 0 := by
  intro month hpos hle
  by_cases hleap : GregorianLeap year
  · interval_cases month <;>
      simp [Finset.sum_Ico_succ_top, monthLength, daysInYear, hleap]
  · interval_cases month <;>
      simp [Finset.sum_Ico_succ_top, monthLength, daysInYear, hleap]

/-- The first second of March 2100; the code has a February 29th before it. -/
def centurySecond : Int := 4107542400

/-- The date of a stamp is the one of the calendar up to the year 2100. -/
theorem fieldsOf_civil_iff {seconds : Nat} (h : seconds < 46752 * 86400) :
    IsCivil (1980 + (fieldsOf seconds).year) (fieldsOf seconds).month (fieldsOf seconds).day
        (3652 + seconds / 86400) ↔ epochDiffSec + seconds < centurySecond := by
  obtain ⟨hrange, hdays, hlength⟩ := fieldsOf_spec h
  generalize fieldsOf seconds = f at *
  obtain ⟨hyear, hmonth, hmonth', hday, hday', -, -, -⟩ := hrange
  have hyears := sum_yearLength hyear
  have hmonths := sum_monthLength (1980 + f.year) f.month hmonth hmonth'
  have hleap := leapYears_eq f.year
  have hgregorian : GregorianLeap (1980 + f.year) ↔ IsLeapYear f.year ∧ f.year ≠ 120 := by
    simp only [GregorianLeap]
    omega
  have hcentury : epochDiffSec + seconds < centurySecond ↔ seconds / 86400 < 43889 := by
    have hepoch : epochDiffSec = 315532800 := rfl
    simp only [hepoch, centurySecond]
    omega
  have hmonth_le := daysInYear_le f.month
  have hdecember : f.month = 12 → monthLength (1980 + f.year) f.month = 31 := by
    rintro heq
    simp [monthLength, heq]
  have hshort := monthLength_eq (1980 + f.year) f.month hmonth
  rw [hcentury]
  rcases Nat.lt_trichotomy f.year 120 with hlt | heq | hgt
  · -- the calendar and the code have the same leap years
    have hsame : ∀ p, GregorianLeap (1980 + f.year) ∧ p ↔ IsLeapYear f.year ∧ p := by
      intro p
      simp [hgregorian, hlt.ne]
    simp only [hsame] at hmonths hshort
    simp only [leapSub, leapDay] at hdays hlength
    rw [if_neg (by omega)] at hyears
    refine ⟨fun _ => by omega, fun _ => ⟨hmonth, hmonth', hday, ?_, by omega⟩⟩
    omega
  · -- the code has one day more in February
    have hnot : ¬ GregorianLeap (1980 + f.year) := by
      rw [hgregorian]
      simp [heq]
    have hspring : ∀ month ≤ 12, 3 ≤ month → 59 ≤ daysInYear month := by decide
    simp only [hnot, false_and, if_false] at hmonths hshort
    rw [if_neg (by omega)] at hyears
    by_cases hmarch : 3 ≤ f.month
    · have hbehind := hspring f.month hmonth' hmarch
      rw [leapSub, if_pos (by omega)] at hdays
      refine ⟨fun hcivil => ?_, fun hlt => by omega⟩
      have hcount := hcivil.days_eq
      omega
    · rw [leapSub, if_neg (by omega)] at hdays
      have hfirst : daysInYear 1 = 0 := rfl
      have hsecond : daysInYear 2 = 31 := rfl
      have hsecond' : daysInYear (1 + 1) = 31 := rfl
      have hthird : daysInYear (2 + 1) = 59 := rfl
      refine ⟨fun hcivil => ?_, fun hlt => ⟨hmonth, hmonth', hday, ?_, by omega⟩⟩
      · have hle := hcivil.day_le
        obtain hm | hm : f.month = 1 ∨ f.month = 2 := by omega
        · rw [hm] at hdays
          omega
        · rw [hm] at hdays hshort hle
          omega
      · obtain hm | hm : f.month = 1 ∨ f.month = 2 := by omega
        · rw [hm] at hshort ⊢
          omega
        · rw [hm] at hdays hshort ⊢
          omega
  · -- the code is one day behind
    have hsame : ∀ p, GregorianLeap (1980 + f.year) ∧ p ↔ IsLeapYear f.year ∧ p := by
      intro p
      simp [hgregorian, hgt.ne']
    simp only [hsame] at hmonths
    simp only [leapSub] at hdays
    rw [if_pos hgt] at hyears
    refine ⟨fun hcivil => ?_, fun _ => by omega⟩
    have hcount := hcivil.days_eq
    omega

def readBack (time : Int) : Program Volume Int :=
  exfat2unix (unix2exfat time).date (unix2exfat time).time (unix2exfat time).centisec
    (unix2exfat time).tzoffset

theorem readBack_runs (v : View) {time : Int} (h : time < stampLimit) :
    Runs Shows v (readBack time) (max time epochDiffSec) v := by
  have hstamp := stamp_runs (v := v) h (show stampSecond time % 2 * 100 ≤ 199 by omega)
  have hsum : epochDiffSec + (stampSecond time - stampSecond time % 2) +
      (stampSecond time % 2 * 100 / 100 : Nat) = max time epochDiffSec := by
    simp only [stampSecond]
    omega
  rw [hsum] at hstamp
  simpa only [readBack, unix2exfat_eq h] using hstamp

theorem readBack_lt (v : View) (time : Int) :
    ∃ r v', Runs Shows v (readBack time) r v' ∧ r < stampLimit := by
  refine exfat2unix_lt (Nat.mod_lt _ (by decide)) ?_ ?_
  · simp only [unix2exfat]
    rw [packed_time (by omega) (by omega)]
    omega
  · simp only [unix2exfat]
    omega

/--
A timestamp survives the way to the disk and back if and only if it lies in the 128
years from 1980 on.  Four times its day has to be a number that an `int` can hold.
-/
theorem timestamps_kept_iff {ef : Volume} {v : View} (hshows : Shows ef v) {time : Int}
    (_hdays : time / secInDay < 2 ^ 29) :
    Returns (readBack time) ef time ↔ epochDiffSec ≤ time ∧ time < stampLimit := by
  by_cases hlimit : time < stampLimit
  · have hreturns := (readBack_runs v hlimit).returns hshows
    refine ⟨fun h => ⟨?_, hlimit⟩, fun h => by rwa [max_eq_left h.1] at hreturns⟩
    rw [h.unique hreturns]
    exact le_max_right _ _
  · obtain ⟨r, v', hrun, hr⟩ := readBack_lt v time
    refine ⟨fun h => ?_, fun h => absurd h.2 hlimit⟩
    rw [h.unique (hrun.returns hshows)] at hlimit
    exact absurd hr hlimit

/-- The last second of the 128 years, and the one after it. -/
theorem last_second_kept :
    Returns (readBack 4354905599) smallVolume 4354905599 ∧
      ¬ Returns (readBack 4354905600) smallVolume 4354905600 := by
  constructor
  · exact (timestamps_kept_iff smallVolume_shows (by decide)).mpr (by decide)
  · exact mt (timestamps_kept_iff smallVolume_shows (by decide)).mp (by decide)

/-- The date that a time is stored as is the one of the calendar. -/
def DatedRight (time : Int) : Prop :=
  IsCivil (1980 + (unix2exfat time).date >>> 9) ((unix2exfat time).date >>> 5 &&& 0xf)
    ((unix2exfat time).date &&& 0x1f) (time / secInDay).toNat

/--
Dates are right until the end of February 2100, which the code takes for a leap year.
-/
theorem dates_right_iff {time : Int} (hlow : epochDiffSec ≤ time) (hhigh : time < stampLimit) :
    DatedRight time ↔ time < centurySecond := by
  have hlt := stampSecond_lt hhigh
  have hepoch : epochDiffSec = 315532800 := rfl
  have hsecond : epochDiffSec + stampSecond time = time := by
    simp only [stampSecond]
    omega
  have hday : (time / secInDay).toNat = 3652 + stampSecond time / 86400 := by
    simp only [secInDay, secInHour, secInMin]
    omega
  have hrange := (fieldsOf_spec hlt).1
  have hcivil := fieldsOf_civil_iff hlt
  rw [hsecond] at hcivil
  rw [DatedRight, unix2exfat_eq hhigh, hday, ← hcivil]
  simp only [hrange.date_year, hrange.date_month, hrange.date_day]

/-- The last second of February 2100, and the first one of March. -/
theorem leap_day_2100 : DatedRight 4107542399 ∧ ¬ DatedRight 4107542400 :=
  ⟨(dates_right_iff (by decide) (by decide)).mpr (by decide),
    mt (dates_right_iff (by decide) (by decide)).mp (by decide)⟩

end EntropyOS.Libexfat
