import Mathlib.Tactic.IntervalCases
import Mathlib.Data.List.GetD
import En675.Lib.CString

/-! The time of the PCF8563 (`pcf8563_set_datetime`, `pcf8563_get_datetime`): what a set time reads back as,
and what a rejected one leaves.  The chip is its time registers; it acknowledges every octet. -/

namespace En675.Dev.Pcf8563

open Lib

/-- The fields of `struct tm` that are used. -/
structure Tm where
  sec : Int
  min : Int
  hour : Int
  mday : Int
  mon : Int
  year : Int
  wday : Int
  isdst : Int
  deriving DecidableEq

structure Regs where
  seconds : UInt8
  minutes : UInt8
  hours : UInt8
  dayOfMonth : UInt8
  weekday : UInt8
  month : UInt8
  year : UInt8
  deriving DecidableEq

/-- A 32-bit `int`. -/
def IsInt (n : Int) : Prop := -2 ^ 31 ≤ n ∧ n < 2 ^ 31

structure Tm.Ints (t : Tm) : Prop where
  sec : IsInt t.sec
  min : IsInt t.min
  hour : IsInt t.hour
  mday : IsInt t.mday
  mon : IsInt t.mon
  year : IsInt t.year
  wday : IsInt t.wday

section code

def unsigned (n : Int) : Int := n % 2 ^ 32

def isLeapYear (year : Int) : Prop := (year % 4 = 0 ∧ year % 100 ≠ 0) ∨ year % 400 = 0

instance (year : Int) : Decidable (isLeapYear year) := inferInstanceAs (Decidable (_ ∨ _))

def bcd2bin (val : Int) : Int := val % 16 + val / 16 * 10

def bin2bcd (val : Int) : Int := val.tdiv 10 * 16 + val.tmod 10

def rtcDaysInMonth : List Int := [31, 28, 31, 30, 31, 30, 31, 31, 30, 31, 30, 31]

def rtcMonthDays (month year : Int) : Int :=
  rtcDaysInMonth.getD month.toNat 0 + if isLeapYear year ∧ month = 1 then 1 else 0

/-- What `rtc_valid_tm` returns. -/
def Valid (t : Tm) : Prop :=
  ¬ (t.year < 70 ∨ 12 ≤ unsigned t.mon ∨ t.mday < 1 ∨
    rtcMonthDays (unsigned t.mon) (unsigned (toInt32 (t.year + 1900))) < t.mday ∨
    24 ≤ unsigned t.hour ∨ 60 ≤ unsigned t.min ∨ 60 ≤ unsigned t.sec)

instance (t : Tm) : Decidable (Valid t) := inferInstanceAs (Decidable (¬ _))

/-- What it returns, and what it makes of the caller's structure. -/
def rtcValidTm (t : Tm) : Bool × Tm :=
  let t := { t with isdst := 1 }
  (decide (Valid t), t)

def octet (n : Int) : UInt8 := UInt8.ofNat (n % 256).toNat

def writeTm (t : Tm) : Regs :=
  ⟨octet t.sec, octet t.min, octet t.hour, octet t.mday, octet t.wday, octet t.mon, octet t.year⟩

def readTm (regs : Regs) (t : Tm) : Tm :=
  { t with
    sec := regs.seconds.toNat
    min := regs.minutes.toNat
    hour := regs.hours.toNat
    mday := regs.dayOfMonth.toNat
    wday := regs.weekday.toNat
    mon := regs.month.toNat
    year := regs.year.toNat }

/-- The masks are those of the low bits. -/
def getDatetime (regs : Regs) (t : Tm) : Bool × Tm :=
  let t := readTm regs t
  let t := { t with year := bcd2bin t.year + if t.mon / 128 % 2 = 1 then 100 else 0 }
  let t := { t with
    sec := bcd2bin (t.sec % 128)
    min := bcd2bin (t.min % 128)
    hour := bcd2bin (t.hour % 64)
    mday := bcd2bin (t.mday % 64)
    mon := bcd2bin (t.mon % 32) }
  let t := { t with mon := t.mon - 1 }
  rtcValidTm t

def daysInMonth : List Int := [0, 31, 28, 31, 30, 31, 30, 31, 31, 30, 31, 30, 31]

/-- The second checks, on the year of the calendar and the month from 1. -/
def Insane (t : Tm) : Prop :=
  let leap : Int := if t.mon = 2 ∧ (t.year.tmod 4 = 0 ∧ t.year.tmod 100 ≠ 0 ∨ t.year.tmod 400 = 0) then 1 else 0
  t.year < 1970 ∨ t.mon > 12 ∨ t.mday = 0 ∨ t.mday > daysInMonth.getD t.mon.toNat 0 + leap ∨
    t.wday ≥ 7 ∨ t.hour ≥ 24 ∨ t.min ≥ 60 ∨ t.sec ≥ 60

instance (t : Tm) : Decidable (Insane t) := inferInstanceAs (Decidable (_ ∨ _))

/-- The structure that is written: in BCD, with the century in the month. -/
def encode (t : Tm) : Tm :=
  let century : Nat := if t.year ≥ 2000 then 0x80 else 0
  let t := { t with year := t.year.tmod 100 }
  let t := { t with
    year := bin2bcd t.year
    mon := bin2bcd t.mon
    mday := bin2bcd t.mday
    hour := bin2bcd t.hour
    min := bin2bcd t.min
    sec := bin2bcd t.sec }
  { t with mon := (t.mon.toNat ||| century : Nat) }

/-- What is returned, the caller's structure, and the registers. -/
def setDatetime (t : Tm) (regs : Regs) : Bool × Tm × Regs :=
  let (ok, t) := rtcValidTm t
  if !ok then (false, t, regs)
  else
    let t := { t with year := toInt32 (t.year + 1900), mon := t.mon + 1 }
    if Insane t then (false, t, regs)
    else
      let t := encode t
      (true, t, writeTm t)

end code

section spec

/-- The same time. -/
structure Same (t u : Tm) : Prop where
  year : u.year = t.year
  mon : u.mon = t.mon
  mday : u.mday = t.mday
  wday : u.wday = t.wday
  hour : u.hour = t.hour
  min : u.min = t.min
  sec : u.sec = t.sec

/-- An accepted time is read back; a rejected one is left as it was, and so are the registers. -/
def RoundTrips (t : Tm) (regs : Regs) : Prop :=
  match setDatetime t regs with
  | (true, _, regs') => ∀ u, (getDatetime regs' u).1 = true ∧ Same t (getDatetime regs' u).2
  | (false, t', regs') => t' = t ∧ regs' = regs

end spec

section bcd

variable {n : Int}

theorem bin2bcd_eq (h : 0 ≤ n) : bin2bcd n = n / 10 * 16 + n % 10 := by
  rw [bin2bcd, Int.tdiv_eq_ediv_of_nonneg h, Int.tmod_eq_emod_of_nonneg h]

/-- Two digits and back. -/
theorem bcd2bin_bin2bcd (h : 0 ≤ n) : bcd2bin (bin2bcd n) = n := by
  rw [bin2bcd_eq h, bcd2bin]
  omega

theorem octet_toNat (h : 0 ≤ n) (lt : n < 256) : ((octet n).toNat : Int) = n := by
  rw [octet, UInt8.toNat_ofNat', Int.emod_eq_of_lt h lt]
  omega

/-- A field of at most two digits through its register, masked by the bits it has. -/
theorem bcd_register (h : 0 ≤ n) (lt : n < 100) (mask : Int) (fits : bin2bcd n < mask) :
    bcd2bin (((octet (bin2bcd n)).toNat : Int) % mask) = n := by
  have lower : 0 ≤ bin2bcd n := by
    rw [bin2bcd_eq h]
    omega
  have upper : bin2bcd n < 256 := by
    rw [bin2bcd_eq h]
    omega
  rw [octet_toNat lower upper, Int.emod_eq_of_lt lower fits, bcd2bin_bin2bcd h]

/-- The century does not meet the digits of a month. -/
theorem month_register (h : 0 ≤ n) (lt : n < 12) {century : Nat} (hc : century = 0 ∨ century = 0x80) :
    ((octet ((bin2bcd (n + 1)).toNat ||| century : Nat)).toNat : Int) = bin2bcd (n + 1) + century := by
  interval_cases n <;> rcases hc with rfl | rfl <;> decide

end bcd

section valid

variable {t : Tm}

/-- The ranges that are checked. -/
structure Ranges (t : Tm) : Prop where
  year : 70 ≤ t.year
  mon : 0 ≤ t.mon ∧ t.mon < 12
  mday : 1 ≤ t.mday ∧ t.mday ≤ 31
  days : t.mday ≤ rtcMonthDays t.mon (unsigned (toInt32 (t.year + 1900)))
  hour : 0 ≤ t.hour ∧ t.hour < 24
  min : 0 ≤ t.min ∧ t.min < 60
  sec : 0 ≤ t.sec ∧ t.sec < 60

theorem unsigned_of_nonneg {n : Int} (h : 0 ≤ n) (lt : n < 2 ^ 32) : unsigned n = n := Int.emod_eq_of_lt h lt

theorem lt_of_unsigned {n k : Int} (int : IsInt n) (hk : k ≤ 2 ^ 31) (h : unsigned n < k) : 0 ≤ n ∧ n < k := by
  unfold IsInt at int
  unfold unsigned at h
  omega

theorem rtcDaysInMonth_le (n : Nat) : rtcDaysInMonth.getD n 0 ≤ 31 := by
  rcases Nat.lt_or_ge n rtcDaysInMonth.length with lt | ge
  · rw [List.getD_eq_getElem _ _ lt]
    exact (by decide : ∀ d ∈ rtcDaysInMonth, d ≤ 31) _ (List.getElem_mem lt)
  · rw [List.getD_eq_default _ _ ge]
    decide

theorem rtcMonthDays_le (month year : Int) : rtcMonthDays month year ≤ 31 := by
  unfold rtcMonthDays
  split
  case isTrue feb =>
    rw [feb.2]
    decide
  case isFalse => exact (Int.add_zero _).le.trans (rtcDaysInMonth_le _)

theorem valid_iff (ints : t.Ints) : Valid t ↔ Ranges t := by
  have wide {n k : Int} (int : IsInt n) (hn : 0 ≤ n ∧ n < k) : unsigned n < k := by
    unfold IsInt at int
    rw [unsigned_of_nonneg hn.1 (by omega)]
    exact hn.2
  unfold Valid
  simp only [not_or, not_le, not_lt]
  constructor
  · rintro ⟨year, mon, mday, days, hour, min, sec⟩
    have month := lt_of_unsigned ints.mon (by decide) mon
    have same : unsigned t.mon = t.mon := unsigned_of_nonneg month.1 (by omega)
    rw [same] at days
    exact ⟨year, month, ⟨mday, days.trans (rtcMonthDays_le _ _)⟩, days, lt_of_unsigned ints.hour (by decide) hour,
      lt_of_unsigned ints.min (by decide) min, lt_of_unsigned ints.sec (by decide) sec⟩
  · rintro ⟨year, mon, mday, days, hour, min, sec⟩
    have same : unsigned t.mon = t.mon := unsigned_of_nonneg mon.1 (by omega)
    refine ⟨year, wide ints.mon mon, mday.1, ?_, wide ints.hour hour, wide ints.min min, wide ints.sec sec⟩
    rw [same]
    exact days

/-- The two tables, from month 0 and from month 1, and the two ways to find the leap day. -/
theorem daysInMonth_eq {month year : Int} (h : 0 ≤ month) (hy : 0 ≤ year) :
    (daysInMonth.getD (month + 1).toNat 0 +
        if month + 1 = 2 ∧ (year.tmod 4 = 0 ∧ year.tmod 100 ≠ 0 ∨ year.tmod 400 = 0) then 1 else 0) =
      rtcMonthDays month year := by
  have days : daysInMonth.getD (month + 1).toNat 0 = rtcDaysInMonth.getD month.toNat 0 := by
    rw [show (month + 1).toNat = month.toNat + 1 by omega]
    rfl
  have feb : month + 1 = 2 ↔ month = 1 := by omega
  simp only [days, rtcMonthDays, isLeapYear, feb, Int.tmod_eq_emod_of_nonneg hy, and_comm]

/-- The structure when the second checks are made. -/
def Tm.calendar (t : Tm) : Tm := { t with year := toInt32 (t.year + 1900), mon := t.mon + 1, isdst := 1 }

theorem insane_iff (ints : t.Ints) (r : Ranges t) :
    Insane t.calendar ↔ 7 ≤ t.wday ∨ 2 ^ 31 ≤ t.year + 1900 := by
  have year := r.year
  have int := ints.year
  unfold IsInt at int
  by_cases wraps : 2 ^ 31 ≤ t.year + 1900
  · have early : toInt32 (t.year + 1900) < 1970 := by
      unfold toInt32
      omega
    exact iff_of_true (.inl early) (.inr wraps)
  · have plain : toInt32 (t.year + 1900) = t.year + 1900 := by
      unfold toInt32
      omega
    have days := r.days
    rw [plain, unsigned_of_nonneg (by omega) (by omega)] at days
    obtain ⟨mon, mday, hour, min, sec⟩ := (⟨r.mon, r.mday, r.hour, r.min, r.sec⟩ : _ ∧ _ ∧ _ ∧ _ ∧ _)
    unfold Insane Tm.calendar
    simp only [plain, daysInMonth_eq mon.1 (by omega : 0 ≤ t.year + 1900)]
    omega

end valid

section readback

variable {t u : Tm} {regs : Regs}

/-- The time that is read back, with two digits of the year and one of the century. -/
def Tm.readback (t : Tm) : Tm :=
  { t with
    year := (t.year + 1900) % 100 + if 2000 ≤ t.year + 1900 then 100 else 0
    wday := (octet t.wday).toNat
    isdst := 1 }

theorem getDatetime_written (r : Ranges t) (wraps : t.year + 1900 < 2 ^ 31) (u : Tm) :
    getDatetime (writeTm (encode t.calendar)) u = rtcValidTm t.readback := by
  obtain ⟨year, mon, mday, -, hour, min, sec⟩ := r
  have plain : toInt32 (t.year + 1900) = t.year + 1900 := by
    unfold toInt32
    omega
  have two (n : Int) (h : 0 ≤ n) : bin2bcd n = n / 10 * 16 + n % 10 := bin2bcd_eq h
  have sec' := bcd_register sec.1 (by omega) 128 (by rw [two _ sec.1]; omega)
  have min' := bcd_register min.1 (by omega) 128 (by rw [two _ min.1]; omega)
  have hour' := bcd_register hour.1 (by omega) 64 (by rw [two _ hour.1]; omega)
  have mday' := bcd_register (show 0 ≤ t.mday by omega) (by omega) 64 (by rw [two _ (by omega)]; omega)
  have digits : 0 ≤ (t.year + 1900).tmod 100 ∧ (t.year + 1900).tmod 100 < 100 := by
    rw [Int.tmod_eq_emod_of_nonneg (by omega)]
    omega
  have year' := bcd_register digits.1 digits.2 256 (by rw [two _ digits.1]; omega)
  rw [Int.emod_eq_of_lt (Int.natCast_nonneg _) (by have := (octet (bin2bcd ((t.year + 1900).tmod 100))).toNat_lt; omega)]
    at year'
  rw [Int.tmod_eq_emod_of_nonneg (by omega)] at year'
  have month := two (t.mon + 1) (by omega)
  have back := bcd2bin_bin2bcd (show 0 ≤ t.mon + 1 by omega)
  have low (century : Int) (h : century = 0 ∨ century = 128) :
      (bin2bcd (t.mon + 1) + century) % 32 = bin2bcd (t.mon + 1) := by omega
  unfold getDatetime readTm writeTm encode Tm.calendar Tm.readback
  simp only [plain, sec', min', hour', mday', ge_iff_le]
  have calendar : 0 ≤ t.year + 1900 := by omega
  by_cases late : 2000 ≤ t.year + 1900
  · have one : (bin2bcd (t.mon + 1) + 128) / 128 = 1 := by omega
    have bit : (bin2bcd (t.mon + 1) + 128) / 128 % 2 = 1 := by rw [one]; decide
    simp only [if_pos late, month_register mon.1 mon.2 (.inr rfl), Nat.cast_ofNat, low 128 (.inr rfl), back, bit,
      Int.tmod_eq_emod_of_nonneg calendar, year', if_true, Int.add_sub_cancel]
    rfl
  · have none : (bin2bcd (t.mon + 1) + 0) / 128 = 0 := by omega
    have bit : ¬ (bin2bcd (t.mon + 1) + 0) / 128 % 2 = 1 := by rw [none]; decide
    simp only [if_neg late, month_register mon.1 mon.2 (.inl rfl), Nat.cast_zero, low 0 (.inl rfl), back, bit,
      Int.tmod_eq_emod_of_nonneg calendar, year', if_false, Int.add_sub_cancel]
    rfl

/-- A year below 2100 and a weekday from 0 on are read back. -/
theorem readback_same_iff (r : Ranges t) (wday : t.wday < 7) :
    Same t t.readback ↔ 0 ≤ t.wday ∧ t.year < 200 := by
  have year := r.year
  constructor
  · intro same
    have w := same.wday
    have y := same.year
    unfold Tm.readback at w y
    dsimp only at w y
    refine ⟨by omega, ?_⟩
    split at y <;> omega
  · rintro ⟨nonneg, low⟩
    refine ⟨?_, rfl, rfl, octet_toNat nonneg (by omega), rfl, rfl, rfl⟩
    unfold Tm.readback
    dsimp only
    split <;> omega

theorem Same.valid_iff (h : Same t u) : Valid u ↔ Valid t := by
  unfold Valid
  rw [h.year, h.mon, h.mday, h.hour, h.min, h.sec]

end readback

theorem setDatetime_invalid {t : Tm} (h : ¬ Valid t) (regs : Regs) :
    setDatetime t regs = (false, { t with isdst := 1 }, regs) := by
  have no : decide (Valid { t with isdst := 1 }) = false := decide_eq_false h
  simp only [setDatetime, rtcValidTm, no]
  rfl

theorem setDatetime_valid {t : Tm} (h : Valid t) (regs : Regs) : setDatetime t regs =
    if Insane t.calendar then (false, t.calendar, regs)
    else (true, encode t.calendar, writeTm (encode t.calendar)) := by
  have yes : decide (Valid { t with isdst := 1 }) = true := decide_eq_true h
  simp only [setDatetime, rtcValidTm, yes]
  rfl

/-- When a time makes the round trip, or is rejected without a trace. -/
theorem rtc_round_trip_iff (t : {t : Tm // t.Ints}) (regs : Regs) : RoundTrips t.1 regs ↔
    if Valid t.1 then 0 ≤ t.1.wday ∧ t.1.wday < 7 ∧ t.1.year < 200 else t.1.isdst = 1 := by
  obtain ⟨t, ints⟩ := t
  unfold RoundTrips
  by_cases valid : Valid t
  · have r := (valid_iff ints).1 valid
    have insane := insane_iff ints r
    rw [setDatetime_valid valid, if_pos valid]
    by_cases h : Insane t.calendar
    · rw [if_pos h]
      have late := insane.1 h
      dsimp only
      refine iff_of_false (fun same => ?_) (by omega)
      have month : t.mon + 1 = t.mon := congrArg Tm.mon same.1
      omega
    · rw [if_neg h]
      rw [insane, not_or, not_le, not_le] at h
      have same := readback_same_iff r h.1
      have back : ∀ u, getDatetime (writeTm (encode t.calendar)) u = rtcValidTm t.readback :=
        getDatetime_written r h.2
      simp only [back]
      constructor
      · intro all
        obtain ⟨nonneg, low⟩ := same.1 (all t).2
        exact ⟨nonneg, h.1, low⟩
      · rintro ⟨nonneg, -, low⟩ -
        have same := same.2 ⟨nonneg, low⟩
        exact ⟨decide_eq_true (same.valid_iff.2 valid), same⟩
  · rw [setDatetime_invalid valid, if_neg valid]
    constructor
    · rintro ⟨same, -⟩
      exact (congrArg Tm.isdst same).symm
    · intro isdst
      exact ⟨by rw [← isdst], rfl⟩

def blank : Regs := ⟨0, 0, 0, 0, 0, 0, 0⟩

/-- Noon of 29 February 2104. -/
def leapDay : Tm := ⟨0, 0, 12, 29, 1, 204, 5, 0⟩

/-- Noon of 1 January 2020, with 7 for the day of the week. -/
def seventh : Tm := ⟨0, 0, 12, 1, 0, 120, 7, 0⟩

theorem rtc_breaks :
    setDatetime seventh blank = (false, { seventh with mon := 1, year := 2020, isdst := 1 }, blank) ∧
      ¬ RoundTrips seventh blank ∧ (setDatetime leapDay blank).1 = true ∧
      (getDatetime (setDatetime leapDay blank).2.2 leapDay).2.year = 104 ∧ ¬ RoundTrips leapDay blank := by
  refine ⟨by decide, fun h => ?_, by decide, by decide, fun h => ?_⟩
  · exact absurd (congrArg Tm.year h.1) (by decide)
  · exact absurd (h leapDay).2.year (by decide)

end En675.Dev.Pcf8563
