import Shs.Core.Bytes
import Shs.Lib.Calendar

/-!
# Core.GmTime

`time_gmtime`: the date, the time of day and the weekday of a time in seconds. The computation is
in `uint32_t`, with one `int` for the day of the year that begins in March.
-/

namespace Shs
namespace GmTime

open Calendar

/-- A value of type `uint32_t`. -/
def u32 (n : Nat) : Nat := n % 2 ^ 32

def subU32 (a b : Nat) : Nat := u32 (a + 2 ^ 32 - b)

/-- An `int` as an operand of `uint32_t`. -/
def u32OfInt (n : Int) : Nat := (n % 2 ^ 32).toNat

/-- `struct tm`, as far as it is set; months count from 1, and years from 0. -/
structure Tm where
  sec  : Int
  min  : Int
  hour : Int
  mday : Int
  mon  : Int
  year : Int
  wday : Int
  deriving DecidableEq, Repr

/-- The year from 1 March on, and the day in it, before the correction. -/
def gaussYear (days : Nat) : Nat × Int :=
  let year := u32 (u32 (days + 2) * 400) / (365 * 400 + 100 - 4 + 1)
  let before := u32 (subU32 (u32 (u32 (365 * year) + year / 4)) (year / 100) + year / 400)
  (year, toInt32 (subU32 days before))

/-- `if (yday < 0)`. -/
def correctYear (p : Nat × Int) : Nat × Int :=
  if p.2 < 0 then
    let leap := if p.1 % 4 = 0 ∧ (p.1 % 100 ≠ 0 ∨ p.1 % 400 = 0) then 1 else 0
    (subU32 p.1 1, toInt32 (u32 (365 + leap + u32OfInt p.2)))
  else p

/-- The month, the day in it and the year, from the year and the day from 1 March on. -/
def gaussMonth (year : Nat) (yday : Int) : Nat × Nat × Nat :=
  let mon := u32OfInt (((yday + 31) * 10).tdiv 306)
  let mday := u32 (subU32 (u32OfInt yday) (subU32 (u32 (367 * mon) / 12) 30) + 1)
  if yday ≥ 306 then (u32 (year + 1), subU32 mon 10, mday) else (year, u32 (mon + 2), mday)

/-- The year, the month and its day from the days since 1970. -/
def gmDate (days : Nat) : Nat × Nat × Nat :=
  -- days since 1 March of year 0
  let days := u32 (subU32 days (31 + 28) + 719527)
  let p := correctYear (gaussYear days)
  gaussMonth p.1 p.2

def timeGmtime (t : Int) : Tm :=
  let n := u32OfInt t
  let days := n / 86400
  let wday := u32 (4 + days) % 7
  let n := n % 86400
  let hour := n / 3600
  let n := n % 3600
  let min := n / 60
  let sec := n % 60
  let r := gmDate days
  { sec := toInt32 sec, min := toInt32 min, hour := toInt32 hour, mday := toInt32 r.2.2,
    mon := toInt32 r.2.1, year := toInt32 r.1, wday := toInt32 wday }

/-! ## Words -/

theorem u32_of_lt {n : Nat} (h : n < 2 ^ 32) : u32 n = n := Nat.mod_eq_of_lt h

theorem subU32_of_le {a b : Nat} (ha : a < 2 ^ 32) (h : b ≤ a) : subU32 a b = a - b := by
  unfold subU32 u32
  omega

theorem u32OfInt_of_nat {n : Nat} (h : n < 2 ^ 32) : u32OfInt (n : Int) = n := by
  unfold u32OfInt
  omega

theorem toInt32_of_nat {n : Nat} (h : n < 2 ^ 31) : toInt32 (n : Int) = n :=
  toInt32_of_range (by omega) (by omega)

/-- A difference of two words, as an `int`. -/
theorem toInt32_subU32 {a b : Nat} (ha : a < 2 ^ 31) (hb : b < 2 ^ 31) :
    toInt32 (subU32 a b) = (a : Int) - b := by
  have hcast : ((subU32 a b : Nat) : Int) = ((a : Int) - b) % ((2 ^ 32 : Nat) : Int) := by
    unfold subU32 u32
    omega
  rw [hcast, toInt32, Int.emod_bmod]
  exact toInt32_of_range (by omega) (by omega)

/-! ## The year -/

/-- The estimate of the year is off by less than two days. -/
theorem gauss_bounds (y : Nat) : 400 * marchDays y ≤ 146097 * y + 400 ∧
    146097 * y ≤ 400 * marchDays y + 700 := by
  unfold marchDays
  omega

theorem gaussYear_eq {days : Nat} (h : days < 769200) :
    gaussYear days = ((days + 2) * 400 / 146097,
      (days : Int) - marchDays ((days + 2) * 400 / 146097)) := by
  have hyear : (days + 2) * 400 / 146097 < 2107 := by omega
  unfold gaussYear
  rw [u32_of_lt (n := days + 2) (by omega), u32_of_lt (n := (days + 2) * 400) (by omega)]
  show (_, toInt32 (subU32 days _)) = _
  generalize (days + 2) * 400 / (365 * 400 + 100 - 4 + 1) = year at hyear ⊢
  have hbefore : u32 (subU32 (u32 (u32 (365 * year) + year / 4)) (year / 100) + year / 400) =
      marchDays year := by
    rw [u32_of_lt (n := 365 * year) (by omega), u32_of_lt (n := 365 * year + year / 4) (by omega),
      subU32_of_le (by omega) (by omega), u32_of_lt (by omega), marchDays]
  have hmarch : marchDays year < 2 ^ 31 := by
    unfold marchDays
    omega
  rw [hbefore, toInt32_subU32 (by omega) hmarch]

/-- The corrected year and day: `days` counts the days since 1 March of year 0. -/
theorem correctYear_spec {days : Nat} (hlo : 719468 ≤ days) (h : days < 769200) :
    ∃ year yday : Nat, correctYear (gaussYear days) = (year, (yday : Int)) ∧
      days = marchDays year + yday ∧ yday < 365 + leapDays (year + 1) ∧ year < 2107 := by
  rw [gaussYear_eq h]
  obtain ⟨y, hy⟩ : ∃ y, y = (days + 2) * 400 / 146097 := ⟨_, rfl⟩
  have hlow : 146097 * y ≤ (days + 2) * 400 := by omega
  have hhigh : (days + 2) * 400 < 146097 * (y + 1) := by omega
  have hy' : 0 < y ∧ y < 2107 := by omega
  rw [← hy]
  obtain ⟨hbelow, -⟩ := gauss_bounds y
  obtain ⟨-, habove⟩ := gauss_bounds (y + 1)
  have hnext := marchDays_succ y
  rcases Nat.lt_or_ge days (marchDays y) with hlt | hge
  · -- the day belongs to the year before
    obtain ⟨x, rfl⟩ := Nat.exists_eq_succ_of_ne_zero (Nat.ne_of_gt hy'.1)
    rw [Nat.succ_eq_add_one] at *
    have hprev := marchDays_succ x
    have hleap := leapDays_le (x + 1)
    have hleap' : (if (x + 1) % 4 = 0 ∧ ((x + 1) % 100 ≠ 0 ∨ (x + 1) % 400 = 0) then 1 else 0) =
        leapDays (x + 1) := by
      simp [leapDays, isLeap]
    refine ⟨x, days - marchDays x, ?_, by omega, by omega, by omega⟩
    rw [correctYear, if_pos (by omega)]
    simp only [hleap']
    rw [subU32_of_le (by omega) (by omega), Nat.add_sub_cancel, Prod.mk.injEq]
    refine ⟨rfl, ?_⟩
    have hword : u32 (365 + leapDays (x + 1) + u32OfInt ((days : Int) - marchDays (x + 1))) =
        days - marchDays x := by
      unfold u32 u32OfInt
      omega
    rw [hword, toInt32_of_nat (by omega)]
  · refine ⟨y, days - marchDays y, ?_, by omega, by omega, hy'.2⟩
    rw [correctYear, if_neg (by omega), Nat.cast_sub hge]

/-! ## The month -/

/-- Day `d` of month `m` is day `n` of the year. -/
def InMonth (leap m d n : Nat) : Prop :=
  1 ≤ m ∧ m ≤ 12 ∧ 1 ≤ d ∧ d ≤ monthLength leap m ∧ daysBeforeMonth leap m + (d - 1) = n

instance (leap m d n : Nat) : Decidable (InMonth leap m d n) :=
  inferInstanceAs (Decidable (_ ∧ _))

/-- The month counted from February, and the day in it. -/
def marchMonth (yday : Nat) : Nat := (yday + 31) * 10 / 306

def marchDay (yday : Nat) : Nat := yday + 31 - 367 * marchMonth yday / 12

/-- The days up to the end of December are in the year that the count began in. -/
theorem from_march : ∀ leap ≤ 1, ∀ yday < 306,
    InMonth leap (marchMonth yday + 2) (marchDay yday) (yday + 59 + leap) := by
  decide +kernel

/-- The other ones are in the next year. -/
theorem from_january : ∀ leap ≤ 1, ∀ n < 59 + leap,
    InMonth leap (marchMonth (n + 306) - 10) (marchDay (n + 306)) n := by
  decide +kernel

theorem gaussMonth_eq {year yday : Nat} (h : yday < 366) (hy : year < 2 ^ 31) :
    gaussMonth year (yday : Int) =
      if yday ≥ 306 then (year + 1, marchMonth yday - 10, marchDay yday)
      else (year, marchMonth yday + 2, marchDay yday) := by
  have hmon : u32OfInt ((((yday : Nat) : Int) + 31) * 10 |>.tdiv 306) = marchMonth yday := by
    have hnat : (((yday : Int) + 31) * 10).tdiv 306 = (marchMonth yday : Nat) := by
      rw [Int.tdiv_eq_ediv_of_nonneg (by omega), marchMonth]
      omega
    rw [hnat, u32OfInt_of_nat (by unfold marchMonth; omega)]
  have hlow : 1 ≤ marchMonth yday := by
    unfold marchMonth
    omega
  have hhigh : marchMonth yday ≤ 12 := by
    unfold marchMonth
    omega
  have hmday : u32 (subU32 (u32OfInt yday) (subU32 (u32 (367 * marchMonth yday) / 12) 30) + 1) =
      marchDay yday := by
    rw [u32OfInt_of_nat (by omega), u32_of_lt (n := 367 * marchMonth yday) (by omega)]
    unfold u32 subU32 u32 marchDay marchMonth
    omega
  unfold gaussMonth
  simp only [hmon, hmday]
  by_cases hge : yday ≥ 306
  · have hten : 10 ≤ marchMonth yday := by
      unfold marchMonth
      omega
    rw [if_pos (by omega), if_pos hge, u32_of_lt (by omega), subU32_of_le (by omega) hten]
  · rw [if_neg (by omega), if_neg hge, u32_of_lt (by omega)]

theorem InMonth.day_le {leap m d n : Nat} (h : InMonth leap m d n) : d ≤ 28 + 3 + leap := by
  obtain ⟨-, -, -, hd, -⟩ := h
  unfold monthLength at hd
  split at hd
  · omega
  · omega
  · omega
  · omega
  · omega
  · omega

/-- The date behind the year and the day from 1 March on. -/
theorem gaussMonth_spec {year yday : Nat} (hday : yday < 365 + leapDays (year + 1))
    (hyear : year < 2107) :
    ∃ y m d, gaussMonth year (yday : Int) = (y, m, d) ∧ IsDate y m d ∧ y ≤ 2107 ∧ d ≤ 32 ∧
      dayNumber y m d = marchDays year + yday + 60 := by
  have hleap := leapDays_le year
  have hleap' := leapDays_le (year + 1)
  have heq := @gaussMonth_eq year yday (by omega) (by omega)
  rcases Nat.lt_or_ge yday 306 with hlt | hge
  · rw [if_neg (by omega)] at heq
    have hin := from_march (leapDays year) hleap yday hlt
    have hd := hin.day_le
    obtain ⟨hm, hm', hd₁, hd₂, hn⟩ := hin
    have hfirst := daysBeforeYear_march year
    refine ⟨_, _, _, heq, ⟨hm, hm', hd₁, hd₂⟩, by omega, by omega, ?_⟩
    rw [dayNumber, Nat.add_assoc, hn]
    omega
  · rw [if_pos hge] at heq
    obtain ⟨n, rfl⟩ := Nat.exists_eq_add_of_le' hge
    have hin := from_january (leapDays (year + 1)) hleap' n (by omega)
    have hd := hin.day_le
    obtain ⟨hm, hm', hd₁, hd₂, hn⟩ := hin
    have hfirst := daysBeforeYear_march (year + 1)
    have hnext := marchDays_succ year
    refine ⟨_, _, _, heq, ⟨hm, hm', hd₁, hd₂⟩, by omega, by omega, ?_⟩
    rw [dayNumber, Nat.add_assoc, hn]
    omega

/-! ## The time -/

/-- The fields are a date of the calendar, a time of day and its weekday, and stand for the time that
they were made from. -/
structure Converts (t : Int) (tm : Tm) : Prop where
  fields : ∃ y m d hour min sec : Nat,
    tm = { sec := sec, min := min, hour := hour, mday := d, mon := m, year := y,
           wday := weekday y m d } ∧
    IsDate y m d ∧ hour < 24 ∧ min < 60 ∧ sec < 60 ∧ secondsSince1970 y m d hour min sec = t

theorem weekday_eq {days y m d : Nat} (h : dayNumber y m d = days + epochDay) (hd : days < 2 ^ 16) :
    toInt32 ((u32 (4 + days) % 7 : Nat) : Int) = weekday y m d := by
  rw [toInt32_of_nat (by omega), u32_of_lt (by omega), weekday, h]
  omega

theorem seconds_eq {n y m d : Nat} (h : dayNumber y m d = n / 86400 + epochDay) :
    secondsSince1970 y m d (n % 86400 / 3600) (n % 86400 % 3600 / 60) (n % 86400 % 3600 % 60) = n := by
  rw [secondsSince1970, h]
  omega

/-- The days since 1 March of year 0. -/
theorem march_shift {days : Nat} (h : days < 2 ^ 16) :
    u32 (subU32 days (31 + 28) + 719527) = days + 719468 := by
  unfold u32 subU32 u32
  omega

theorem gmDate_spec {days : Nat} (h : days < 49711) :
    ∃ y m d, gmDate days = (y, m, d) ∧ IsDate y m d ∧ y < 2 ^ 31 ∧ d < 2 ^ 31 ∧
      dayNumber y m d = days + epochDay := by
  have hshift := @march_shift days (by omega)
  obtain ⟨year, yday, hyear, hsum, hyday, hle⟩ :=
    @correctYear_spec (days + 719468) (by omega) (by omega)
  obtain ⟨y, m, d, hmonth, hdate, hy, hd, hnumber⟩ := gaussMonth_spec hyday hle
  have hgm : gmDate days = gaussMonth year yday := by
    rw [gmDate, hshift, hyear]
  refine ⟨y, m, d, hgm.trans hmonth, hdate, by omega, by omega, ?_⟩
  rw [hnumber, ← hsum]
  rfl

theorem gmtime_converts (t : Int) (h0 : 0 ≤ t) (h : t < 2 ^ 32) : Converts t (timeGmtime t) := by
  obtain ⟨n, rfl⟩ := Int.eq_ofNat_of_zero_le h0
  have hn : n < 2 ^ 32 := by omega
  have hdays : n / 86400 < 49711 := by omega
  obtain ⟨y, m, d, hgm, hdate, hy, hd, hnumber⟩ := gmDate_spec hdays
  have hm := hdate.month_le
  have hweek := weekday_eq hnumber (by omega)
  refine ⟨y, m, d, n % 86400 / 3600, n % 86400 % 3600 / 60, n % 86400 % 3600 % 60, ?_, hdate,
    by omega, by omega, by omega, seconds_eq hnumber⟩
  rw [timeGmtime, u32OfInt_of_nat hn, hgm, hweek,
    toInt32_of_nat (n := n % 86400 % 3600 % 60) (by omega),
    toInt32_of_nat (n := n % 86400 % 3600 / 60) (by omega),
    toInt32_of_nat (n := n % 86400 / 3600) (by omega), toInt32_of_nat hd,
    toInt32_of_nat (n := m) (by omega), toInt32_of_nat hy]

/-- The last second that the conversion knows. -/
theorem gmtime_converts_last : Converts 4294967295 (timeGmtime 4294967295) :=
  gmtime_converts 4294967295 (by decide) (by decide)

end GmTime
end Shs
