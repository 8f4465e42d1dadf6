import Mathlib.Algebra.Order.Ring.Nat

/-!
# Lib.Calendar

The proleptic Gregorian calendar: leap years, the lengths of months, and the number of a day. Days
are counted from 1 January of year 0, and in years that begin on 1 March, where the leap day is the
last day of its year.
-/

namespace Shs
namespace Calendar

def isLeap (y : Nat) : Bool := y % 4 == 0 && (y % 100 != 0 || y % 400 == 0)

/-- The leap days of a year. -/
def leapDays (y : Nat) : Nat := if isLeap y then 1 else 0

/-- The days of month `m` in a year with `leap` leap days. -/
def monthLength (leap : Nat) : Nat → Nat
  | 2 => 28 + leap
  | 4 | 6 | 9 | 11 => 30
  | _ => 31

/-- The days of a year in front of month `m`. -/
def daysBeforeMonth (leap m : Nat) : Nat :=
  ((List.range m).map fun k => if k = 0 then 0 else monthLength leap k).sum

/-- The days in front of a year, from year 0 on. -/
def daysBeforeYear : Nat → Nat
  | 0 => 0
  | y + 1 => daysBeforeYear y + (365 + leapDays y)

/-- The number of a day; 1 January of year 0 is 0. -/
def dayNumber (y m d : Nat) : Nat := daysBeforeYear y + daysBeforeMonth (leapDays y) m + (d - 1)

/-- The number of 1 January 1970. -/
def epochDay : Nat := 719528

/-- Seconds since 1 January 1970. -/
def secondsSince1970 (y m d hour min sec : Nat) : Int :=
  ((dayNumber y m d : Int) - epochDay) * 86400 + hour * 3600 + min * 60 + sec

/-- 1 January 1970 was a Thursday; Sunday is 0. -/
def weekday (y m d : Nat) : Int := ((dayNumber y m d : Int) - epochDay + 4) % 7

/-- A day that the calendar has. -/
structure IsDate (y m d : Nat) : Prop where
  month_pos : 1 ≤ m
  month_le  : m ≤ 12
  day_pos   : 1 ≤ d
  day_le    : d ≤ monthLength (leapDays y) m

theorem leapDays_le (y : Nat) : leapDays y ≤ 1 := by
  unfold leapDays
  split
  · exact Nat.le_refl 1
  · exact Nat.zero_le 1

/-- The leap days among the years, by their division. -/
theorem leapDays_eq (y : Nat) :
    (y + 1) / 4 + y / 100 + (y + 1) / 400 =
      y / 4 + (y + 1) / 100 + y / 400 + leapDays (y + 1) := by
  unfold leapDays isLeap
  by_cases h4 : (y + 1) % 4 = 0
  · by_cases h100 : (y + 1) % 100 = 0
    · by_cases h400 : (y + 1) % 400 = 0
      · simp only [h4, h100, h400, BEq.rfl, bne_self_eq_false, Bool.or_true, Bool.and_true, if_true]
        omega
      · have hne : ((y + 1) % 400 == 0) = false := by simpa using h400
        simp only [h4, h100, hne, BEq.rfl, bne_self_eq_false, Bool.or_self, Bool.and_false,
          Bool.false_eq_true, if_false]
        omega
    · have hne : ((y + 1) % 100 != 0) = true := by simpa using h100
      simp only [h4, hne, BEq.rfl, Bool.true_or, Bool.and_true, if_true]
      omega
  · have hne : ((y + 1) % 4 == 0) = false := by simpa using h4
    simp only [hne, Bool.false_and, Bool.false_eq_true, if_false]
    omega

/-! ## Years from March -/

/-- The days from 1 March of year 0 to 1 March of year `y`. -/
def marchDays (y : Nat) : Nat := 365 * y + y / 4 - y / 100 + y / 400

theorem marchDays_succ (y : Nat) : marchDays (y + 1) = marchDays y + 365 + leapDays (y + 1) := by
  have h := leapDays_eq y
  unfold marchDays
  omega

/-- 1 March of a year behind January, February and the leap day. -/
theorem daysBeforeYear_march (y : Nat) : daysBeforeYear y + 59 + leapDays y = marchDays y + 60 := by
  induction y with
  | zero => decide
  | succ y ih =>
    rw [daysBeforeYear, marchDays_succ]
    omega

/-- 1 January of a year that is no leap year. -/
theorem dayNumber_january {y : Nat} (h : leapDays y = 0) : dayNumber y 1 1 = marchDays y + 1 := by
  have hmarch := daysBeforeYear_march y
  have hmonth : daysBeforeMonth 0 1 = 0 := rfl
  rw [dayNumber, h, hmonth]
  omega

theorem dayNumber_epoch : dayNumber 1970 1 1 = epochDay :=
  (dayNumber_january (by decide)).trans (by decide)

end Calendar
end Shs
