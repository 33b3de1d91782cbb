import Mathlib.Algebra.Order.Floor.Semiring
import Mathlib.Data.Nat.Find
import Mathlib.Data.Rat.Floor

/-!
# Days and months

Where the day and the month of an instant began: `date_trunc('day', …)` and
`date_trunc('month', …)`. The time zone of the session is a parameter, since all that
is used is that a later instant never lies in an earlier day or month.
-/
namespace AgenticPlatform.Foundation

/-- Instants are seconds. -/
structure Calendar where
  dayStart : ℚ → ℚ
  monthStart : ℚ → ℚ
  dayStart_mono : Monotone dayStart
  monthStart_mono : Monotone monthStart

namespace Gregorian

/-! ## The Gregorian calendar in UTC, from 1970 on -/

def leapYear (year : Nat) : Bool := year % 4 = 0 && (year % 100 ≠ 0 || year % 400 = 0)

/-- Months are counted from January 1970. -/
def daysInMonth (month : Nat) : Nat :=
  match month % 12 with
  | 1 => if leapYear (1970 + month / 12) then 29 else 28
  | 3 | 5 | 8 | 10 => 30
  | _ => 31

def daysBefore : Nat → Nat
  | 0 => 0
  | month + 1 => daysBefore month + daysInMonth month

def day (t : ℚ) : Nat := ⌊t / 86400⌋₊

/-- The last month that had begun by this day. -/
def month (d : Nat) : Nat := Nat.findGreatest (fun m => daysBefore m ≤ d) d

theorem daysBefore_mono : Monotone daysBefore := by
  apply monotone_nat_of_le_succ
  intro m
  exact Nat.le_add_right _ _

theorem day_mono : Monotone day := by
  intro t u h
  apply Nat.floor_mono
  exact div_le_div_of_nonneg_right h (by norm_num)

theorem month_mono : Monotone month := by
  intro d e h
  exact Nat.findGreatest_mono (fun m hm => Nat.le_trans hm h) h

end Gregorian

def Calendar.gregorian : Calendar where
  dayStart t := 86400 * (Gregorian.day t : ℚ)
  monthStart t := 86400 * (Gregorian.daysBefore (Gregorian.month (Gregorian.day t)) : ℚ)
  dayStart_mono := by
    intro t u h
    have hday : (Gregorian.day t : ℚ) ≤ Gregorian.day u := Nat.cast_le.mpr (Gregorian.day_mono h)
    exact mul_le_mul_of_nonneg_left hday (by norm_num)
  monthStart_mono := by
    intro t u h
    have hmonth := Gregorian.daysBefore_mono (Gregorian.month_mono (Gregorian.day_mono h))
    exact mul_le_mul_of_nonneg_left (Nat.cast_le.mpr hmonth) (by norm_num)

example : Calendar.gregorian.monthStart (86400 * 60) = 86400 * 59 := by decide +kernel

end AgenticPlatform.Foundation
