/-
  THE GREGORIAN CALENDAR, for all years from 0 on.

  A date is numbered by the days before it (`Date.dayNumber`).  The numbers go up with the dates, compared by
  year, then month, then day (`Date.before_iff`): the days of a month end before the next month begins, and the
  months of a year before the next year.
-/
import Mathlib.Algebra.Order.Ring.Nat
import Mathlib.Order.Basic

namespace Vellaveto.Lib

def isLeapYear (y : Nat) : Bool := y % 4 = 0 && (y % 100 ≠ 0 || y % 400 = 0)

def daysInYear (y : Nat) : Nat := if isLeapYear y then 366 else 365

def daysInMonth (y : Nat) : Nat → Nat
  | 1 | 3 | 5 | 7 | 8 | 10 | 12 => 31
  | 4 | 6 | 9 | 11 => 30
  | 2 => if isLeapYear y then 29 else 28
  | _ => 0

/-- A day of the calendar. -/
structure Date where
  year : Nat
  month : Nat
  day : Nat
  month_pos : 1 ≤ month
  month_le : month ≤ 12
  day_pos : 1 ≤ day
  day_le : day ≤ daysInMonth year month

/-- The days of the years before `y`: every fourth year is a leap year, but no hundredth, but every
    four-hundredth. -/
def daysBeforeYear (y : Nat) : Nat := 365 * y + (y + 3) / 4 - (y + 99) / 100 + (y + 399) / 400

/-- The days of a year before month `m`. -/
def daysBeforeMonth (y : Nat) : Nat → Nat
  | 0 => 0
  | m + 1 => daysBeforeMonth y m + daysInMonth y m

namespace Date

def dayNumber (d : Date) : Nat := daysBeforeYear d.year + daysBeforeMonth d.year d.month + (d.day - 1)

/-- By year, then month, then day. -/
def Before (a b : Date) : Prop :=
  a.year < b.year ∨ a.year = b.year ∧ (a.month < b.month ∨ a.month = b.month ∧ a.day < b.day)

end Date

/-- The multiples of `n` below `y + 1` are those below `y`, and perhaps `y`. -/
theorem multiples_succ (y : Nat) {n : Nat} (hn : 0 < n) :
    (y + 1 + (n - 1)) / n = (y + (n - 1)) / n + if y % n = 0 then 1 else 0 := by
  have hstep : y + 1 + (n - 1) = y + n := by omega
  rw [hstep, Nat.add_div_right _ hn]
  have hsplit := Nat.div_add_mod y n
  have hmod := Nat.mod_lt y hn
  by_cases hzero : y % n = 0
  · have hdiv : (y + (n - 1)) / n = y / n := by
      refine Nat.div_eq_of_lt_le ?_ ?_
      · rw [Nat.mul_comm]
        omega
      · rw [Nat.add_mul, Nat.mul_comm]
        omega
    rw [hdiv, if_pos hzero]
  · have hdiv : (y + (n - 1)) / n = y / n + 1 := by
      refine Nat.div_eq_of_lt_le ?_ ?_
      · rw [Nat.add_mul, Nat.mul_comm]
        omega
      · rw [Nat.add_mul, Nat.add_mul, Nat.mul_comm]
        omega
    rw [hdiv, if_neg hzero]

theorem daysBeforeYear_succ (y : Nat) : daysBeforeYear (y + 1) = daysBeforeYear y + daysInYear y := by
  have hfour := multiples_succ y (n := 4) (by decide)
  have hhundred := multiples_succ y (n := 100) (by decide)
  have hfourHundred := multiples_succ y (n := 400) (by decide)
  have hle : (y + 99) / 100 ≤ 365 * y + (y + 3) / 4 := by omega
  -- a four-hundredth year is a hundredth, and a hundredth a fourth
  have hcentury : y % 100 = 0 → y % 4 = 0 := by omega
  have hfourth : y % 400 = 0 → y % 100 = 0 := by omega
  unfold daysBeforeYear daysInYear isLeapYear
  simp only [Bool.and_eq_true, Bool.or_eq_true, decide_eq_true_eq]
  simp only [Nat.reduceSub] at hfour hhundred hfourHundred
  rw [hfour, hhundred, hfourHundred]
  generalize (y + 3) / 4 = fours at *
  generalize (y + 99) / 100 = hundreds at *
  generalize (y + 399) / 400 = fourHundreds at *
  split_ifs <;> omega

theorem daysBeforeMonth_thirteen (y : Nat) : daysBeforeMonth y 13 = daysInYear y := by
  simp only [daysBeforeMonth, daysInMonth, daysInYear]
  split
  · rfl
  · rfl

theorem daysBeforeYear_lt {y y' : Nat} (h : y < y') :
    daysBeforeYear y + daysInYear y ≤ daysBeforeYear y' := by
  induction y', h using Nat.le_induction with
  | base => rw [daysBeforeYear_succ]
  | succ y' _ ih =>
    rw [daysBeforeYear_succ]
    omega

theorem daysBeforeMonth_lt (y : Nat) {m m' : Nat} (h : m < m') :
    daysBeforeMonth y m + daysInMonth y m ≤ daysBeforeMonth y m' := by
  induction m', h using Nat.le_induction with
  | base => rfl
  | succ m' _ ih =>
    show _ ≤ daysBeforeMonth y m' + daysInMonth y m'
    omega

theorem daysInMonth_le (y m : Nat) : daysInMonth y m ≤ 31 := by
  unfold daysInMonth
  split <;> first
    | omega
    | (split <;> omega)

namespace Date

variable {a b : Date}

/-- The year of a date is over before the next one begins. -/
theorem dayNumber_lt_year (d : Date) : d.dayNumber < daysBeforeYear d.year + daysInYear d.year := by
  have hmonth := daysBeforeMonth_lt d.year (Nat.lt_succ_of_le d.month_le)
  rw [daysBeforeMonth_thirteen] at hmonth
  have hpos := d.day_pos
  have hday := d.day_le
  unfold dayNumber
  omega

theorem dayNumber_lt (h : a.Before b) : a.dayNumber < b.dayNumber := by
  have hpos := a.day_pos
  have hpos' := b.day_pos
  rcases h with hyear | ⟨hyear, hmonth | ⟨hmonth, hday⟩⟩
  · have hend := a.dayNumber_lt_year
    have hnext := daysBeforeYear_lt hyear
    unfold dayNumber at hend ⊢
    omega
  · have hend := daysBeforeMonth_lt a.year hmonth
    have hday := a.day_le
    unfold dayNumber
    rw [← hyear]
    omega
  · unfold dayNumber
    rw [← hyear, ← hmonth]
    omega

theorem before_or_same_or_after (a b : Date) :
    a.Before b ∨ (a.year = b.year ∧ a.month = b.month ∧ a.day = b.day) ∨ b.Before a := by
  unfold Before
  omega

/-- **The numbers go up with the dates.** -/
theorem before_iff : a.Before b ↔ a.dayNumber < b.dayNumber := by
  refine ⟨dayNumber_lt, fun h => ?_⟩
  rcases before_or_same_or_after a b with hbefore | ⟨hyear, hmonth, hday⟩ | hafter
  · exact hbefore
  · unfold dayNumber at h
    rw [hyear, hmonth, hday] at h
    exact absurd h (lt_irrefl _)
  · exact absurd (dayNumber_lt hafter) (lt_asymm h)

theorem same_iff : (a.year = b.year ∧ a.month = b.month ∧ a.day = b.day) ↔ a.dayNumber = b.dayNumber := by
  constructor
  · rintro ⟨hyear, hmonth, hday⟩
    unfold dayNumber
    rw [hyear, hmonth, hday]
  · intro h
    rcases before_or_same_or_after a b with hbefore | hsame | hafter
    · exact absurd h (dayNumber_lt hbefore).ne
    · exact hsame
    · exact absurd h (dayNumber_lt hafter).ne'

end Date

example : daysBeforeYear 1970 = 719528 := by decide

end Vellaveto.Lib
