import Mathlib.Tactic.IntervalCases
import Mathlib.Tactic.Ring

/-!
# The calendar

The Gregorian dates from 1970-01-01 on, which was a Thursday, each one day after the other, and what
a clock shows at a minute. Every day of every month falls on every weekday (`exists_day`), so there
is a minute that shows whatever a clock and a calendar can show (`exists_ofMinutes`).
-/

namespace Aeqi.Lib

def isLeapYear (year : Nat) : Bool := year % 4 = 0 ∧ (year % 100 ≠ 0 ∨ year % 400 = 0)

def daysInMonth (year month : Nat) : Nat :=
  if month = 2 then if isLeapYear year then 29 else 28
  else if month = 4 ∨ month = 6 ∨ month = 9 ∨ month = 11 then 30 else 31

/-- A day that some year has. -/
def IsDay (month day : Nat) : Prop :=
  1 ≤ month ∧ month ≤ 12 ∧ 1 ≤ day ∧ day ≤ daysInMonth 1972 month

instance isDayDecidable (month day : Nat) : Decidable (IsDay month day) :=
  inferInstanceAs (Decidable (_ ∧ _ ∧ _ ∧ _))

theorem daysInMonth_le (year month : Nat) : daysInMonth year month ≤ daysInMonth 1972 month := by
  unfold daysInMonth
  split
  · split
    · exact le_refl 29
    · decide
  · omega

theorem isDay_le {month day : Nat} (h : IsDay month day) : day ≤ 31 := by
  have hle : daysInMonth 1972 month ≤ 31 := by
    unfold daysInMonth
    split
    · split
      · decide
      · decide
    · split
      · decide
      · decide
  exact h.2.2.2.trans hle

structure Date where
  year : Nat
  month : Nat
  day : Nat

namespace Date

def next (d : Date) : Date :=
  if d.day < daysInMonth d.year d.month then ⟨d.year, d.month, d.day + 1⟩
  else if d.month < 12 then ⟨d.year, d.month + 1, 1⟩
  else ⟨d.year + 1, 1, 1⟩

/-- The date a number of days after the first one. -/
def ofDays : Nat → Date
  | 0 => ⟨1970, 1, 1⟩
  | days + 1 => (ofDays days).next

/-- From Sunday on, which is 0. -/
def weekday (days : Nat) : Nat := (days + 4) % 7

/-- A day of the year. -/
def Valid (d : Date) : Prop :=
  1 ≤ d.month ∧ d.month ≤ 12 ∧ 1 ≤ d.day ∧ d.day ≤ daysInMonth d.year d.month

theorem daysInMonth_pos (year month : Nat) : 1 ≤ daysInMonth year month := by
  unfold daysInMonth
  split
  · split
    · decide
    · decide
  · split
    · decide
    · decide

theorem Valid.next {d : Date} (h : d.Valid) : d.next.Valid := by
  obtain ⟨hmonth, hmonth', -, -⟩ := h
  unfold Date.next
  split
  · next hlt => exact ⟨hmonth, hmonth', Nat.le_add_left 1 d.day, hlt⟩
  · split
    · next hlt => exact ⟨Nat.le_add_left 1 d.month, hlt, le_refl 1, daysInMonth_pos _ _⟩
    · exact ⟨le_refl 1, show 1 ≤ 12 by decide, le_refl 1, daysInMonth_pos _ _⟩

theorem valid_ofDays (days : Nat) : (ofDays days).Valid := by
  induction days with
  | zero => exact ⟨le_refl 1, by decide, le_refl 1, by decide⟩
  | succ days ih => exact ih.next

theorem isDay_ofDays (days : Nat) : IsDay (ofDays days).month (ofDays days).day := by
  obtain ⟨hmonth, hmonth', hday, hday'⟩ := valid_ofDays days
  exact ⟨hmonth, hmonth', hday, hday'.trans (daysInMonth_le _ _)⟩

/-! ## Days from one date to another -/

theorem ofDays_add (days more : Nat) : ofDays (days + more) = next^[more] (ofDays days) := by
  induction more with
  | zero => rfl
  | succ more ih => rw [← Nat.add_assoc, ofDays, ih, Function.iterate_succ_apply']

theorem iterate_day (year month : Nat) {day more : Nat}
    (h : day + more ≤ daysInMonth year month) :
    next^[more] ⟨year, month, day⟩ = ⟨year, month, day + more⟩ := by
  induction more with
  | zero => rfl
  | succ more ih =>
    rw [Function.iterate_succ_apply', ih (by omega)]
    exact if_pos (by simp only; omega)

variable {month : Nat}

theorem iterate_month (year : Nat) (h : month < 12) :
    next^[daysInMonth year month] ⟨year, month, 1⟩ = ⟨year, month + 1, 1⟩ := by
  have hpos := daysInMonth_pos year month
  obtain ⟨last, hlast⟩ : ∃ last, daysInMonth year month = last + 1 :=
    ⟨daysInMonth year month - 1, by omega⟩
  rw [hlast, Function.iterate_succ_apply', iterate_day year month (by omega), next,
    if_neg (by simp only; omega)]
  exact if_pos h

def daysBefore (year : Nat) : Nat → Nat
  | 0 => 0
  | 1 => 0
  | month + 2 => daysBefore year (month + 1) + daysInMonth year (month + 1)

theorem iterate_months (year : Nat) (hpos : 1 ≤ month) (h : month ≤ 12) :
    next^[daysBefore year month] ⟨year, 1, 1⟩ = ⟨year, month, 1⟩ := by
  induction month, hpos using Nat.le_induction with
  | base => rfl
  | succ month hpos ih =>
    obtain ⟨before, rfl⟩ : ∃ before, month = before + 1 := ⟨month - 1, by omega⟩
    rw [daysBefore, Nat.add_comm, Function.iterate_add_apply, ih (by omega)]
    exact iterate_month year (by omega)

def daysInYear (year : Nat) : Nat := daysBefore year 12 + 31

theorem iterate_year (year : Nat) : next^[daysInYear year] ⟨year, 1, 1⟩ = ⟨year + 1, 1, 1⟩ := by
  have hmonths := iterate_months year (by omega) (le_refl 12)
  have hdays : next^[30] ⟨year, 12, 1⟩ = ⟨year, 12, 31⟩ :=
    iterate_day year 12 (show 1 + 30 ≤ daysInMonth year 12 from le_refl 31)
  rw [daysInYear, show daysBefore year 12 + 31 = 1 + (30 + daysBefore year 12) by ring,
    Function.iterate_add_apply, Function.iterate_add_apply, hmonths, hdays]
  rfl

/-- The days before a year. -/
def yearStart : Nat → Nat
  | 0 => 0
  | years + 1 => yearStart years + daysInYear (1970 + years)

theorem ofDays_yearStart (years : Nat) : ofDays (yearStart years) = ⟨1970 + years, 1, 1⟩ := by
  induction years with
  | zero => rfl
  | succ years ih =>
    rw [yearStart, ofDays_add, ih, iterate_year]
    rfl

theorem ofDays_eq (years : Nat) {day : Nat}
    (h : (⟨1970 + years, month, day⟩ : Date).Valid) :
    ofDays (yearStart years + daysBefore (1970 + years) month + (day - 1)) =
      ⟨1970 + years, month, day⟩ := by
  obtain ⟨hmonth, hmonth', hday, hday'⟩ := h
  simp only at hmonth hday hday'
  rw [ofDays_add, ofDays_add, ofDays_yearStart, iterate_months _ hmonth hmonth',
    iterate_day _ _ (by omega)]
  congr 1
  omega

theorem exists_leap_year (hmonth : 1 ≤ month) (hmonth' : month ≤ 12) (w : Fin 7) :
    ∃ k : Fin 7, (yearStart (2 + 4 * k) + daysBefore (1970 + (2 + 4 * k)) month + 4) % 7 = w := by
  interval_cases month <;> revert w <;> decide +kernel

theorem daysInMonth_leap (k : Fin 7) (month : Nat) :
    daysInMonth (1970 + (2 + 4 * k)) month = daysInMonth 1972 month := by
  have hleap : ∀ k : Fin 7, isLeapYear (1970 + (2 + 4 * k)) = isLeapYear 1972 := by decide
  unfold daysInMonth
  rw [hleap k]

theorem exists_day {day w : Nat} (h : IsDay month day) (hw : w < 7) :
    ∃ days, (ofDays days).month = month ∧ (ofDays days).day = day ∧ weekday days = w := by
  obtain ⟨hmonth, hmonth', hday, hday'⟩ := h
  obtain ⟨k, hk⟩ := exists_leap_year hmonth hmonth' ⟨(w + 6 * (day - 1)) % 7, by omega⟩
  have hvalid : (⟨1970 + (2 + 4 * k), month, day⟩ : Date).Valid :=
    ⟨hmonth, hmonth', hday, (daysInMonth_leap k month).symm ▸ hday'⟩
  have hdate := ofDays_eq (2 + 4 * k) hvalid
  refine ⟨_, by rw [hdate], by rw [hdate], ?_⟩
  simp only at hk
  rw [weekday]
  omega

end Date

/-! ## Minutes -/

/-- What a clock and a calendar show. -/
structure Moment where
  minute : Nat
  hour : Nat
  day : Nat
  month : Nat
  weekday : Nat

namespace Moment

def ofMinutes (minutes : Nat) : Moment where
  minute := minutes % 60
  hour := minutes / 60 % 24
  day := (Date.ofDays (minutes / 1440)).day
  month := (Date.ofDays (minutes / 1440)).month
  weekday := Date.weekday (minutes / 1440)

structure Shown (m : Moment) : Prop where
  minute_lt : m.minute < 60
  hour_lt : m.hour < 24
  isDay : IsDay m.month m.day
  weekday_lt : m.weekday < 7

theorem shown_ofMinutes (minutes : Nat) : (Moment.ofMinutes minutes).Shown where
  minute_lt := Nat.mod_lt _ (by decide)
  hour_lt := Nat.mod_lt _ (by decide)
  isDay := Date.isDay_ofDays _
  weekday_lt := Nat.mod_lt _ (by decide)

theorem exists_ofMinutes {m : Moment} (h : m.Shown) : ∃ minutes, Moment.ofMinutes minutes = m := by
  obtain ⟨days, hmonth, hday, hweekday⟩ := Date.exists_day h.isDay h.weekday_lt
  have hminute := h.minute_lt
  have hhour := h.hour_lt
  have hdays : (days * 1440 + m.hour * 60 + m.minute) / 1440 = days := by omega
  refine ⟨days * 1440 + m.hour * 60 + m.minute, ?_⟩
  rw [Moment.ofMinutes, hdays]
  congr 1
  · omega
  · omega

end Moment

end Aeqi.Lib
