import Aeqi.Orchestrator.CronMeaning

/-!
# When schedules mean what they say

An interval does if it is at least a minute and a duration that there is. Five fields do if each is
read as what it says, a day is not to match by date or weekday, and no two minutes in a row match:
the timer does not fire again within 60 seconds. Whatever says nothing is created all the same.
-/

namespace Aeqi.Orchestrator.Schedules

open Aeqi.Lib List Option

/-! ## What is claimed -/

def CronSchedule.HasMinute (s : CronSchedule) (minutes : Nat) : Prop :=
  s.Has (Moment.ofMinutes minutes)

/-- The answer at a tick, where the clock stands still while it is worked out. -/
def dueAt (pattern : List Char) (lastFired : Option Nat) (now : Nat) : Bool :=
  match timerDue pattern now now lastFired with
  | .ok due => due
  | .error _ => false

def Fulfills (pattern : List Char) : Meaning → Prop
  | .every secs =>
    60 ≤ secs ∧ ∀ now matchNow lastFired, ∃ due,
      timerDue pattern now matchNow lastFired = .ok due ∧
        (due = true ↔ ∀ last ∈ lastFired, last + secs * NANOS ≤ now)
  | .cron s => FiresExactly (dueAt pattern) minuteOf s.HasMinute

def MeansWhatItSays (expr : List Char) : Prop :=
  (∀ now matchNow lastFired, ∃ due,
    timerDue (schedulePrefix ++ expr) now matchNow lastFired = .ok due) ∧
  ∃ m, meaning expr = some m ∧ Fulfills (schedulePrefix ++ expr) m

/-! ## When it holds -/

/-- The fields are read as what they say; a day is to match by both fields. -/
structure ReadAlike (cron : CronMatcher) (s : CronSchedule) : Prop where
  star : s.dayStar = true ∨ s.weekdayStar = true
  minute : ∀ v < 60, cron.minute.matchesValue v = true ↔ v ∈ s.minutes
  hour : ∀ v < 24, cron.hour.matchesValue v = true ↔ v ∈ s.hours
  date : ∀ month day, IsDay month day →
    (cron.day.matchesValue day = true ∧ cron.month.matchesValue month = true ↔
      day ∈ s.days ∧ month ∈ s.months)
  weekday : ∀ v < 7, cron.weekday.matchesValue v = true ↔ v ∈ s.weekdays

def Sound (expr : List Char) : Meaning → Prop
  | .every secs => 60 ≤ secs ∧ (secs : Int) ≤ MAX_SECONDS
  | .cron s =>
    ((∀ m, ¬ s.HasMinute m) ∨ ∃ cron, parseSimpleCron expr = some cron ∧ ReadAlike cron s) ∧
      ∀ m, s.HasMinute m → ¬ s.HasMinute (m + 1)

/-! ## Two readings of the same fields -/

theorem parseCronField_of_not_star {text : List Char} (h : text.head? ≠ some '*') :
    parseCronField text = .exact ((parseUnsigned 32 text).getD 0) := by
  have hany : text ≠ ['*'] := by
    rintro rfl
    exact h rfl
  have hstep : stripPrefix ['*', '/'] text = none := by
    rw [stripPrefix, if_neg]
    rintro ⟨rest, rfl⟩
    exact h rfl
  rw [parseCronField, if_neg hany, hstep]

/-- What holds of the two readings of an expression that says five fields. -/
structure SameFields (cron : CronMatcher) (s : CronSchedule) : Prop where
  minutes : Within 0 59 s.minutes
  hours : Within 0 23 s.hours
  days : Within 1 31 s.days
  months : Within 1 12 s.months
  weekdays : Within 0 6 s.weekdays
  day_star : s.dayStar = true → 1 ∈ s.days
  day_exact : s.dayStar = false → ∃ v, cron.day = .exact v ∧ (v ≠ 0 → v ∈ s.days)
  month_exact : 1 ∈ s.months ∨ ∃ v, cron.month = .exact v ∧ (v ≠ 0 → v ∈ s.months)
  weekday_exact : s.weekdayStar = false → ∃ v, cron.weekday = .exact v

theorem exact_mem {lo hi : Nat} {text : List Char} {values : List Nat}
    (h : fieldValues lo hi text = some values) (hne : (parseUnsigned 32 text).getD 0 ≠ 0) :
    (parseUnsigned 32 text).getD 0 ∈ values := by
  cases hv : parseUnsigned 32 text with
  | none =>
    rw [hv] at hne
    exact absurd rfl hne
  | some v => exact fieldValues_exact h hv

variable {expr : List Char}

theorem sameFields_of_read {s : CronSchedule} (h : CronSchedule.read expr = some s) :
    ∃ cron, parseSimpleCron expr = some cron ∧ SameFields cron s := by
  unfold CronSchedule.read at h
  split at h
  · next minute hour day month weekday hwords =>
    refine ⟨_, by rw [parseSimpleCron, hwords], ?_⟩
    obtain ⟨minutes, hminutes, h⟩ := bind_eq_some_iff.1 h
    obtain ⟨hours, hhours, h⟩ := bind_eq_some_iff.1 h
    obtain ⟨days, hdays, h⟩ := bind_eq_some_iff.1 h
    obtain ⟨months, hmonths, h⟩ := bind_eq_some_iff.1 h
    obtain ⟨weekdays, hweekdays, rfl⟩ := map_eq_some_iff.1 h
    obtain ⟨hne, -⟩ := within_of_fieldValues (by decide) hweekdays
    exact {
      minutes := within_of_fieldValues (by decide) hminutes
      hours := within_of_fieldValues (by decide) hhours
      days := within_of_fieldValues (by decide) hdays
      months := within_of_fieldValues (by decide) hmonths
      weekdays := by
        refine ⟨fun hnil => hne (map_eq_nil_iff.1 hnil), fun v hv => ?_⟩
        obtain ⟨w, -, rfl⟩ := List.mem_map.1 hv
        omega
      day_star := fun hstar => fieldValues_star (by decide) (of_decide_eq_true hstar) hdays
      day_exact := fun hstar =>
        ⟨_, parseCronField_of_not_star (of_decide_eq_false hstar), exact_mem hdays⟩
      month_exact := by
        by_cases hstar : month.head? = some '*'
        · exact .inl (fieldValues_star (by decide) hstar hmonths)
        · exact .inr ⟨_, parseCronField_of_not_star hstar, exact_mem hmonths⟩
      weekday_exact := fun hstar =>
        ⟨_, parseCronField_of_not_star (of_decide_eq_false hstar)⟩ }
  · cases h

theorem isoWeekday_mod {weekday : Nat} (h : weekday < 7) : isoWeekday weekday % 7 = weekday := by
  unfold isoWeekday
  split
  · omega
  · omega

theorem matchesNow_iff {cron : CronMatcher} {m : Moment} (hm : m.Shown) :
    cron.matchesNow m = true ↔
      cron.minute.matchesValue m.minute = true ∧ cron.hour.matchesValue m.hour = true ∧
        (cron.day.matchesValue m.day = true ∧ cron.month.matchesValue m.month = true) ∧
          cron.weekday.matchesValue m.weekday = true := by
  simp only [CronMatcher.matchesNow, isoWeekday_mod hm.weekday_lt, Bool.and_eq_true]
  tauto

theorem CronSchedule.has_of_star {s : CronSchedule}
    (hstar : s.dayStar = true ∨ s.weekdayStar = true) (m : Moment) :
    s.Has m ↔ m.minute ∈ s.minutes ∧ m.hour ∈ s.hours ∧
      (m.day ∈ s.days ∧ m.month ∈ s.months) ∧ m.weekday ∈ s.weekdays := by
  rw [CronSchedule.Has, if_pos hstar]
  tauto

section Agree

variable {cron : CronMatcher} {s : CronSchedule}

variable {m : Moment}

theorem ReadAlike.matchesNow_iff_has (h : ReadAlike cron s) (hm : m.Shown) :
    cron.matchesNow m = true ↔ s.Has m := by
  rw [matchesNow_iff hm, CronSchedule.has_of_star h.star, h.minute _ hm.minute_lt,
    h.hour _ hm.hour_lt, h.date _ _ hm.isDay, h.weekday _ hm.weekday_lt]

theorem SameFields.exists_has (h : SameFields cron s) {month day : Nat} (hday : IsDay month day)
    (hmem : day ∈ s.days) (hmem' : month ∈ s.months) : ∃ m : Moment, m.Shown ∧ s.Has m := by
  obtain ⟨minute, hminute⟩ := exists_mem_of_ne_nil _ h.minutes.1
  obtain ⟨hour, hhour⟩ := exists_mem_of_ne_nil _ h.hours.1
  obtain ⟨weekday, hweekday⟩ := exists_mem_of_ne_nil _ h.weekdays.1
  have hminute' := h.minutes.2 minute hminute
  have hhour' := h.hours.2 hour hhour
  have hweekday' := h.weekdays.2 weekday hweekday
  refine ⟨⟨minute, hour, day, month, weekday⟩, ⟨?_, ?_, hday, ?_⟩, hminute, hhour, hmem', ?_⟩
  · exact Nat.lt_succ_of_le hminute'.2
  · exact Nat.lt_succ_of_le hhour'.2
  · exact Nat.lt_succ_of_le hweekday'.2
  · split
    · exact ⟨hmem, hweekday⟩
    · exact .inl hmem

theorem SameFields.not_matchesNow (h : SameFields cron s)
    (hnever : ∀ m : Moment, m.Shown → ¬ s.Has m) (hm : m.Shown) :
    ¬ cron.matchesNow m = true := by
  intro hmatch
  obtain ⟨-, -, ⟨hday, hmonth⟩, -⟩ := (matchesNow_iff hm).1 hmatch
  have hisDay := hm.isDay
  obtain ⟨month, hmem, hwithin⟩ : ∃ month ∈ s.months, 1 ≤ month ∧ month ≤ 12 := by
    obtain ⟨month, hmem⟩ := exists_mem_of_ne_nil _ h.months.1
    exact ⟨month, hmem, h.months.2 month hmem⟩
  have hfound : ∃ m : Moment, m.Shown ∧ s.Has m := by
    cases hstar : s.dayStar with
    | true =>
      have hfirst : IsDay month 1 :=
        ⟨hwithin.1, hwithin.2, le_refl 1, Date.daysInMonth_pos 1972 month⟩
      exact h.exists_has hfirst (h.day_star hstar) hmem
    | false =>
      obtain ⟨v, hv, hvalue⟩ := h.day_exact hstar
      have hdays : m.day ∈ s.days := by
        simp only [hv, CronField.matchesValue, decide_eq_true_iff] at hday
        exact hday ▸ hvalue (by have := hisDay.2.2.1; omega)
      rcases h.month_exact with hjanuary | ⟨v, hv, hvalue⟩
      · have hjan : IsDay 1 m.day :=
          ⟨le_refl 1, by decide, hisDay.2.2.1, isDay_le hisDay⟩
        exact h.exists_has hjan hdays hjanuary
      · simp only [hv, CronField.matchesValue, decide_eq_true_iff] at hmonth
        exact h.exists_has hisDay hdays (hmonth ▸ hvalue (by have := hisDay.1; omega))
  obtain ⟨m', hm', hhas⟩ := hfound
  exact hnever m' hm' hhas

theorem SameFields.star_of_agree (h : SameFields cron s)
    (hagree : ∀ m : Moment, m.Shown → (cron.matchesNow m = true ↔ s.Has m)) (hm : m.Shown)
    (hhas : s.Has m) : s.dayStar = true ∨ s.weekdayStar = true := by
  by_contra hstar
  obtain ⟨hday, hweekday⟩ : s.dayStar = false ∧ s.weekdayStar = false := by
    simpa only [not_or, Bool.not_eq_true] using hstar
  obtain ⟨day, hday', -⟩ := h.day_exact hday
  obtain ⟨weekday, hweekday'⟩ := h.weekday_exact hweekday
  -- the matcher has one day and one weekday, and the schedule any day of a weekday that it has
  have honly : ∀ m : Moment, m.Shown → s.Has m → m.day = day ∧ m.weekday = weekday := by
    intro m hm hhas
    obtain ⟨-, -, ⟨hmatch, -⟩, hmatch'⟩ := (matchesNow_iff hm).1 ((hagree m hm).2 hhas)
    simp only [hday', hweekday', CronField.matchesValue, decide_eq_true_iff] at hmatch hmatch'
    exact ⟨hmatch, hmatch'⟩
  obtain ⟨hmin, hhour, hmonth, hdate⟩ := hhas
  rw [if_neg hstar] at hdate
  have hthis := honly m hm ⟨hmin, hhour, hmonth, by rwa [if_neg hstar]⟩
  rcases hdate with hdate | hdate
  · have hnext : (m.weekday + 1) % 7 < 7 := Nat.mod_lt _ (by decide)
    have hother := honly { m with weekday := (m.weekday + 1) % 7 }
      ⟨hm.minute_lt, hm.hour_lt, hm.isDay, hnext⟩
      ⟨hmin, hhour, hmonth, by rw [if_neg hstar]; exact .inl hdate⟩
    have heq : (m.weekday + 1) % 7 = m.weekday := hother.2.trans hthis.2.symm
    omega
  · obtain ⟨hlo, hhi, -, -⟩ := hm.isDay
    have hlong : 2 ≤ daysInMonth 1972 m.month := by
      unfold daysInMonth
      split
      · decide
      · split
        · decide
        · decide
    have hother := honly { m with day := if m.day = 1 then 2 else 1 }
      ⟨hm.minute_lt, hm.hour_lt, ⟨hlo, hhi, by simp only; split <;> omega, by
        simp only; split <;> omega⟩, hm.weekday_lt⟩
      ⟨hmin, hhour, hmonth, by rw [if_neg hstar]; exact .inr hdate⟩
    have heq : (if m.day = 1 then 2 else 1) = m.day := hother.1.trans hthis.1.symm
    split at heq
    · omega
    · omega

theorem SameFields.readAlike_of_agree (h : SameFields cron s)
    (hagree : ∀ m : Moment, m.Shown → (cron.matchesNow m = true ↔ s.Has m)) (hm : m.Shown)
    (hhas : s.Has m) : ReadAlike cron s := by
  have hstar := h.star_of_agree hagree hm hhas
  have hiff : ∀ m : Moment, m.Shown → _ := fun m hm =>
    (matchesNow_iff hm).symm.trans ((hagree m hm).trans (CronSchedule.has_of_star hstar m))
  obtain ⟨hmin, hhour, hdate, hweekday⟩ := (CronSchedule.has_of_star hstar m).1 hhas
  obtain ⟨hmin', hhour', hdate', hweekday'⟩ := (hiff m hm).2 ⟨hmin, hhour, hdate, hweekday⟩
  -- each field is changed in a moment that both have
  refine ⟨hstar, fun v hv => ?_, fun v hv => ?_, fun month day hday => ?_, fun v hv => ?_⟩
  · have hchanged := hiff { m with minute := v } ⟨hv, hm.hour_lt, hm.isDay, hm.weekday_lt⟩
    simpa only [hhour, hdate, hweekday, hhour', hdate', hweekday', and_true] using hchanged
  · have hchanged := hiff { m with hour := v } ⟨hm.minute_lt, hv, hm.isDay, hm.weekday_lt⟩
    simpa only [hmin, hdate, hweekday, hmin', hdate', hweekday', and_true, true_and] using hchanged
  · have hchanged := hiff { m with day, month } ⟨hm.minute_lt, hm.hour_lt, hday, hm.weekday_lt⟩
    simpa only [hmin, hhour, hweekday, hmin', hhour', hweekday', and_true, true_and]
      using hchanged
  · have hchanged := hiff { m with weekday := v } ⟨hm.minute_lt, hm.hour_lt, hm.isDay, hv⟩
    simpa only [hmin, hhour, hdate, hmin', hhour', hdate', true_and] using hchanged

theorem SameFields.agree_iff (h : SameFields cron s) :
    (∀ m, cron.matchesNow (Moment.ofMinutes m) = true ↔ s.HasMinute m) ↔
      (∀ m, ¬ s.HasMinute m) ∨ ReadAlike cron s := by
  constructor
  · intro hagree
    have hshown : ∀ m : Moment, m.Shown → (cron.matchesNow m = true ↔ s.Has m) := by
      intro m hm
      obtain ⟨minutes, rfl⟩ := Moment.exists_ofMinutes hm
      exact hagree minutes
    by_cases hsome : ∃ m, s.HasMinute m
    · obtain ⟨m, hm⟩ := hsome
      exact .inr (h.readAlike_of_agree hshown (Moment.shown_ofMinutes m) hm)
    · exact .inl (not_exists.1 hsome)
  · rintro (hnever | halike) m
    · refine iff_of_false (h.not_matchesNow (fun m hm hhas => ?_) (Moment.shown_ofMinutes m))
        (hnever m)
      obtain ⟨minutes, rfl⟩ := Moment.exists_ofMinutes hm
      exact hnever minutes hhas
    · exact halike.matchesNow_iff_has (Moment.shown_ofMinutes m)

end Agree

/-! ## Ticks of five fields -/

section Ticks

variable {expr : List Char} {cron : CronMatcher} {s : CronSchedule}

theorem firedRecently_iff {last now : Nat} (hle : last ≤ now) :
    firedRecently now (some last) = true ↔ now < last + 60 * NANOS := by
  have hnonneg : (0 : Int) ≤ (now : Int) - last := by omega
  simp only [firedRecently, any_some, decide_eq_true_iff]
  rw [Int.tdiv_eq_ediv_of_nonneg hnonneg]
  simp only [NANOS]
  omega

theorem cronDue_iff (hcron : parseSimpleCron expr = some cron) {now : Nat}
    {lastFired : Option Nat} (hlast : ∀ last ∈ lastFired, last ≤ now) :
    cronDue expr now now lastFired = true ↔ (∀ last ∈ lastFired, last + 60 * NANOS ≤ now) ∧
        cron.matchesNow (Moment.ofMinutes (minuteOf now)) = true := by
  rw [cronDue, hcron]
  simp only [Bool.and_eq_true, Bool.not_eq_true']
  refine and_congr_left fun _ => ?_
  cases lastFired with
  | none => simp [firedRecently]
  | some last =>
    have hle := hlast last rfl
    rw [← Bool.not_eq_true, firedRecently_iff hle]
    simp

theorem minuteOf_mono : Monotone minuteOf := fun _ _ hle => Nat.div_le_div_right hle

theorem firesExactly_iff (hcron : parseSimpleCron expr = some cron) :
    FiresExactly (fun last now => cronDue expr now now last) minuteOf s.HasMinute ↔
      (∀ m, cron.matchesNow (Moment.ofMinutes m) = true ↔ s.HasMinute m) ∧
        ∀ m, s.HasMinute m → ¬ s.HasMinute (m + 1) := by
  have hminute : ∀ m, minuteOf (m * (60 * NANOS)) = m := fun m => by
    simp only [minuteOf, NANOS]
    omega
  constructor
  · intro hexact
    refine ⟨fun m => ?_, fun m hm hnext => ?_⟩
    · have hnone := hexact.due_none (m * (60 * NANOS))
      rw [cronDue_iff hcron (by simp), hminute] at hnone
      simpa using hnone
    · -- the last second of the one minute and the first of the next
      have hlast : minuteOf (m * (60 * NANOS) + 59 * NANOS) = m := by
        simp only [minuteOf, NANOS]
        omega
      have hle : m * (60 * NANOS) + 59 * NANOS ≤ (m + 1) * (60 * NANOS) := by
        simp only [NANOS]
        omega
      have hdue := hexact.due_some hle (hlast.symm ▸ hm) ((hminute (m + 1)).symm ▸ hnext)
        (by rw [hminute]; omega)
      have hlate := ((cronDue_iff hcron (by simpa using hle)).1 hdue).1 _ rfl
      simp only [NANOS] at hlate
      omega
  · rintro ⟨hagree, hapart⟩
    refine firesExactly_of_due minuteOf_mono fun last now hlast => ?_
    rw [cronDue_iff hcron fun l hl => (hlast l hl).1, hagree, and_comm]
    refine and_congr_right fun hnow => forall₂_congr fun l hl => ?_
    obtain ⟨hle, hhas⟩ := hlast l hl
    constructor
    · intro hlate heq
      simp only [minuteOf, NANOS] at hlate heq
      omega
    · intro hne
      have hnext : minuteOf l + 1 ≠ minuteOf now := fun heq => hapart _ hhas (heq ▸ hnow)
      simp only [minuteOf, NANOS] at hne hnext ⊢
      omega

end Ticks

/-! ## Ticks of an interval -/

section Interval

variable {expr text : List Char} {secs : Nat}

theorem unitDuration_eq {unit : Char} {worth : Nat} (h : unitSeconds unit = some worth) :
    unit.utf8Size = 1 ∧ 1 ≤ worth ∧ ∀ n : Nat, 60 ≤ n * worth →
      unitDuration unit n = (duration (n * worth : Nat)).map some := by
  unfold unitSeconds at h
  split at h
  · cases h
    refine ⟨by decide, by decide, fun n hn => ?_⟩
    have hmax : max (n : Int) 60 = (n * 1 : Nat) := by omega
    rw [unitDuration, hmax]
  iterate 3
    · cases h
      exact ⟨by decide, by decide, fun n _ => by rw [unitDuration, Nat.cast_mul, Nat.cast_ofNat]⟩
  · cases h

theorem parseInterval_of_meant (h : intervalSays text = some secs) (hsecs : 60 ≤ secs) :
    parseInterval text = (duration secs).map some ∨
      MAX_SECONDS < secs ∧ parseInterval text = .ok none := by
  obtain ⟨unit, hunit, h⟩ := bind_eq_some_iff.1 h
  obtain ⟨worth, hworth, h⟩ := bind_eq_some_iff.1 h
  obtain ⟨n, hdigits, rfl⟩ := map_eq_some_iff.1 h
  obtain ⟨hsize, hpos, hduration⟩ := unitDuration_eq hworth
  have hparse := parseSigned_of_digits 64 hdigits
  by_cases hlt : n < 2 ^ 63
  · rw [if_pos hlt] at hparse
    refine .inl ?_
    simp only [parseInterval, hunit, hsize, hparse]
    exact hduration n hsecs
  · rw [if_neg hlt] at hparse
    refine .inr ⟨?_, by simp [parseInterval, hunit, hsize, hparse]⟩
    have hle : n ≤ n * worth := Nat.le_mul_of_pos_right n hpos
    simp only [MAX_SECONDS]
    omega

theorem intervalDue_iff {now : Nat} {lastFired : Option Nat} :
    intervalDue secs now lastFired = true ↔ ∀ last ∈ lastFired, last + secs * NANOS ≤ now := by
  cases lastFired with
  | none => simp [intervalDue]
  | some last =>
    simp only [intervalDue, decide_eq_true_iff, mem_some, forall_eq']
    constructor
    · intro h
      omega
    · intro h
      omega

theorem cronDue_every (hstrip : stripPrefix everyPrefix expr = some text) :
    cronDue expr (60 * NANOS) (60 * NANOS) none = false := by
  have hwords : splitWhitespace expr = "every".toList :: splitWhitespace text := by
    have hspace : isWhitespace ' ' = true := by decide
    have hletters : ∀ c ∈ "every".toList, isWhitespace c = false := by simp [isWhitespace]
    have happend : everyPrefix ++ text = "every".toList ++ ' ' :: text := by simp [everyPrefix]
    rw [eq_append_of_stripPrefix hstrip, happend, splitWhitespace,
      splitOnP_append_cons_of_forall_mem hletters ' ' hspace, filter_cons_of_pos]
    · rfl
    · decide
  have hminute : (Moment.ofMinutes (minuteOf (60 * NANOS))).minute = 1 := by decide
  have hfield : (parseCronField "every".toList).matchesValue 1 = false := by decide
  rw [cronDue, parseSimpleCron, hwords]
  split
  · next cron hcron =>
    split at hcron
    · next minute hour day month weekday hfive =>
      rw [List.cons.injEq] at hfive
      obtain rfl := some.inj hcron
      simp only [CronMatcher.matchesNow, hminute, ← hfive.1, hfield, Bool.false_and, Bool.and_false]
    · cases hcron
  · rfl

theorem interval_iff (hstrip : stripPrefix everyPrefix expr = some text)
    (hmeant : intervalSays text = some secs) :
    (∀ now matchNow lastFired, ∃ due, isScheduleDue expr now matchNow lastFired = .ok due) ∧
        60 ≤ secs ∧ (∀ now matchNow lastFired, ∃ due,
          isScheduleDue expr now matchNow lastFired = .ok due ∧
            (due = true ↔ ∀ last ∈ lastFired, last + secs * NANOS ≤ now)) ↔
      60 ≤ secs ∧ (secs : Int) ≤ MAX_SECONDS := by
  have hinterval : intervalOf expr = parseInterval text := by rw [intervalOf, hstrip]
  constructor
  · rintro ⟨hruns, hsecs, hexact⟩
    refine ⟨hsecs, not_lt.1 fun hlong => ?_⟩
    rcases parseInterval_of_meant hmeant hsecs with hparse | ⟨-, hparse⟩
    · obtain ⟨due, hdue⟩ := hruns 0 0 none
      have hbound : duration secs = .error .outOfBounds := if_neg fun h => not_le.2 hlong h.2
      rw [isScheduleDue, hinterval, hparse, hbound] at hdue
      cases hdue
    · obtain ⟨due, hdue, hiff⟩ := hexact (60 * NANOS) (60 * NANOS) none
      rw [isScheduleDue, hinterval, hparse] at hdue
      cases hdue
      rw [cronDue_every hstrip] at hiff
      exact Bool.false_ne_true (hiff.2 nofun)
  · rintro ⟨hsecs, hbound⟩
    have hdue : ∀ now matchNow lastFired,
        isScheduleDue expr now matchNow lastFired = .ok (intervalDue secs now lastFired) := by
      intro now matchNow lastFired
      have hduration : duration secs = .ok (secs : Int) :=
        if_pos ⟨by omega, hbound⟩
      rcases parseInterval_of_meant hmeant hsecs with hparse | ⟨hlong, -⟩
      · rw [isScheduleDue, hinterval, hparse, hduration]
        rfl
      · omega
    exact ⟨fun now matchNow lastFired => ⟨_, hdue now matchNow lastFired⟩, hsecs,
      fun now matchNow lastFired => ⟨_, hdue now matchNow lastFired, intervalDue_iff⟩⟩

end Interval

/-! ## Every schedule -/

theorem ne_nil_of_meaning {m : Meaning} (h : meaning expr = some m) :
    expr ≠ [] := by
  rintro rfl
  cases h

theorem fulfills_iff_sound {m : Meaning} (h : meaning expr = some m) :
    (∀ now matchNow lastFired, ∃ due,
      timerDue (schedulePrefix ++ expr) now matchNow lastFired = .ok due) ∧
        Fulfills (schedulePrefix ++ expr) m ↔ Sound expr m := by
  have hdue := timerDue_schedule (ne_nil_of_meaning h)
  unfold meaning at h
  split at h
  · next text hstrip =>
    obtain ⟨secs, hmeant, rfl⟩ := map_eq_some_iff.1 h
    simp only [Fulfills, hdue]
    exact interval_iff hstrip hmeant
  · next hstrip =>
    obtain ⟨s, hread, rfl⟩ := map_eq_some_iff.1 h
    obtain ⟨cron, hcron, hsame⟩ := sameFields_of_read hread
    have hcronDue : ∀ now matchNow lastFired,
        timerDue (schedulePrefix ++ expr) now matchNow lastFired =
          .ok (cronDue expr now matchNow lastFired) := by
      intro now matchNow lastFired
      rw [hdue, isScheduleDue, intervalOf, hstrip]
    have hdueAt : dueAt (schedulePrefix ++ expr) = fun last now => cronDue expr now now last := by
      funext last now
      rw [dueAt, hcronDue]
    rw [Fulfills, Sound, hdueAt, firesExactly_iff hcron, hsame.agree_iff, hcron]
    simp only [Option.some.injEq, exists_eq_left']
    exact and_iff_right fun now matchNow lastFired => ⟨_, hcronDue now matchNow lastFired⟩

theorem meansWhatItSays_iff (expr : List Char) :
    MeansWhatItSays expr ↔ ∃ m, meaning expr = some m ∧ Sound expr m := by
  constructor
  · rintro ⟨hruns, m, hm, hfulfills⟩
    exact ⟨m, hm, (fulfills_iff_sound hm).1 ⟨hruns, hfulfills⟩⟩
  · rintro ⟨m, hm, hsound⟩
    obtain ⟨hruns, hfulfills⟩ := (fulfills_iff_sound hm).2 hsound
    exact ⟨hruns, m, hm, hfulfills⟩

end Aeqi.Orchestrator.Schedules
