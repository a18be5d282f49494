import Aeqi.Orchestrator.Schedules
import Mathlib.Tactic.Cases

/-!
# What schedules say

A schedule says either an interval, a number and its unit, or five fields as `crontab` has them:
lists of numbers, ranges and `*`, the latter two with a step, where Sunday is 0 or 7 and a day may
match by the date or by the weekday if both are restricted. Anything else says nothing.
-/

namespace Aeqi.Orchestrator.Schedules

open Aeqi.Lib List Option

/-! ## Fields -/

/-- Every so many of the values from `first` to `last`. -/
def stepValues (first last step : Nat) : List Nat :=
  (List.range (last + 1)).filter fun v => first ≤ v ∧ (v - first) % step = 0

section Field

variable (lo hi : Nat)

def rangeBounds (text : List Char) : Option (Nat × Nat) :=
  if text = ['*'] then some (lo, hi)
  else
    match text.splitOn '-' with
    | [first, last] =>
      match parseDigits first, parseDigits last with
      | some first, some last =>
        if lo ≤ first ∧ first ≤ last ∧ last ≤ hi then some (first, last) else none
      | _, _ => none
    | _ => none

def elementValues (text : List Char) : Option (List Nat) :=
  match text.splitOn '/' with
  | [text] =>
    match parseDigits text with
    | some v => if lo ≤ v ∧ v ≤ hi then some [v] else none
    | none => (rangeBounds lo hi text).map fun bounds => stepValues bounds.1 bounds.2 1
  | [text, step] =>
    match rangeBounds lo hi text, parseDigits step with
    | some bounds, some step =>
      if 0 < step then some (stepValues bounds.1 bounds.2 step) else none
    | _, _ => none
  | _ => none

def listValues : List (List Char) → Option (List Nat)
  | [] => some []
  | text :: rest =>
    (elementValues lo hi text).bind fun values => (listValues rest).map (values ++ ·)

def fieldValues (text : List Char) : Option (List Nat) := listValues lo hi (text.splitOn ',')

end Field

structure CronSchedule where
  minutes : List Nat
  hours : List Nat
  days : List Nat
  months : List Nat
  weekdays : List Nat
  dayStar : Bool
  weekdayStar : Bool
  deriving DecidableEq

namespace CronSchedule

def readFields (minute hour day month weekday : List Char) : Option CronSchedule :=
  (fieldValues 0 59 minute).bind fun minutes =>
  (fieldValues 0 23 hour).bind fun hours =>
  (fieldValues 1 31 day).bind fun days =>
  (fieldValues 1 12 month).bind fun months =>
  (fieldValues 0 7 weekday).map fun weekdays =>
    { minutes, hours, days, months
      weekdays := weekdays.map (· % 7)
      dayStar := day.head? = some '*'
      weekdayStar := weekday.head? = some '*' }

def read (expr : List Char) : Option CronSchedule :=
  match splitWhitespace expr with
  | [minute, hour, day, month, weekday] => readFields minute hour day month weekday
  | _ => none

def Has (s : CronSchedule) (m : Moment) : Prop :=
  m.minute ∈ s.minutes ∧ m.hour ∈ s.hours ∧ m.month ∈ s.months ∧
    if s.dayStar ∨ s.weekdayStar then m.day ∈ s.days ∧ m.weekday ∈ s.weekdays
    else m.day ∈ s.days ∨ m.weekday ∈ s.weekdays

instance hasDecidable (s : CronSchedule) (m : Moment) : Decidable (s.Has m) :=
  inferInstanceAs (Decidable (m.minute ∈ s.minutes ∧ m.hour ∈ s.hours ∧ m.month ∈ s.months ∧
    if s.dayStar ∨ s.weekdayStar then m.day ∈ s.days ∧ m.weekday ∈ s.weekdays
    else m.day ∈ s.days ∨ m.weekday ∈ s.weekdays))

end CronSchedule

/-! ## Expressions -/

inductive Meaning
  | every (secs : Nat)
  | cron (s : CronSchedule)
  deriving DecidableEq

def unitSeconds : Char → Option Nat
  | 's' => some 1
  | 'm' => some 60
  | 'h' => some 3600
  | 'd' => some 86400
  | _ => none

def intervalSays (text : List Char) : Option Nat :=
  (trim text).getLast?.bind fun unit =>
  (unitSeconds unit).bind fun worth =>
  (parseDigits (trim text).dropLast).map (· * worth)

def meaning (expr : List Char) : Option Meaning :=
  match stripPrefix everyPrefix expr with
  | some text => (intervalSays text).map .every
  | none => (CronSchedule.read expr).map .cron

/-! ## The values of a field -/

section Values

variable {lo hi first last step : Nat} {text : List Char} {values : List Nat}

theorem mem_stepValues {v : Nat} :
    v ∈ stepValues first last step ↔ first ≤ v ∧ v ≤ last ∧ (v - first) % step = 0 := by
  simp only [stepValues, mem_filter, mem_range, decide_eq_true_iff]
  omega

theorem first_mem_stepValues (h : first ≤ last) : first ∈ stepValues first last step := by
  rw [mem_stepValues, Nat.sub_self]
  exact ⟨le_refl first, h, rfl⟩

def Within (lo hi : Nat) (values : List Nat) : Prop := values ≠ [] ∧ ∀ v ∈ values, lo ≤ v ∧ v ≤ hi

theorem within_stepValues (hlo : lo ≤ first) (hle : first ≤ last) (hhi : last ≤ hi) :
    Within lo hi (stepValues first last step) := by
  refine ⟨ne_nil_of_mem (first_mem_stepValues hle), fun v hv => ?_⟩
  obtain ⟨hfirst, hlast, -⟩ := mem_stepValues.1 hv
  omega

theorem within_of_rangeBounds (hlohi : lo ≤ hi) {bounds : Nat × Nat}
    (h : rangeBounds lo hi text = some bounds) :
    lo ≤ bounds.1 ∧ bounds.1 ≤ bounds.2 ∧ bounds.2 ≤ hi := by
  unfold rangeBounds at h
  split at h
  · cases h
    omega
  · split at h
    · split at h
      · split at h
        · next hbounds =>
          cases h
          exact hbounds
        · cases h
      · cases h
    · cases h

theorem within_of_elementValues (hlohi : lo ≤ hi) (h : elementValues lo hi text = some values) :
    Within lo hi values := by
  unfold elementValues at h
  split at h
  · split at h
    · split at h
      · next v hv hbounds =>
        cases h
        refine ⟨cons_ne_nil v [], fun v' hv' => ?_⟩
        rw [mem_singleton.1 hv']
        exact hbounds
      · cases h
    · obtain ⟨bounds, hbounds, rfl⟩ := map_eq_some_iff.1 h
      obtain ⟨hlo, hle, hhi⟩ := within_of_rangeBounds hlohi hbounds
      exact within_stepValues hlo hle hhi
  · split at h
    · next bounds step hbounds hstep =>
      split at h
      · cases h
        obtain ⟨hlo, hle, hhi⟩ := within_of_rangeBounds hlohi hbounds
        exact within_stepValues hlo hle hhi
      · cases h
    · cases h
  · cases h

theorem within_of_listValues (hlohi : lo ≤ hi) {texts : List (List Char)} (hne : texts ≠ [])
    (h : listValues lo hi texts = some values) : Within lo hi values := by
  induction texts generalizing values with
  | nil => exact absurd rfl hne
  | cons text rest ih =>
    obtain ⟨values₁, helement, hmap⟩ := bind_eq_some_iff.1 h
    obtain ⟨values₂, hrest, rfl⟩ := map_eq_some_iff.1 hmap
    obtain ⟨hne₁, hwithin₁⟩ := within_of_elementValues hlohi helement
    refine ⟨fun h => hne₁ (append_eq_nil_iff.1 h).1, fun v hv => ?_⟩
    rcases mem_append.1 hv with hv | hv
    · exact hwithin₁ v hv
    · refine (ih ?_ hrest).2 v hv
      rintro rfl
      cases hrest
      cases hv

theorem within_of_fieldValues (hlohi : lo ≤ hi) (h : fieldValues lo hi text = some values) :
    Within lo hi values :=
  within_of_listValues hlohi (splitOn_ne_nil ',' text) h

/-! ## A field that begins with a star -/

theorem splitOn_star {sep : Char} (hsep : sep ≠ '*') (text : List Char) :
    ∃ first rest, ('*' :: text).splitOn sep = ('*' :: first) :: rest := by
  have hbeq : ('*' == sep) = false := beq_eq_false_iff_ne.2 hsep.symm
  rw [splitOn_eq_splitOnP, splitOnP_cons_eq_if_modifyHead, hbeq]
  obtain ⟨first, rest, hsplit⟩ := exists_cons_of_ne_nil
    (splitOnP_ne_nil (fun c => c == sep) text)
  exact ⟨first, rest, by simp [hsplit]⟩

theorem rangeBounds_star {bounds : Nat × Nat} (h : rangeBounds lo hi ('*' :: text) = some bounds) :
    bounds = (lo, hi) := by
  unfold rangeBounds at h
  split at h
  · exact (some.inj h).symm
  · obtain ⟨first, rest, hsplit⟩ := splitOn_star (show '-' ≠ '*' by decide) text
    rw [hsplit] at h
    split at h
    · next first' last hcons =>
      rw [List.cons.injEq] at hcons
      rw [← hcons.1] at h
      cases h
    · cases h

theorem elementValues_star (hlohi : lo ≤ hi)
    (h : elementValues lo hi ('*' :: text) = some values) : lo ∈ values := by
  obtain ⟨first, rest, hsplit⟩ := splitOn_star (show '/' ≠ '*' by decide) text
  unfold elementValues at h
  rw [hsplit] at h
  split at h
  · next text' hcons =>
    rw [List.cons.injEq] at hcons
    rw [← hcons.1] at h
    obtain ⟨bounds, hbounds, rfl⟩ := map_eq_some_iff.1 h
    rw [rangeBounds_star hbounds]
    exact first_mem_stepValues hlohi
  · next text' step hcons =>
    rw [List.cons.injEq] at hcons
    rw [← hcons.1] at h
    split at h
    · next bounds step' hbounds hstep =>
      rw [rangeBounds_star hbounds] at h
      split at h
      · cases h
        exact first_mem_stepValues hlohi
      · cases h
    · cases h
  · cases h

theorem fieldValues_star (hlohi : lo ≤ hi) (hstar : text.head? = some '*')
    (h : fieldValues lo hi text = some values) : lo ∈ values := by
  cases text with
  | nil => cases hstar
  | cons c text =>
    obtain rfl : c = '*' := some.inj hstar
    obtain ⟨first, rest, hsplit⟩ := splitOn_star (show ',' ≠ '*' by decide) text
    rw [fieldValues, hsplit] at h
    obtain ⟨values₁, helement, hrest⟩ := bind_eq_some_iff.1 h
    obtain ⟨values₂, -, rfl⟩ := map_eq_some_iff.1 hrest
    exact mem_append_left values₂ (elementValues_star hlohi helement)

/-! ## A field that is a number -/

theorem splitOn_digits {sep : Char} (hsep : sep.isDigit = false)
    (h : ∀ c ∈ text, c.isDigit = true) : text.splitOn sep = [text] := by
  refine splitOn_eq_singleton fun hmem => ?_
  rw [h sep hmem] at hsep
  cases hsep

theorem fieldValues_digits {n : Nat} (hdigits : parseDigits text = some n)
    (h : fieldValues lo hi text = some values) : n ∈ values := by
  have hall := (parseDigits_eq_some hdigits).2
  rw [fieldValues, splitOn_digits (by decide) hall, listValues, elementValues,
    splitOn_digits (by decide) hall] at h
  simp only [hdigits] at h
  split at h
  · cases h
    exact mem_cons_self
  · cases h

theorem fieldValues_plus (h : ∀ c ∈ text, c.isDigit = true) :
    fieldValues lo hi ('+' :: text) = none := by
  have hsplit : ∀ sep, sep ≠ '+' → sep.isDigit = false →
      ('+' :: text).splitOn sep = ['+' :: text] := by
    intro sep hne hsep
    refine splitOn_eq_singleton fun hmem => ?_
    rcases mem_cons.1 hmem with heq | hmem
    · exact hne heq
    · rw [h sep hmem] at hsep
      cases hsep
  have hdigit : parseDigits ('+' :: text) = none :=
    if_neg nofun
  have hne : '+' :: text ≠ ['*'] := nofun
  have hrange : rangeBounds lo hi ('+' :: text) = none := by
    rw [rangeBounds, if_neg hne, hsplit '-' (by decide) (by decide)]
  rw [fieldValues, hsplit ',' (by decide) (by decide), listValues, elementValues,
    hsplit '/' (by decide) (by decide)]
  simp [hdigit, hrange]

theorem fieldValues_exact {v : Nat} (h : fieldValues lo hi text = some values)
    (hv : parseUnsigned 32 text = some v) : v ∈ values := by
  obtain ⟨hparse, -⟩ := filter_eq_some_iff.1 hv
  unfold withoutPlus at hparse
  split at hparse
  · rw [fieldValues_plus (parseDigits_eq_some hparse).2] at h
    cases h
  · exact fieldValues_digits hparse h

end Values

end Aeqi.Orchestrator.Schedules
