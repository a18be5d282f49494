import Aeqi.Lib.Calendar
import Aeqi.Lib.Slots
import Aeqi.Lib.Text
import Mathlib.Data.List.Infix

/-!
# Schedules (`schedule_timer.rs`, `event_handler.rs`)

`create` checks the seconds of an interval and nothing else of a schedule. `is_schedule_due` reads
the expression anew at each tick of the timer: an interval, or else five fields, of which it knows
`*`, a step and a number. What it cannot read as a number is 0, or a step of 1.

A moment is a number of nanoseconds. `chrono` panics where a duration is out of bounds, and so does
`split_at` inside a character.
-/

namespace Aeqi.Orchestrator.Schedules

open Aeqi.Lib

def schedulePrefix : List Char := "schedule:".toList

def everyPrefix : List Char := "every ".toList

/-- `strip_prefix` -/
def stripPrefix (start text : List Char) : Option (List Char) :=
  if start <+: text then some (text.drop start.length) else none

/-- `strip_suffix` -/
def stripSuffix (c : Char) (text : List Char) : Option (List Char) :=
  if text.getLast? = some c then some text.dropLast else none

/-- `split_whitespace` -/
def splitWhitespace (text : List Char) : List (List Char) :=
  (text.splitOnP isWhitespace).filter (· ≠ [])

theorem stripPrefix_append (start text : List Char) :
    stripPrefix start (start ++ text) = some text := by
  rw [stripPrefix, if_pos (List.prefix_append start text), List.drop_left]

theorem eq_append_of_stripPrefix {start text rest : List Char}
    (h : stripPrefix start text = some rest) : text = start ++ rest := by
  unfold stripPrefix at h
  split at h
  · next hprefix =>
    obtain ⟨rest', rfl⟩ := hprefix
    rw [List.drop_left] at h
    rw [Option.some.inj h]
  · cases h

/-! ## Creation -/

/-- What `create` checks of an event. -/
def checkPattern (agentId : Option String) (pattern : List Char) : Except String Unit :=
  if agentId = none ∧ schedulePrefix <+: pattern then
    .error
      "schedule:* events require a concrete agent_id — a global schedule has no agent to fire against"
  else
    match (stripPrefix (schedulePrefix ++ everyPrefix) pattern).bind (stripSuffix 's') with
    | none => .ok ()
    | some num =>
      let secs := (parseUnsigned 64 num).getD 0
      if secs < 60 then
        .error ("schedule interval must be >= 60 seconds, got " ++ secs.repr ++ "s")
      else .ok ()

/-! ## Intervals -/

inductive Panic
  | charBoundary
  | outOfBounds
  deriving DecidableEq

/-- The seconds in `i64::MAX` milliseconds, the longest duration of `chrono`. -/
def MAX_SECONDS : Int := 9223372036854775

def duration (secs : Int) : Except Panic Int :=
  if -MAX_SECONDS ≤ secs ∧ secs ≤ MAX_SECONDS then .ok secs else .error .outOfBounds

def unitDuration (unit : Char) (num : Int) : Except Panic (Option Int) :=
  match unit with
  | 's' => (duration (max num 60)).map some
  | 'm' => (duration (num * 60)).map some
  | 'h' => (duration (num * 3600)).map some
  | 'd' => (duration (num * 86400)).map some
  | _ => .ok none

def parseInterval (text : List Char) : Except Panic (Option Int) :=
  let s := trim text
  match s.getLast? with
  | none => .ok none
  | some unit =>
    if unit.utf8Size ≠ 1 then .error .charBoundary
    else
      match parseSigned 64 s.dropLast with
      | none => .ok none
      | some num => unitDuration unit num

/-! ## Five fields -/

inductive CronField
  | any
  | exact (value : Nat)
  | step (step : Nat)

def CronField.matchesValue : CronField → Nat → Bool
  | .any, _ => true
  | .exact v, value => value = v
  | .step s, value => 0 < s ∧ value % s = 0

def parseCronField (s : List Char) : CronField :=
  if s = ['*'] then .any
  else
    match stripPrefix ['*', '/'] s with
    | some step => .step ((parseUnsigned 32 step).getD 1)
    | none => .exact ((parseUnsigned 32 s).getD 0)

structure CronMatcher where
  minute : CronField
  hour : CronField
  day : CronField
  month : CronField
  weekday : CronField

/-- From Monday on, which is 1. -/
def isoWeekday (weekday : Nat) : Nat := if weekday = 0 then 7 else weekday

def CronMatcher.matchesNow (cron : CronMatcher) (now : Moment) : Bool :=
  cron.minute.matchesValue now.minute && cron.hour.matchesValue now.hour &&
    cron.day.matchesValue now.day && cron.month.matchesValue now.month &&
    cron.weekday.matchesValue (isoWeekday now.weekday % 7)

def parseSimpleCron (expr : List Char) : Option CronMatcher :=
  match splitWhitespace expr with
  | [minute, hour, day, month, weekday] =>
    some ⟨parseCronField minute, parseCronField hour, parseCronField day, parseCronField month,
      parseCronField weekday⟩
  | _ => none

/-! ## Evaluation -/

def NANOS : Nat := 1000000000

def minuteOf (now : Nat) : Nat := now / (60 * NANOS)

def intervalOf (expr : List Char) : Except Panic (Option Int) :=
  match stripPrefix everyPrefix expr with
  | some text => parseInterval text
  | none => .ok none

def intervalDue (secs : Int) (now : Nat) (lastFired : Option Nat) : Bool :=
  match lastFired with
  | none => true
  | some last => secs * NANOS ≤ (now : Int) - last

def firedRecently (now : Nat) (lastFired : Option Nat) : Bool :=
  lastFired.any fun last : Nat => ((now : Int) - last).tdiv NANOS < 60

/-- The clock is read once more to see whether the fields match. -/
def cronDue (expr : List Char) (now matchNow : Nat) (lastFired : Option Nat) : Bool :=
  match parseSimpleCron expr with
  | some cron =>
    !firedRecently now lastFired && cron.matchesNow (Moment.ofMinutes (minuteOf matchNow))
  | none => false

def isScheduleDue (expr : List Char) (now matchNow : Nat) (lastFired : Option Nat) :
    Except Panic Bool :=
  match intervalOf expr with
  | .error panic => .error panic
  | .ok (some secs) => .ok (intervalDue secs now lastFired)
  | .ok none => .ok (cronDue expr now matchNow lastFired)

def timerDue (pattern : List Char) (now matchNow : Nat) (lastFired : Option Nat) :
    Except Panic Bool :=
  let expr := (stripPrefix schedulePrefix pattern).getD []
  if expr = [] then .ok false else isScheduleDue expr now matchNow lastFired

theorem timerDue_schedule {expr : List Char} (hexpr : expr ≠ []) (now matchNow : Nat)
    (lastFired : Option Nat) :
    timerDue (schedulePrefix ++ expr) now matchNow lastFired =
      isScheduleDue expr now matchNow lastFired := by
  rw [timerDue, stripPrefix_append]
  exact if_neg hexpr

end Aeqi.Orchestrator.Schedules
