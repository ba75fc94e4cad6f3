import Stillflow.Lib.Fallible
import Stillflow.Core.Text

/-!
Automation schedules and their occurrences. Instants are nanoseconds since the epoch and dates are
days of the common era; a time zone is what the zone database answers.
-/

namespace Stillflow.Automation

open Stillflow.Core Lib.Fallible

def nanosPerSecond : Int := 10 ^ 9

/-- `NaiveDate::MAX`, the last day of the year 262142. -/
def maxDate : Int := 95745399

/-- `DateTime::<Utc>::MAX_UTC`. -/
def maxInstant : Int := (maxDate - 719163 + 1) * (86400 * nanosPerSecond) - 1

/-- `checked_add_signed` of some seconds. -/
def addSeconds (instant : Int) (seconds : Nat) : Option Int :=
  if instant + seconds * nanosPerSecond ≤ maxInstant then some (instant + seconds * nanosPerSecond)
  else none

/-- `NaiveDate::succ_opt`. -/
def succDate (date : Int) : Option Int := if date < maxDate then some (date + 1) else none

structure LocalTime where
  hour : Nat
  minute : Nat
  second : Nat
deriving DecidableEq, Repr

inductive LocalResult where
  | single (instant : Int)
  | ambiguous (earlier later : Int)
  | none
deriving DecidableEq

structure Zone where
  localDate : Int → Int
  fromLocal : Int → LocalTime → LocalResult

/-- The instant selected for a local date and time; of two the earlier one. -/
def Zone.candidate (zone : Zone) (date : Int) (time : LocalTime) : Option Int :=
  match zone.fromLocal date time with
  | .single instant => some instant
  | .ambiguous earlier _ => some earlier
  | .none => Option.none

def maxSchedulePeriodSeconds : Nat := 366 * 24 * 60 * 60

def maxTimezoneNameBytes : Nat := 64

def maxDailySearchDays : Nat := 370

inductive AutomationSchedule where
  | interval (periodSeconds : Nat)
  | daily (time : LocalTime)
deriving DecidableEq, Repr

inductive AutomationScheduleError where
  | invalidPeriod
  | invalidLocalTime
  | invalidTimezoneName
  | invalidTimezone
  | searchHorizonExceeded
  | timestampOverflow
deriving DecidableEq, Repr

abbrev Zones := String → Option Zone

def validateTimezone (zones : Zones) (timezone : String) :
    Except AutomationScheduleError Zone :=
  if timezone = "" ∨ maxTimezoneNameBytes < byteLen timezone then .error .invalidTimezoneName
  else match zones timezone with
    | some zone => .ok zone
    | none => .error .invalidTimezone

/-- The loop of `search_daily_from`, with the number of dates still to try. -/
def searchDaily (zone : Zone) (time : LocalTime) (notBefore : Int) :
    Nat → Int → Except AutomationScheduleError Int
  | 0, _ => .error .searchHorizonExceeded
  | days + 1, date =>
    match (zone.candidate date time).filter (notBefore ≤ ·) with
    | some candidate => .ok candidate
    | none =>
      match succDate date with
      | some next => searchDaily zone time notBefore days next
      | none => .error .timestampOverflow

namespace AutomationSchedule

def validate : AutomationSchedule → Except AutomationScheduleError Unit
  | .interval periodSeconds =>
    require (1 ≤ periodSeconds ∧ periodSeconds ≤ maxSchedulePeriodSeconds) .invalidPeriod
  | .daily time =>
    require (time.hour < 24 ∧ time.minute < 60 ∧ time.second < 60) .invalidLocalTime

def firstAtOrAfter (schedule : AutomationSchedule) (zones : Zones) (start : Int)
    (timezone : String) : Except AutomationScheduleError Int := do
  schedule.validate
  let zone ← validateTimezone zones timezone
  match schedule with
  | .interval _ => return start
  | .daily time => searchDaily zone time start maxDailySearchDays (zone.localDate start)

def nextAfter (schedule : AutomationSchedule) (zones : Zones) (previous : Int)
    (timezone : String) : Except AutomationScheduleError Int := do
  schedule.validate
  let zone ← validateTimezone zones timezone
  match schedule with
  | .interval periodSeconds =>
    match addSeconds previous periodSeconds with
    | some next => return next
    | none => .error .timestampOverflow
  | .daily time =>
    match succDate (zone.localDate previous) with
    | some date => searchDaily zone time previous maxDailySearchDays date
    | none => .error .timestampOverflow

/-- The occurrences of a schedule: the first one at or after the start, then each next one. -/
def occurrence (schedule : AutomationSchedule) (zones : Zones) (start : Int)
    (timezone : String) : Nat → Except AutomationScheduleError Int
  | 0 => schedule.firstAtOrAfter zones start timezone
  | n + 1 => do
    schedule.nextAfter zones (← schedule.occurrence zones start timezone n) timezone

end AutomationSchedule

end Stillflow.Automation
