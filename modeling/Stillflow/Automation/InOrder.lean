import Stillflow.Automation.Runs

/-! Occurrences are submitted in schedule order. -/

namespace Stillflow.Automation

open Stillflow.Core Stillflow.Storage Lib.Fallible Lib.Machine ClaimSystem

theorem not_live_of_claim {store : ScheduleStore} {access : Access} {scheduleId claimId : Uuid}
    {now : Int} {leaseSeconds : Nat} {trigger : AutomationTrigger}
    (hids : (store.schedules.map (·.id)).Nodup)
    (h : (store.claimDueAutomationSchedule access scheduleId now claimId leaseSeconds).1 =
      .ok (some trigger)) {record : AutomationScheduleRecord} (hmem : record ∈ store.schedules)
    (hid : record.id = scheduleId) (other : AutomationTrigger) : ¬record.Live now other := by
  have hclaims := claims store access scheduleId now claimId leaseSeconds
  generalize store.claimDueAutomationSchedule access scheduleId now claimId leaseSeconds =
    result at h hclaims
  cases hclaims with
  | refused | passed => cases h
  | @claimed found _ _ _ _ hfind hattempt _ _ =>
    obtain ⟨hfound, hfoundId, -⟩ := find_eq_ok hfind
    have hsame : found = record := List.inj_on_of_nodup_map hids hfound hmem
      (hfoundId.trans hid.symm)
    rw [hsame] at hattempt
    rintro ⟨-, lease, hflight, hlease⟩
    have hexpired := (nextAttempt_eq_some hattempt).2.2.2.2 lease hflight
    omega

/-- Over any calls at any instants, the acknowledged keys of a schedule are a prefix of its
occurrences, at most one issued trigger holds an unexpired lease, and attempts are numbered from one
up to the bound. Occurrences are strictly increasing; those of a daily schedule are one instant for
each local date from the start on which the time exists, the earlier one of two, and for which that
instant is not before the start. -/
theorem automation_in_order (zones : Zones) (workspaces : List (Uuid × Bool))
    (calls : List AutomationCall) :
    (∀ record ∈ ((machine zones).run (start workspaces) calls).store.schedules,
      (∀ (i : Nat) key,
        (((machine zones).run (start workspaces) calls).acknowledgedKeys record.id)[i]? = some key →
        record.occurrence zones i = .ok key) ∧
      (∀ instant (i j : Nat) a b, ((machine zones).run (start workspaces) calls).issued[i]? = some a →
        ((machine zones).run (start workspaces) calls).issued[j]? = some b →
        record.Live instant a → record.Live instant b → i = j) ∧
      ∀ instant, ∃ count ≤ record.maxSubmissionAttempts,
        attemptsAt (((machine zones).run (start workspaces) calls).issuedFor record.id) instant =
          List.range' 1 count) ∧
    (∀ before access scheduleId now claimId leaseSeconds trigger,
      (before, AutomationCall.claim access scheduleId now claimId leaseSeconds) ∈
        (machine zones).trace (start workspaces) calls →
      (before.store.claimDueAutomationSchedule access scheduleId now claimId leaseSeconds).1 =
        .ok (some trigger) →
      ∀ record ∈ before.store.schedules, record.id = scheduleId →
        ∀ other, ¬record.Live now other) ∧
    ∀ (schedule : AutomationSchedule) (timezone : String) (first : Int),
      (∀ zone time, zones timezone = some zone → schedule = .daily time → zone.LawfulAt time) →
      (∀ n m a b, n < m → schedule.occurrence zones first timezone n = .ok a →
        schedule.occurrence zones first timezone m = .ok b → a < b) ∧
      ∀ time zone, schedule = .daily time → schedule.validate = .ok () →
        validateTimezone zones timezone = .ok zone →
        (∀ n instant, schedule.occurrence zones first timezone n = .ok instant →
          Occurs zone time first (zone.localDate instant) instant) ∧
        ∀ date ≤ maxDate, ∀ instant, Occurs zone time first date instant →
          (∃ n, schedule.occurrence zones first timezone n = .ok instant) ∧
          ∀ n other, schedule.occurrence zones first timezone n = .ok other →
            zone.localDate other = date → other = instant := by
  have hinv := run_invariant (inv_next zones) (inv_start workspaces) calls
  refine ⟨fun record hmem => ?_, ?_, fun schedule timezone first hlawful => ⟨?_, ?_⟩⟩
  · have hrow := hinv.rows record hmem
    exact ⟨hrow.submitted, fun instant i j a b ha hb hlive hlive' =>
      hinv.live_unique hmem ha hb hlive hlive', hrow.attempts⟩
  · intro before access scheduleId now claimId leaseSeconds trigger htrace hclaim record hmem hid
    have hbefore := trace_invariant (inv_next zones) (inv_start workspaces) htrace
    exact not_live_of_claim hbefore.ids hclaim hmem hid
  · exact fun n m a b hlt ha hb => occurrence_strictMono hlawful hlt ha hb
  · rintro time zone rfl hvalid hzone
    have hfound := validateTimezone_eq_ok hzone
    have hlaw := hlawful zone time hfound rfl
    refine ⟨fun n instant h => occurrence_daily hlaw hfound h, fun date hmax instant hoccurs => ?_⟩
    refine ⟨exists_occurrence hlaw hvalid hzone hmax hoccurs, fun n other hother hdate => ?_⟩
    have hcandidate := (occurrence_daily hlaw hfound hother).2.1
    rw [hdate, hoccurs.2.1] at hcandidate
    exact (Option.some.inj hcandidate).symm

def utc : Zone where
  localDate instant := instant / (86400 * nanosPerSecond) + 719163
  fromLocal date time := .single ((date - 719163) * (86400 * nanosPerSecond) +
    ((time.hour * 60 + time.minute) * 60 + time.second : Nat) * nanosPerSecond)

def utcZones : Zones := fun name => if name = "UTC" then some utc else none

theorem utc_lawfulAt {time : LocalTime}
    (h : time.hour < 24 ∧ time.minute < 60 ∧ time.second < 60) : utc.LawfulAt time := by
  have hseconds : (time.hour * 60 + time.minute) * 60 + time.second < 86400 := by omega
  have hcandidate : ∀ date, utc.candidate date time = some ((date - 719163) *
      (86400 * nanosPerSecond) +
      ((time.hour * 60 + time.minute) * 60 + time.second : Nat) * nanosPerSecond) := fun _ => rfl
  refine ⟨fun _ _ _ h => (by cases h), ?_, ?_, ?_, ?_⟩
  · intro date instant hinstant
    cases (hcandidate date).symm.trans hinstant
    simp only [utc, nanosPerSecond]
    omega
  · intro date date' instant instant' hlt hinstant hinstant'
    cases (hcandidate date).symm.trans hinstant
    cases (hcandidate date').symm.trans hinstant'
    simp only [nanosPerSecond]
    omega
  · intro date instant start hlt hinstant
    cases (hcandidate date).symm.trans hinstant
    simp only [utc, nanosPerSecond] at hlt ⊢
    omega
  · intro date hmax
    exact ⟨date, _, le_refl _, by omega, hcandidate date⟩

/-- A daily schedule that is created, claimed and acknowledged once. -/
def sampleCalls : List AutomationCall :=
  [.create {} ⟨1, 2, .daily ⟨2, 30, 0⟩, "UTC", .null, 0, 2, 0⟩,
    .claim {} 1 (9000 * nanosPerSecond) 7 60,
    .acknowledge {} 0 (95400 * nanosPerSecond) (9001 * nanosPerSecond)]

theorem automation_in_order_daily :
    (((machine utcZones).run (start [(2, true)]) sampleCalls).acknowledgedKeys 1 =
      [9000 * nanosPerSecond]) ∧
    (∃ record ∈ ((machine utcZones).run (start [(2, true)]) sampleCalls).store.schedules,
      record.occurrence utcZones 0 = .ok (9000 * nanosPerSecond)) ∧
    ∀ n m a b, n < m → (AutomationSchedule.daily ⟨2, 30, 0⟩).occurrence utcZones 0 "UTC" n = .ok a →
      (AutomationSchedule.daily ⟨2, 30, 0⟩).occurrence utcZones 0 "UTC" m = .ok b → a < b := by
  have hkeys : ((machine utcZones).run (start [(2, true)]) sampleCalls).acknowledgedKeys 1 =
      [9000 * nanosPerSecond] := by decide +kernel
  have hids : ((machine utcZones).run (start [(2, true)]) sampleCalls).store.schedules.map (·.id) =
      [1] := by decide +kernel
  obtain ⟨horder, -, hsequence⟩ := automation_in_order utcZones [(2, true)] sampleCalls
  refine ⟨hkeys, ?_, ?_⟩
  · obtain ⟨record, hmem, hid⟩ : ∃ record ∈
        ((machine utcZones).run (start [(2, true)]) sampleCalls).store.schedules,
        record.id = 1 := List.mem_map.mp (hids ▸ List.mem_singleton_self 1)
    refine ⟨record, hmem, (horder record hmem).1 0 _ ?_⟩
    rw [hid, hkeys]
    rfl
  · refine (hsequence (.daily ⟨2, 30, 0⟩) "UTC" 0 ?_).1
    intro zone time hzone htime
    cases htime
    cases (show utcZones "UTC" = some utc from rfl).symm.trans hzone
    exact utc_lawfulAt (by decide)

/-- The clock of this zone goes from four to five hours behind at 06:00 UTC on 3 November 2024. -/
def clockChange : Int := (20030 * 24 + 6) * (3600 * nanosPerSecond)

def newYork : Zone where
  localDate instant := (instant - (if instant < clockChange then 4 else 5) *
    (3600 * nanosPerSecond)) / (86400 * nanosPerSecond) + 719163
  fromLocal date time :=
    let wall := (date - 719163) * (86400 * nanosPerSecond) +
      ((time.hour * 60 + time.minute) * 60 + time.second : Nat) * nanosPerSecond
    let summer := wall + 4 * (3600 * nanosPerSecond)
    let winter := wall + 5 * (3600 * nanosPerSecond)
    if clockChange ≤ summer then .single winter
    else if winter < clockChange then .single summer
    else .ambiguous summer winter

def newYorkZones : Zones := fun name => if name = "America/New_York" then some newYork else none

theorem newYork_lawfulAt : newYork.LawfulAt ⟨1, 30, 0⟩ := by
  have hcandidate : ∀ date, newYork.candidate date ⟨1, 30, 0⟩ = some ((date - 719163) *
      (86400 * nanosPerSecond) + 5400 * nanosPerSecond +
      (if date ≤ 739193 then 4 else 5) * (3600 * nanosPerSecond)) := by
    intro date
    simp only [Zone.candidate, newYork]
    split_ifs <;> simp only [clockChange, nanosPerSecond] at * <;>
      first | omega | exact congrArg some (by omega)
  refine ⟨?_, ?_, ?_, ?_, ?_⟩
  · intro date earlier later h
    simp only [newYork] at h
    split_ifs at h
    cases h
    simp only [nanosPerSecond]
    omega
  · intro date instant hinstant
    cases (hcandidate date).symm.trans hinstant
    simp only [newYork, clockChange, nanosPerSecond]
    split_ifs <;> omega
  · intro date date' instant instant' hlt hinstant hinstant'
    cases (hcandidate date).symm.trans hinstant
    cases (hcandidate date').symm.trans hinstant'
    simp only [nanosPerSecond]
    split_ifs <;> omega
  · intro date instant start hlt hinstant
    cases (hcandidate date).symm.trans hinstant
    simp only [newYork, clockChange, nanosPerSecond] at hlt ⊢
    split_ifs at hlt ⊢ <;> omega
  · intro date hmax
    exact ⟨date, _, le_refl _, by omega, hcandidate date⟩

/-- Half past one comes twice on 3 November 2024. From 06:00 UTC it is still to come that day, at
06:30 UTC, yet no occurrence of the schedule falls on that date. -/
theorem repeated_time_skipped :
    newYork.fromLocal 739193 ⟨1, 30, 0⟩ = .ambiguous (clockChange - 1800 * nanosPerSecond)
      (clockChange + 1800 * nanosPerSecond) ∧
    newYork.localDate clockChange = 739193 ∧
    newYork.localDate (clockChange + 1800 * nanosPerSecond) = 739193 ∧
    (AutomationSchedule.daily ⟨1, 30, 0⟩).firstAtOrAfter newYorkZones clockChange
      "America/New_York" = .ok (clockChange + 88200 * nanosPerSecond) ∧
    ∀ n instant, (AutomationSchedule.daily ⟨1, 30, 0⟩).occurrence newYorkZones clockChange
      "America/New_York" n = .ok instant → newYork.localDate instant ≠ 739193 := by
  refine ⟨by decide, by decide, by decide, by decide, fun n instant h hdate => ?_⟩
  obtain ⟨-, hcandidate, hstart⟩ := occurrence_daily newYork_lawfulAt rfl h
  rw [hdate, show newYork.candidate 739193 ⟨1, 30, 0⟩ =
    some (clockChange - 1800 * nanosPerSecond) by decide] at hcandidate
  cases hcandidate
  revert hstart
  decide

end Stillflow.Automation
