import Stillflow.Automation.Schedule

/-! The occurrence sequence of a schedule. -/

namespace Stillflow.Automation

open Stillflow.Core Lib.Fallible AutomationSchedule

variable {b date instant notBefore : Int} {n : Nat} {time : LocalTime} {zone : Zone}

/-- What the zone database guarantees of a zone at a wall-clock time: it resolves to instants of its
own date, on later dates to later instants, and is not missing for a whole year. -/
structure Zone.LawfulAt (zone : Zone) (time : LocalTime) : Prop where
  ordered : ∀ date earlier later, zone.fromLocal date time = .ambiguous earlier later →
    earlier ≤ later
  localDate : ∀ date instant, zone.candidate date time = some instant →
    zone.localDate instant = date
  increasing : ∀ date date' instant instant', date < date' →
    zone.candidate date time = some instant → zone.candidate date' time = some instant' →
    instant < instant'
  after : ∀ date instant start, zone.localDate start + 1 < date →
    zone.candidate date time = some instant → start < instant
  recurs : ∀ date, date + 367 ≤ maxDate → ∃ date' instant, date ≤ date' ∧ date' < date + 368 ∧
    zone.candidate date' time = some instant

/-- The instant selected for the wall-clock time of a date, not before an instant. -/
def Zone.Accepts (zone : Zone) (time : LocalTime) (notBefore : Int) (date : Int)
    (instant : Int) : Prop :=
  zone.candidate date time = some instant ∧ notBefore ≤ instant

theorem filter_candidate_eq_some :
    (zone.candidate date time).filter (notBefore ≤ ·) = some instant ↔
      zone.Accepts time notBefore date instant := by
  simp [Zone.Accepts, Option.filter_eq_some_iff]

theorem filter_candidate_eq_none :
    (zone.candidate date time).filter (notBefore ≤ ·) = none ↔
      ∀ instant, ¬zone.Accepts time notBefore date instant := by
  rw [Option.eq_none_iff_forall_ne_some]
  exact forall_congr' fun instant => not_congr filter_candidate_eq_some

theorem succDate_eq_some {date next : Int} :
    succDate date = some next ↔ date < maxDate ∧ next = date + 1 := by
  unfold succDate
  split_ifs with h
  · simp [h, eq_comm]
  · simp [h]

theorem searchDaily_eq_ok {days : Nat} (h : searchDaily zone time notBefore days date = .ok instant) :
    ∃ found, date ≤ found ∧ zone.Accepts time notBefore found instant ∧
      ∀ earlier, date ≤ earlier → earlier < found →
        ∀ instant', ¬zone.Accepts time notBefore earlier instant' := by
  induction days generalizing date with
  | zero => cases h
  | succ days ih =>
    rw [searchDaily] at h
    cases hcandidate : (zone.candidate date time).filter (notBefore ≤ ·) with
    | some candidate =>
      rw [hcandidate] at h
      cases h
      refine ⟨date, le_refl _, filter_candidate_eq_some.mp hcandidate, ?_⟩
      intro earlier hge hlt
      omega
    | none =>
      have hnone := filter_candidate_eq_none.mp hcandidate
      rw [hcandidate] at h
      cases hnext : succDate date with
      | none =>
        rw [hnext] at h
        cases h
      | some next =>
        rw [hnext] at h
        obtain ⟨-, rfl⟩ := succDate_eq_some.mp hnext
        obtain ⟨found, hfound, haccepts, hfirst⟩ := ih h
        refine ⟨found, by omega, haccepts, fun earlier hge hlt => ?_⟩
        by_cases heq : earlier = date
        · rw [heq]
          exact hnone
        · exact hfirst earlier (by omega) hlt

theorem searchDaily_of_accepts {days : Nat} {date found : Int} (hge : date ≤ found)
    (hlt : found < date + days) (hmax : found ≤ maxDate)
    (haccepts : zone.Accepts time notBefore found instant)
    (hfirst : ∀ earlier, date ≤ earlier → earlier < found →
      ∀ instant', ¬zone.Accepts time notBefore earlier instant') :
    searchDaily zone time notBefore days date = .ok instant := by
  induction days generalizing date with
  | zero => omega
  | succ days ih =>
    rw [searchDaily]
    by_cases heq : date = found
    · rw [heq, filter_candidate_eq_some.mpr haccepts]
    · have hnone := filter_candidate_eq_none.mpr (hfirst date (le_refl _) (by omega))
      have hnext := succDate_eq_some.mpr ⟨show date < maxDate by omega, rfl⟩
      rw [hnone, hnext]
      exact ih (by omega) (by omega) fun earlier hearlier => hfirst earlier (by omega)

variable {schedule : AutomationSchedule} {zones : Zones} {timezone : String} {zone : Zone}
  {start instant : Int}

theorem validateTimezone_eq_ok (h : validateTimezone zones timezone = .ok zone) :
    zones timezone = some zone := by
  unfold validateTimezone at h
  split_ifs at h
  cases hzone : zones timezone with
  | none =>
    rw [hzone] at h
    cases h
  | some other =>
    rw [hzone] at h
    cases h
    rfl

theorem firstAtOrAfter_daily (hzone : zones timezone = some zone)
    (h : (daily time).firstAtOrAfter zones start timezone = .ok instant) :
    searchDaily zone time start maxDailySearchDays (zone.localDate start) = .ok instant := by
  obtain ⟨_, -, h⟩ := of_bind h
  obtain ⟨other, hother, h⟩ := of_bind h
  cases (validateTimezone_eq_ok hother).symm.trans hzone
  exact h

theorem nextAfter_daily {previous : Int} (hzone : zones timezone = some zone)
    (h : (daily time).nextAfter zones previous timezone = .ok instant) :
    searchDaily zone time previous maxDailySearchDays (zone.localDate previous + 1) =
      .ok instant := by
  obtain ⟨_, -, h⟩ := of_bind h
  obtain ⟨other, hother, h⟩ := of_bind h
  cases (validateTimezone_eq_ok hother).symm.trans hzone
  simp only at h
  cases hnext : succDate (zone.localDate previous) with
  | none =>
    rw [hnext] at h
    cases h
  | some next =>
    rw [hnext] at h
    obtain ⟨-, rfl⟩ := succDate_eq_some.mp hnext
    exact h

theorem nextAfter_interval {period : Nat} {previous : Int}
    (h : (interval period).nextAfter zones previous timezone = .ok instant) :
    previous < instant := by
  obtain ⟨_, hperiod, h⟩ := of_bind h
  obtain ⟨other, -, h⟩ := of_bind h
  have hpos : 1 ≤ period := (require_eq_ok.mp hperiod).1
  simp only [addSeconds] at h
  split at h
  · rename_i next hnext
    cases h
    split_ifs at hnext
    cases hnext
    have hnanos : (0 : Int) < period * nanosPerSecond := by
      have : (0 : Int) < nanosPerSecond := by decide
      positivity
    omega
  · cases h

/-- A date of the schedule: the instant selected for its wall-clock time is not before the start. A
repeated time counts by its earlier instant only. -/
def Occurs (zone : Zone) (time : LocalTime) (start : Int) (date : Int) (instant : Int) :
    Prop :=
  zone.localDate start ≤ date ∧ zone.Accepts time start date instant

theorem occurrence_daily (hlawful : zone.LawfulAt time) (hzone : zones timezone = some zone)
    (h : (daily time).occurrence zones start timezone n = .ok instant) :
    Occurs zone time start (zone.localDate instant) instant := by
  induction n generalizing instant with
  | zero =>
    obtain ⟨found, hge, haccepts, -⟩ := searchDaily_eq_ok (firstAtOrAfter_daily hzone h)
    rw [hlawful.localDate _ _ haccepts.1]
    exact ⟨hge, haccepts⟩
  | succ n ih =>
    obtain ⟨previous, hprevious, h⟩ := of_bind h
    obtain ⟨hdate, haccepted⟩ := ih hprevious
    obtain ⟨found, hge, haccepts, -⟩ := searchDaily_eq_ok (nextAfter_daily hzone h)
    rw [hlawful.localDate _ _ haccepts.1]
    exact ⟨by omega, haccepts.1, le_trans haccepted.2 haccepts.2⟩

theorem occurrence_lt_succ {a b : Int}
    (hlawful : ∀ zone time, zones timezone = some zone → schedule = .daily time →
      zone.LawfulAt time) (ha : schedule.occurrence zones start timezone n = .ok a)
    (hb : schedule.occurrence zones start timezone (n + 1) = .ok b) : a < b := by
  obtain ⟨previous, hprevious, hb⟩ := of_bind hb
  cases ha.symm.trans hprevious
  cases schedule with
  | interval period => exact nextAfter_interval hb
  | daily time =>
    obtain ⟨_, -, hvalid⟩ := of_bind hb
    obtain ⟨zone, hzone, -⟩ := of_bind hvalid
    have hzone := validateTimezone_eq_ok hzone
    have hlaw := hlawful zone time hzone rfl
    obtain ⟨-, haccepted⟩ := occurrence_daily hlaw hzone ha
    obtain ⟨found, hge, haccepts, -⟩ := searchDaily_eq_ok (nextAfter_daily hzone hb)
    exact hlaw.increasing _ _ _ _ (show zone.localDate a < found by omega) haccepted.1
      haccepts.1

theorem occurrence_of_le {n m : Nat} (h : n ≤ m)
    (hb : schedule.occurrence zones start timezone m = .ok b) :
    ∃ a, schedule.occurrence zones start timezone n = .ok a := by
  induction h generalizing b with
  | refl => exact ⟨b, hb⟩
  | step _ ih =>
    obtain ⟨previous, hprevious, -⟩ := of_bind hb
    exact ih hprevious

theorem occurrence_strictMono {n m : Nat} {a b : Int}
    (hlawful : ∀ zone time, zones timezone = some zone → schedule = .daily time →
      zone.LawfulAt time) (hlt : n < m)
    (ha : schedule.occurrence zones start timezone n = .ok a)
    (hb : schedule.occurrence zones start timezone m = .ok b) : a < b := by
  induction hlt generalizing b with
  | refl => exact occurrence_lt_succ hlawful ha hb
  | step hle ih =>
    obtain ⟨c, hc⟩ := occurrence_of_le (Nat.le_succ _) hb
    exact lt_trans (ih hc) (occurrence_lt_succ hlawful hc hb)

theorem none_or_last_below (P : Nat → Prop) (bound : Nat) :
    (∀ k < bound, ¬P k) ∨ ∃ k < bound, P k ∧ ∀ l, k < l → l < bound → ¬P l := by
  induction bound with
  | zero => exact .inl fun k hk => absurd hk (Nat.not_lt_zero k)
  | succ bound ih =>
    by_cases hbound : P bound
    · exact .inr ⟨bound, by omega, hbound, fun l hl hlt => by omega⟩
    · rcases ih with hnone | ⟨k, hk, hP, hlast⟩
      · refine .inl fun k hk => ?_
        by_cases heq : k = bound
        · rw [heq]
          exact hbound
        · exact hnone k (by omega)
      · refine .inr ⟨k, by omega, hP, fun l hkl hl => ?_⟩
        by_cases heq : l = bound
        · rw [heq]
          exact hbound
        · exact hlast l hkl (by omega)

theorem firstAtOrAfter_of_first (hlawful : zone.LawfulAt time)
    (hvalid : (daily time).validate = .ok ())
    (hzone : validateTimezone zones timezone = .ok zone) (hmax : date ≤ maxDate)
    (hoccurs : Occurs zone time start date instant)
    (hfirst : ∀ earlier, earlier < date → ∀ instant', ¬Occurs zone time start earlier instant') :
    (daily time).occurrence zones start timezone 0 = .ok instant := by
  have hbound : date < zone.localDate start + maxDailySearchDays := by
    by_contra hfar
    have hdays : (maxDailySearchDays : Int) = 370 := rfl
    obtain ⟨recurring, found, hge, hlt, hfound⟩ :=
      hlawful.recurs (zone.localDate start + 2) (by omega)
    have hafter := hlawful.after recurring found start (by omega) hfound
    exact hfirst recurring (by omega) found ⟨by omega, hfound, le_of_lt hafter⟩
  have hsearch := searchDaily_of_accepts hoccurs.1 hbound hmax hoccurs.2
    fun earlier hge hlt instant' haccepts => hfirst earlier hlt instant' ⟨hge, haccepts⟩
  rw [occurrence, firstAtOrAfter, hvalid, ok_bind, hzone,
    ok_bind]
  exact hsearch

theorem occurrence_succ_of_next {date date' : Int} {instant' : Int}
    (hlawful : zone.LawfulAt time) (hvalid : (daily time).validate = .ok ())
    (hzone : validateTimezone zones timezone = .ok zone)
    (hn : (daily time).occurrence zones start timezone n = .ok instant)
    (hoccurs : Occurs zone time start date instant) (hlt : date < date') (hmax : date' ≤ maxDate)
    (hoccurs' : Occurs zone time start date' instant')
    (hnone : ∀ between, date < between → between < date' →
      ∀ other, ¬Occurs zone time start between other) :
    (daily time).occurrence zones start timezone (n + 1) = .ok instant' := by
  have hlater : ∀ later other, date < later → zone.candidate later time = some other →
      instant < other := fun later other hlater hother =>
    hlawful.increasing _ _ _ _ hlater hoccurs.2.1 hother
  have hnoneAccepted : ∀ between, date + 1 ≤ between → between < date' →
      ∀ other, ¬zone.Accepts time instant between other := by
    intro between hge hlt other haccepts
    have hdate := hoccurs.1
    exact hnone between (by omega) hlt other
      ⟨by omega, haccepts.1, le_trans hoccurs.2.2 haccepts.2⟩
  have hbound : date' < date + 1 + maxDailySearchDays := by
    by_contra hfar
    have hdays : (maxDailySearchDays : Int) = 370 := rfl
    obtain ⟨recurring, found, hge, hltRecurring, hfound⟩ :=
      hlawful.recurs (date + 1) (by omega)
    exact hnoneAccepted recurring hge (by omega) found
      ⟨hfound, le_of_lt (hlater recurring found (by omega) hfound)⟩
  have haccepts : zone.Accepts time instant date' instant' :=
    ⟨hoccurs'.2.1, le_of_lt (hlater date' instant' hlt hoccurs'.2.1)⟩
  have hsearch := searchDaily_of_accepts (by omega) hbound hmax haccepts hnoneAccepted
  have hdate : zone.localDate instant = date := hlawful.localDate _ _ hoccurs.2.1
  have hsucc : succDate date = some (date + 1) := succDate_eq_some.mpr ⟨by omega, rfl⟩
  rw [occurrence, hn, ok_bind, nextAfter, hvalid, ok_bind,
    hzone, ok_bind]
  simp only [hdate, hsucc]
  exact hsearch

theorem exists_occurrence (hlawful : zone.LawfulAt time)
    (hvalid : (daily time).validate = .ok ())
    (hzone : validateTimezone zones timezone = .ok zone) (hmax : date ≤ maxDate)
    (hoccurs : Occurs zone time start date instant) :
    ∃ n, (daily time).occurrence zones start timezone n = .ok instant := by
  obtain ⟨k, hk⟩ : ∃ k : Nat, date = zone.localDate start + k :=
    ⟨(date - zone.localDate start).toNat, by have := hoccurs.1; omega⟩
  induction k using Nat.strong_induction_on generalizing date instant with
  | _ k ih =>
    rcases none_or_last_below
      (fun l => ∃ other, Occurs zone time start (zone.localDate start + l) other) k with
      hnone | ⟨l, hl, ⟨other, hother⟩, hlast⟩
    · refine ⟨0, firstAtOrAfter_of_first hlawful hvalid hzone hmax hoccurs ?_⟩
      intro earlier hearlier instant' hoccurs'
      have hge := hoccurs'.1
      refine hnone (earlier - zone.localDate start).toNat (by omega) ⟨instant', ?_⟩
      rw [show zone.localDate start + ((earlier - zone.localDate start).toNat : Int) = earlier by
        omega]
      exact hoccurs'
    · obtain ⟨n, hn⟩ := ih l hl (by omega) hother rfl
      refine ⟨n + 1, occurrence_succ_of_next hlawful hvalid hzone hn hother (by omega) hmax
        hoccurs ?_⟩
      intro between hgt hlt instant' hoccurs'
      have hge := hoccurs'.1
      refine hlast (between - zone.localDate start).toNat (by omega) (by omega) ⟨instant', ?_⟩
      rw [show zone.localDate start + ((between - zone.localDate start).toNat : Int) = between by
        omega]
      exact hoccurs'

end Stillflow.Automation
