import Stillflow.Automation.Store
import Stillflow.Automation.Occurrences

/-! The claim protocol over whole runs. -/

namespace Stillflow.Automation

open Stillflow.Core Stillflow.Storage Lib.Fallible Lib.Machine List ScheduleStore

variable {revision : Nat} {trigger : AutomationTrigger} {updatedAt : Int}

structure ClaimSystem where
  store : ScheduleStore
  issued : List AutomationTrigger
  acknowledged : List AutomationTrigger

/-- A call; acknowledgement and failure name a trigger by its position among the issued ones. -/
inductive AutomationCall where
  | create (access : Access) (draft : AutomationScheduleDraft)
  | claim (access : Access) (scheduleId : Uuid) (now : Int) (claimId : Uuid) (leaseSeconds : Nat)
  | acknowledge (access : Access) (issue : Nat) (nextRunAt submittedAt : Int)
  | fail (access : Access) (issue : Nat) (failure : String) (failedAt : Int)
  | setState (access : Access) (scheduleId : Uuid) (expectedRevision : Nat)
      (target : AutomationScheduleState) (changedAt : Int)

namespace ClaimSystem

def start (workspaces : List (Uuid × Bool)) : ClaimSystem := ⟨⟨workspaces, []⟩, [], []⟩

def handedOut : Except StorageError (Option AutomationTrigger) → List AutomationTrigger
  | .ok (some trigger) => [trigger]
  | _ => []

def answered {α : Type} (system : ClaimSystem) (result : Except StorageError α × ScheduleStore) :
    Except StorageError Unit × ClaimSystem :=
  (result.1.map fun _ => (), { system with store := result.2 })

def claim (system : ClaimSystem) (access : Access) (scheduleId : Uuid) (now : Int) (claimId : Uuid)
    (leaseSeconds : Nat) : Except StorageError Unit × ClaimSystem :=
  let result := system.store.claimDueAutomationSchedule access scheduleId now claimId leaseSeconds
  { system with issued := system.issued ++ handedOut result.1 }.answered result

def acknowledge (system : ClaimSystem) (zones : Zones) (access : Access)
    (trigger : AutomationTrigger) (nextRunAt submittedAt : Int) :
    Except StorageError Unit × ClaimSystem :=
  let result :=
    system.store.acknowledgeAutomationTrigger zones access trigger nextRunAt submittedAt
  { system with acknowledged := system.acknowledged ++
      if result.1.isOk then [trigger] else [] }.answered result

def step (zones : Zones) (system : ClaimSystem) :
    AutomationCall → Except StorageError Unit × ClaimSystem
  | .create access draft =>
    system.answered (system.store.createAutomationSchedule zones access draft)
  | .claim access scheduleId now claimId leaseSeconds =>
    system.claim access scheduleId now claimId leaseSeconds
  | .acknowledge access issue nextRunAt submittedAt =>
    match system.issued[issue]? with
    | none => (.ok (), system)
    | some trigger => system.acknowledge zones access trigger nextRunAt submittedAt
  | .fail access issue failure failedAt =>
    match system.issued[issue]? with
    | none => (.ok (), system)
    | some trigger =>
      system.answered (system.store.failAutomationTrigger access trigger failure failedAt)
  | .setState access scheduleId expectedRevision target changedAt =>
    system.answered (system.store.setAutomationScheduleState access scheduleId expectedRevision
      target changedAt)

def machine (zones : Zones) : Lib.Machine ClaimSystem AutomationCall (Except StorageError Unit) :=
  ⟨step zones⟩

def issuedFor (system : ClaimSystem) (id : Uuid) : List AutomationTrigger :=
  system.issued.filter (·.scheduleId = id)

def acknowledgedKeys (system : ClaimSystem) (id : Uuid) : List Int :=
  (system.acknowledged.filter (·.scheduleId = id)).map (·.occurrenceKey)

end ClaimSystem

def attemptsAt (issued : List AutomationTrigger) (occurrenceAt : Int) : List Nat :=
  (issued.filter (·.occurrenceAt = occurrenceAt)).map (·.attempt)

namespace AutomationScheduleRecord

def occurrence (record : AutomationScheduleRecord) (zones : Zones) (n : Nat) :
    Except AutomationScheduleError Int :=
  record.schedule.occurrence zones record.firstRunAt record.timezone n

/-- The attempt the row has reached for its next run. -/
def attempt (record : AutomationScheduleRecord) : Nat :=
  (record.inFlight.map (·.attempt)).getD record.lastSubmissionAttempt

/-- The trigger's claim is the row's, and its lease is unexpired. -/
def Live (record : AutomationScheduleRecord) (instant : Int) (trigger : AutomationTrigger) : Prop :=
  ScheduleStore.ensureMatchingClaim record trigger = .ok () ∧
    ∃ lease, record.inFlight = some lease ∧ instant < lease.leaseExpiresAt

end AutomationScheduleRecord

/-- A row against the triggers issued and the keys acknowledged for it. -/
structure RowInv (zones : Zones) (issued : List AutomationTrigger) (acknowledged : List Int)
    (record : AutomationScheduleRecord) : Prop where
  submitted : ∀ i key, acknowledged[i]? = some key → record.occurrence zones i = .ok key
  next : ∀ instant, record.nextRunAt = some instant →
    record.occurrence zones acknowledged.length = .ok instant
  reached : ∀ instant, record.nextRunAt = some instant →
    ∀ trigger ∈ issued, trigger.occurrenceAt ≤ instant
  genuine : ∀ trigger ∈ issued, trigger.schedule = record.schedule ∧
    trigger.timezone = record.timezone ∧ trigger.occurrenceKey = trigger.occurrenceAt ∧
    trigger.maxSubmissionAttempts = record.maxSubmissionAttempts
  flight : ∀ lease, record.inFlight = some lease → record.nextRunAt = some lease.occurrenceKey
  attempts : ∀ instant, ∃ count ≤ record.maxSubmissionAttempts,
    attemptsAt issued instant = List.range' 1 count
  current : ∀ instant, record.nextRunAt = some instant →
    attemptsAt issued instant = List.range' 1 record.attempt
  named : record.id ≠ 0
  bounded : 1 ≤ record.maxSubmissionAttempts ∧
    record.maxSubmissionAttempts ≤ maxAutomationSubmissionAttempts
  remaining : record.state ≠ .failed → record.inFlight = none →
    record.lastSubmissionAttempt < record.maxSubmissionAttempts

theorem attemptsAt_append (issued more : List AutomationTrigger) (instant : Int) :
    attemptsAt (issued ++ more) instant = attemptsAt issued instant ++ attemptsAt more instant := by
  rw [attemptsAt, filter_append, map_append]
  rfl

theorem nextAttempt_eq_some {record : AutomationScheduleRecord} {now instant : Int} {attempt : Nat}
    (h : nextAttempt record now = some (instant, attempt)) :
    record.state = .active ∧ record.nextRunAt = some instant ∧ instant ≤ now ∧
      attempt = record.attempt + 1 ∧
      ∀ lease, record.inFlight = some lease → lease.leaseExpiresAt ≤ now := by
  unfold nextAttempt at h
  unfold AutomationScheduleRecord.attempt
  split at h
  · rename_i next hstate hnext
    split_ifs at h with hdue
    cases hflight : record.inFlight with
    | none =>
      rw [hflight] at h
      cases h
      exact ⟨hstate, hnext, by omega, rfl, fun _ hlease => by cases hlease⟩
    | some lease =>
      rw [hflight] at h
      simp only at h
      split_ifs at h with hexpired
      cases h
      refine ⟨hstate, hnext, by omega, rfl, fun other hother => ?_⟩
      cases hother
      omega
  · cases h

namespace RowInv

variable {zones : Zones} {issued : List AutomationTrigger} {acknowledged : List Int}
  {record : AutomationScheduleRecord}

theorem claim (h : RowInv zones issued acknowledged record) {now instant expires : Int}
    {attempt : Nat} {claimId : Uuid}
    (hattempt : nextAttempt record now = some (instant, attempt))
    (hbound : attempt ≤ record.maxSubmissionAttempts) :
    RowInv zones (issued ++ [claimTrigger record instant claimId attempt])
      acknowledged { record with
        inFlight := some ⟨instant, claimId, attempt, expires⟩
        revision := revision
        updatedAt := updatedAt } := by
  obtain ⟨-, hnext, -, rfl, -⟩ := nextAttempt_eq_some hattempt
  refine ⟨h.submitted, h.next, ?_, ?_, ?_, ?_, ?_, h.named, h.bounded,
    fun _ hflight => (by cases hflight)⟩
  · intro other hother
    cases hnext.symm.trans hother
    exact forall_mem_append.mpr
      ⟨h.reached _ hnext, forall_mem_singleton.mpr (le_refl instant)⟩
  · exact forall_mem_append.mpr ⟨h.genuine, forall_mem_singleton.mpr ⟨rfl, rfl, rfl, rfl⟩⟩
  · intro lease hlease
    cases hlease
    exact hnext
  · intro other
    rw [attemptsAt_append]
    by_cases heq : instant = other
    · subst heq
      refine ⟨record.attempt + 1, hbound, ?_⟩
      rw [h.current _ hnext, range'_1_concat, Nat.add_comm 1]
      simp [attemptsAt, claimTrigger]
    · obtain ⟨count, hle, hcount⟩ := h.attempts other
      refine ⟨count, hle, ?_⟩
      rw [hcount]
      simp [attemptsAt, claimTrigger, heq]
  · intro other hother
    cases hnext.symm.trans hother
    rw [attemptsAt_append, h.current _ hnext]
    change _ = List.range' 1 (record.attempt + 1)
    rw [range'_1_concat, Nat.add_comm 1]
    simp [attemptsAt, claimTrigger]

theorem ensureMatchingClaim_eq_ok (h : ensureMatchingClaim record trigger = .ok ()) :
    ∃ lease, record.inFlight = some lease ∧ record.id = trigger.scheduleId ∧
      lease.claimId = trigger.claimId ∧ lease.occurrenceKey = trigger.occurrenceKey ∧
      lease.attempt = trigger.attempt := by
  unfold ensureMatchingClaim at h
  cases hflight : record.inFlight with
  | none =>
    rw [hflight] at h
    cases h
  | some lease =>
    rw [hflight] at h
    have hmatch := require_eq_ok.mp h
    exact ⟨lease, rfl, hmatch.1, hmatch.2.2.1, hmatch.2.2.2.1, hmatch.2.2.2.2⟩

theorem acknowledge (h : RowInv zones issued acknowledged record) (htrigger : trigger ∈ issued)
    {nextRunAt submittedAt : Int}
    (hvalid : validateAcknowledge zones trigger nextRunAt = .ok ())
    (hmatch : ensureMatchingClaim record trigger = .ok ()) :
    RowInv zones issued (acknowledged ++ [trigger.occurrenceKey])
      (record.submitted trigger nextRunAt submittedAt) := by
  obtain ⟨expected, hexpected, hcheck⟩ := of_bind hvalid
  have hcheck := require_eq_ok.mp hcheck
  have hafter := mapError_eq_ok.mp hexpected
  obtain ⟨lease, hflight, -, -, hkey, -⟩ := ensureMatchingClaim_eq_ok hmatch
  obtain ⟨hschedule, htimezone, hoccurrence, -⟩ := h.genuine trigger htrigger
  have hnext : record.nextRunAt = some trigger.occurrenceAt := by
    rw [h.flight lease hflight, hkey, hoccurrence]
  have hcurrent := h.next _ hnext
  have hfuture : record.occurrence zones (acknowledged.length + 1) = .ok nextRunAt := by
    rw [hschedule, htimezone] at hafter
    rw [AutomationScheduleRecord.occurrence] at hcurrent ⊢
    rw [AutomationSchedule.occurrence, hcurrent, ok_bind, hafter, hcheck.1]
  have hpassed : attemptsAt issued nextRunAt = [] := by
    rw [attemptsAt, map_eq_nil_iff, filter_eq_nil_iff]
    intro other hother heq
    have hle := h.reached _ hnext other hother
    have heq : other.occurrenceAt = nextRunAt := by simpa using heq
    omega
  refine ⟨?_, ?_, ?_, h.genuine, ?_, h.attempts, ?_, h.named, h.bounded, fun _ _ => h.bounded.1⟩
  · intro i key hi
    rcases Nat.lt_trichotomy i acknowledged.length with hlt | heq | hgt
    · rw [getElem?_append_left hlt] at hi
      exact h.submitted i key hi
    · rw [heq, getElem?_concat_length] at hi
      cases hi
      rw [heq, hoccurrence]
      exact hcurrent
    · rw [getElem?_eq_none (by simp; omega)] at hi
      cases hi
  · intro instant hinstant
    cases hinstant
    rw [length_append, length_singleton]
    exact hfuture
  · intro instant hinstant other hother
    cases hinstant
    have hle := h.reached _ hnext other hother
    omega
  · intro lease hlease
    cases hlease
  · intro instant hinstant
    cases hinstant
    rw [hpassed]
    rfl

/-- A failed attempt stays counted; a failed row has no next run. -/
theorem fail (h : RowInv zones issued acknowledged record) (htrigger : trigger ∈ issued)
    (hmatch : ensureMatchingClaim record trigger = .ok ())
    {state : AutomationScheduleState}
    (hstate : trigger.maxSubmissionAttempts ≤ trigger.attempt → state = .failed) {failure : String} :
    RowInv zones issued acknowledged { record with
      state := state
      nextRunAt := if state = .failed then none else record.nextRunAt
      inFlight := none
      lastFailure := some failure
      lastSubmissionAttempt := trigger.attempt
      revision := revision
      updatedAt := updatedAt } := by
  obtain ⟨lease, hflight, -, -, -, hattempt⟩ := ensureMatchingClaim_eq_ok hmatch
  have hkept : ∀ instant, (if state = .failed then none else record.nextRunAt) = some instant →
      record.nextRunAt = some instant := by
    intro instant hinstant
    split_ifs at hinstant
    exact hinstant
  have hreached : record.attempt = trigger.attempt := by
    rw [AutomationScheduleRecord.attempt, hflight, Option.map_some, Option.getD_some, hattempt]
  refine ⟨h.submitted, ?_, ?_, h.genuine, ?_, h.attempts, ?_, h.named, h.bounded, ?_⟩
  · exact fun instant hinstant => h.next instant (hkept instant hinstant)
  · exact fun instant hinstant => h.reached instant (hkept instant hinstant)
  · intro lease hlease
    cases hlease
  · intro instant hinstant
    rw [h.current instant (hkept instant hinstant), hreached]
    rfl
  · intro hopen _
    by_contra hexhausted
    have hmax := (h.genuine trigger htrigger).2.2.2
    exact hopen (hstate (by rw [hmax]; exact Nat.not_lt.mp hexhausted))

theorem setState (h : RowInv zones issued acknowledged record) (state : AutomationScheduleState)
    (hopen : record.state ≠ .failed) (revision : Nat) (updatedAt : Int) :
    RowInv zones issued acknowledged { record with
      state := state
      revision := revision
      updatedAt := updatedAt } :=
  ⟨h.submitted, h.next, h.reached, h.genuine, h.flight, h.attempts, h.current, h.named,
    h.bounded, fun _ => h.remaining hopen⟩

end RowInv

theorem rowInv_create {zones : Zones} {draft : AutomationScheduleDraft} {nextRunAt : Int}
    (h : validateDraft zones draft = .ok nextRunAt) :
    RowInv zones [] [] (draft.record nextRunAt) := by
  simp only [validateDraft, bind_eq_ok, exists_unit_iff] at h
  obtain ⟨hid, -, -, _, -, hbound, -, -, -, h⟩ := h
  have hbound := require_eq_ok.mp hbound
  refine ⟨fun i key hi => (by cases hi), ?_, fun _ _ _ htrigger => (by cases htrigger),
    fun _ htrigger => (by cases htrigger), fun _ hlease => (by cases hlease),
    fun _ => ⟨0, Nat.zero_le _, rfl⟩, fun _ _ => rfl, require_eq_ok.mp hid, hbound,
    fun _ _ => hbound.1⟩
  intro instant hinstant
  cases hinstant
  exact mapError_eq_ok.mp h

end Stillflow.Automation
