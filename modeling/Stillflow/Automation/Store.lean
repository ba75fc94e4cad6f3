import Stillflow.Automation.Schedule
import Stillflow.Storage.SafeJson

/-! Durable scheduler state. -/

namespace Stillflow.Automation

open Stillflow.Core Stillflow.Storage Lib.Fallible

def maxAutomationTemplateBytes : Nat := 256 * 1024

def maxAutomationSubmissionAttempts : Nat := 8

def maxDueListLimit : Nat := 1024

def maxClaimLeaseSeconds : Nat := 3600

def maxFailureBytes : Nat := 1024

inductive AutomationScheduleState where
  | active
  | paused
  | failed
  | deleted
deriving DecidableEq, Repr

structure AutomationScheduleDraft where
  id : Uuid
  workspaceId : Uuid
  schedule : AutomationSchedule
  timezone : String
  template : Value
  firstRunAt : Int
  maxSubmissionAttempts : Nat
  createdAt : Int

structure AutomationTriggerLease where
  occurrenceKey : Int
  claimId : Uuid
  attempt : Nat
  leaseExpiresAt : Int

structure AutomationScheduleRecord where
  id : Uuid
  workspaceId : Uuid
  schedule : AutomationSchedule
  timezone : String
  template : Value
  state : AutomationScheduleState
  firstRunAt : Int
  nextRunAt : Option Int
  lastSubmittedAt : Option Int
  lastOccurrenceKey : Option Int
  inFlight : Option AutomationTriggerLease
  maxSubmissionAttempts : Nat
  lastSubmissionAttempt : Nat
  revision : Nat
  lastFailure : Option String
  createdAt : Int
  updatedAt : Int

structure AutomationTrigger where
  scheduleId : Uuid
  workspaceId : Uuid
  schedule : AutomationSchedule
  timezone : String
  template : Value
  occurrenceAt : Int
  occurrenceKey : Int
  claimId : Uuid
  attempt : Nat
  maxSubmissionAttempts : Nat

/-- The schedule table and the workspaces, with whether they are active. -/
structure ScheduleStore where
  workspaces : List (Uuid × Bool)
  schedules : List AutomationScheduleRecord

def validateId (id : Uuid) (label : String) : Except StorageError Unit :=
  require (id ≠ 0) (.invalidDraft label)

def AutomationScheduleDraft.record (draft : AutomationScheduleDraft) (nextRunAt : Int) :
    AutomationScheduleRecord where
  id := draft.id
  workspaceId := draft.workspaceId
  schedule := draft.schedule
  timezone := draft.timezone
  template := draft.template
  state := .active
  firstRunAt := draft.firstRunAt
  nextRunAt := some nextRunAt
  lastSubmittedAt := none
  lastOccurrenceKey := none
  inFlight := none
  maxSubmissionAttempts := draft.maxSubmissionAttempts
  lastSubmissionAttempt := 0
  revision := 1
  lastFailure := none
  createdAt := draft.createdAt
  updatedAt := draft.createdAt

/-- The row after a trigger was submitted. -/
def AutomationScheduleRecord.submitted (record : AutomationScheduleRecord)
    (trigger : AutomationTrigger) (nextRunAt submittedAt : Int) : AutomationScheduleRecord :=
  { record with
    nextRunAt := some nextRunAt
    lastSubmittedAt := some submittedAt
    lastOccurrenceKey := some trigger.occurrenceKey
    inFlight := none
    lastFailure := none
    lastSubmissionAttempt := 0
    revision := record.revision + 1
    updatedAt := max submittedAt record.updatedAt }

namespace ScheduleStore

def find (store : ScheduleStore) (id : Uuid) : Except StorageError AutomationScheduleRecord :=
  okOr (store.schedules.find? (·.id = id)) (.notFound id)

def update (store : ScheduleStore) (record : AutomationScheduleRecord) : ScheduleStore :=
  { store with schedules := store.schedules.map fun row =>
      if row.id = record.id then record else row }

def ensureWorkspaceActive (store : ScheduleStore) (workspaceId : Uuid) :
    Except StorageError Unit := do
  let active ← okOr (store.workspaces.lookup workspaceId) (.notFound workspaceId)
  require (active = true) (.busy "automation workspace is not active")

def validateDraft (zones : Zones) (draft : AutomationScheduleDraft) :
    Except StorageError Int := do
  validateId draft.id "automation schedule"
  validateId draft.workspaceId "automation workspace"
  draft.schedule.validate.mapError fun _ => .invalidDraft "automation schedule is invalid"
  let _ ← (validateTimezone zones draft.timezone).mapError fun _ =>
    .invalidDraft "automation timezone is invalid"
  require (1 ≤ draft.maxSubmissionAttempts ∧
      draft.maxSubmissionAttempts ≤ maxAutomationSubmissionAttempts)
    (.invalidDraft "automation submission retry bound is invalid")
  validateSafeJson draft.template false
  require (draft.template.byteLen ≤ maxAutomationTemplateBytes)
    (.invalidDraft "automation template exceeds its byte bound")
  require (draft.createdAt ≤ draft.firstRunAt)
    (.invalidTimestampOrder "automation creation and first run")
  (draft.schedule.firstAtOrAfter zones draft.firstRunAt draft.timezone).mapError fun _ =>
    .invalidDraft "automation first run is invalid"

def createBody (store : ScheduleStore) (draft : AutomationScheduleDraft) (nextRunAt : Int) :
    Except StorageError (AutomationScheduleRecord × ScheduleStore) := do
  store.ensureWorkspaceActive draft.workspaceId
  require (draft.id ∉ store.schedules.map (·.id)) (.alreadyExists draft.id)
  let record := draft.record nextRunAt
  return (record, { store with schedules := store.schedules ++ [record] })

def createAutomationSchedule (store : ScheduleStore) (zones : Zones) (access : Access)
    (draft : AutomationScheduleDraft) :
    Except StorageError AutomationScheduleRecord × ScheduleStore :=
  afterCheck (validateDraft zones draft) store fun nextRunAt =>
    transact access store (store.createBody draft nextRunAt)

/-- The order of the due list: by next run, then by id. -/
def DueOrder (a b : AutomationScheduleRecord) : Prop :=
  a.nextRunAt.getD 0 < b.nextRunAt.getD 0 ∨
    a.nextRunAt.getD 0 = b.nextRunAt.getD 0 ∧ a.id.toNat ≤ b.id.toNat

instance : DecidableRel DueOrder := by
  unfold DueOrder
  infer_instance

def Due (workspaceId : Uuid) (now : Int) (record : AutomationScheduleRecord) : Prop :=
  record.workspaceId = workspaceId ∧ record.state = .active ∧ ∃ next ∈ record.nextRunAt, next ≤ now

instance (workspaceId : Uuid) (now : Int) (record : AutomationScheduleRecord) :
    Decidable (Due workspaceId now record) := by
  unfold Due
  infer_instance

def listDueIds (store : ScheduleStore) (workspaceId : Uuid) (now : Int) (limit : Nat) :
    Except StorageError (List Uuid) := do
  require (workspaceId ≠ 0 ∧ limit ≠ 0 ∧ limit ≤ maxDueListLimit)
    (.invalidDraft "automation due-list bound is invalid")
  return (((store.schedules.filter (Due workspaceId now)).insertionSort DueOrder).take limit).map
    (·.id)

/-- The attempt a claim of this row would be, unless the row is not due or its lease runs. -/
def nextAttempt (record : AutomationScheduleRecord) (now : Int) : Option (Int × Nat) :=
  match record.state, record.nextRunAt with
  | .active, some next =>
    if now < next then none
    else match record.inFlight with
      | some lease => if now < lease.leaseExpiresAt then none else some (next, lease.attempt + 1)
      | none => some (next, record.lastSubmissionAttempt + 1)
  | _, _ => none

def claimTrigger (record : AutomationScheduleRecord) (occurrenceAt : Int) (claimId : Uuid)
    (attempt : Nat) : AutomationTrigger where
  scheduleId := record.id
  workspaceId := record.workspaceId
  schedule := record.schedule
  timezone := record.timezone
  template := record.template
  occurrenceAt := occurrenceAt
  occurrenceKey := occurrenceAt
  claimId := claimId
  attempt := attempt
  maxSubmissionAttempts := record.maxSubmissionAttempts

/-- The argument checks of a claim, with the end of its lease. -/
def validateClaim (scheduleId : Uuid) (now : Int) (claimId : Uuid) (leaseSeconds : Nat) :
    Except StorageError Int := do
  validateId scheduleId "automation schedule"
  validateId claimId "automation claim"
  require (leaseSeconds ≠ 0 ∧ leaseSeconds ≤ maxClaimLeaseSeconds)
    (.invalidDraft "automation claim lease is outside its bound")
  okOr (addSeconds now leaseSeconds) (.arithmeticOverflow "automation claim lease")

def claimBody (store : ScheduleStore) (scheduleId : Uuid) (now : Int) (claimId : Uuid)
    (leaseExpiresAt : Int) : Except StorageError (Option AutomationTrigger × ScheduleStore) := do
  let record ← store.find scheduleId
  match nextAttempt record now with
  | none => return (none, store)
  | some (occurrenceAt, attempt) => do
    require (attempt ≤ 255) (.arithmeticOverflow "automation attempt")
    require (attempt ≤ record.maxSubmissionAttempts)
      (.busy "automation submission attempts are exhausted")
    require (record.revision ≤ i64Max) (.arithmeticOverflow "automation schedule revision")
    return (some (claimTrigger record occurrenceAt claimId attempt), store.update
      { record with
        inFlight := some ⟨occurrenceAt, claimId, attempt, leaseExpiresAt⟩
        revision := record.revision + 1
        updatedAt := max now record.updatedAt })

def claimDueAutomationSchedule (store : ScheduleStore) (access : Access) (scheduleId : Uuid)
    (now : Int) (claimId : Uuid) (leaseSeconds : Nat) :
    Except StorageError (Option AutomationTrigger) × ScheduleStore :=
  afterCheck (validateClaim scheduleId now claimId leaseSeconds) store fun leaseExpiresAt =>
    transact access store (store.claimBody scheduleId now claimId leaseExpiresAt)

def ensureMatchingClaim (record : AutomationScheduleRecord) (trigger : AutomationTrigger) :
    Except StorageError Unit :=
  match record.inFlight with
  | none => .error (.busy "automation trigger is no longer in flight")
  | some claim =>
    require (record.id = trigger.scheduleId ∧ record.workspaceId = trigger.workspaceId ∧
        claim.claimId = trigger.claimId ∧ claim.occurrenceKey = trigger.occurrenceKey ∧
        claim.attempt = trigger.attempt)
      (.busy "automation trigger claim does not match")

def validateAcknowledge (zones : Zones) (trigger : AutomationTrigger) (nextRunAt : Int) :
    Except StorageError Unit := do
  let expectedNext ← (trigger.schedule.nextAfter zones trigger.occurrenceAt
    trigger.timezone).mapError fun _ => .invalidDraft "automation next run is invalid"
  require (nextRunAt = expectedNext ∧ trigger.occurrenceAt < nextRunAt)
    (.invalidDraft "automation next run does not match its schedule")

def acknowledgeBody (store : ScheduleStore) (trigger : AutomationTrigger)
    (nextRunAt submittedAt : Int) :
    Except StorageError (AutomationScheduleRecord × ScheduleStore) := do
  let record ← store.find trigger.scheduleId
  ensureMatchingClaim record trigger
  require (record.revision ≤ i64Max) (.arithmeticOverflow "automation schedule revision")
  let updated := record.submitted trigger nextRunAt submittedAt
  return (updated, store.update updated)

def acknowledgeAutomationTrigger (store : ScheduleStore) (zones : Zones) (access : Access)
    (trigger : AutomationTrigger) (nextRunAt submittedAt : Int) :
    Except StorageError AutomationScheduleRecord × ScheduleStore :=
  afterCheck (validateAcknowledge zones trigger nextRunAt) store fun _ =>
    transact access store (store.acknowledgeBody trigger nextRunAt submittedAt)

def validateFailure (failure : String) : Except StorageError Unit :=
  require (failure ≠ "" ∧ byteLen failure ≤ maxFailureBytes ∧ isSecretValue failure = false)
    (.invalidDraft "automation failure is not safe to persist")

def failBody (store : ScheduleStore) (trigger : AutomationTrigger) (failure : String)
    (failedAt : Int) : Except StorageError (AutomationScheduleRecord × ScheduleStore) := do
  let record ← store.find trigger.scheduleId
  ensureMatchingClaim record trigger
  require (record.revision ≤ i64Max) (.arithmeticOverflow "automation schedule revision")
  let terminal := trigger.maxSubmissionAttempts ≤ trigger.attempt
  let state := if terminal then .failed else record.state
  let updated := { record with
    state := state
    nextRunAt := if state = .failed then none else record.nextRunAt
    inFlight := none
    lastFailure := some failure
    lastSubmissionAttempt := trigger.attempt
    revision := record.revision + 1
    updatedAt := max failedAt record.updatedAt }
  return (updated, store.update updated)

def failAutomationTrigger (store : ScheduleStore) (access : Access) (trigger : AutomationTrigger)
    (failure : String) (failedAt : Int) :
    Except StorageError AutomationScheduleRecord × ScheduleStore :=
  afterCheck (validateFailure failure) store fun _ =>
    transact access store (store.failBody trigger failure failedAt)

def validateStateChange (scheduleId : Uuid) (target : AutomationScheduleState) :
    Except StorageError Unit := do
  validateId scheduleId "automation schedule"
  require (target = .active ∨ target = .paused)
    (.invalidDraft "AUT-J1 only supports pause and resume state changes")

def setStateBody (store : ScheduleStore) (scheduleId : Uuid) (expectedRevision : Nat)
    (target : AutomationScheduleState) (changedAt : Int) :
    Except StorageError (AutomationScheduleRecord × ScheduleStore) := do
  let record ← store.find scheduleId
  require (record.state = .active ∨ record.state = .paused)
    (.busy "automation schedule is terminal")
  require (expectedRevision ≤ i64Max) (.arithmeticOverflow "automation schedule revision")
  require (record.revision = expectedRevision) (.busy "automation schedule revision is stale")
  let updated := { record with
    state := target
    revision := record.revision + 1
    updatedAt := max changedAt record.updatedAt }
  return (updated, store.update updated)

/-- Pause or resume at an expected revision. -/
def setAutomationScheduleState (store : ScheduleStore) (access : Access) (scheduleId : Uuid)
    (expectedRevision : Nat) (target : AutomationScheduleState) (changedAt : Int) :
    Except StorageError AutomationScheduleRecord × ScheduleStore :=
  afterCheck (validateStateChange scheduleId target) store fun _ =>
    transact access store (store.setStateBody scheduleId expectedRevision target changedAt)

end ScheduleStore

end Stillflow.Automation
