import Stillflow.Automation.Runs

/-!
The scheduler tick: list the due schedules, claim each one, hand its job to the runtime and close
the trigger. What the job factory and the runtime answer, and where the process crashes, is given.
-/

namespace Stillflow.Automation

open Stillflow.Core Stillflow.Storage Lib.Fallible Lib.Machine

def schedulerMaxDuePerTick : Nat := 64

/-- Durations are nanoseconds. -/
structure AutomationSchedulerConfig where
  pollInterval : Nat
  claimLease : Nat
  maxDuePerTick : Nat
deriving DecidableEq, Repr

inductive AutomationSchedulerError where
  | storage (fault : StorageError)
  | invalid (message : String)
  | crashed
deriving DecidableEq, Repr

def AutomationSchedulerConfig.validate (config : AutomationSchedulerConfig) :
    Except AutomationSchedulerError AutomationSchedulerConfig := do
  require (¬(config.pollInterval = 0 ∨ config.claimLease = 0 ∨
      3600 * 10 ^ 9 < config.claimLease ∨ config.maxDuePerTick = 0 ∨
      schedulerMaxDuePerTick < config.maxDuePerTick))
    (.invalid "scheduler bound is outside the supported range")
  return config

/-- `Duration::as_secs` of the claim lease. -/
def AutomationSchedulerConfig.leaseSeconds (config : AutomationSchedulerConfig) : Nat :=
  config.claimLease / 10 ^ 9

structure AutomationTickReport where
  dueSchedules : Nat := 0
  claimed : Nat := 0
  submitted : Nat := 0
  replayed : Nat := 0
  failed : Nat := 0
deriving DecidableEq, Repr

/-- The schedule and the occurrence an idempotency key is printed from. -/
abbrev IdempotencyKey := Uuid × Int

def occurrenceIdempotencyKey (trigger : AutomationTrigger) : IdempotencyKey :=
  (trigger.scheduleId, trigger.occurrenceAt)

/-- What the scheduler reads of a job submission. -/
structure AutomationJob where
  idempotencyKey : IdempotencyKey
  workspaceId : Uuid

/-- The surroundings of one tick: drawn claim ids, store access, the job factory, the runtime's
receipts, and the claims after which the process crashes. -/
structure SchedulerEnv where
  workspaceId : Uuid
  config : AutomationSchedulerConfig
  zones : Zones
  nextId : Uuid → Uuid
  listFault : Option StorageError
  claimAccess : Uuid → Access
  closeAccess : Uuid → Access
  build : AutomationTrigger → IdempotencyKey → Option AutomationJob
  submit : AutomationJob → Option Bool
  crashes : AutomationTrigger → Bool

namespace SchedulerEnv

/-- Why a claimed trigger is failed, or whether its submission was a replay. -/
def submission (env : SchedulerEnv) (trigger : AutomationTrigger) : Except String Bool :=
  match env.build trigger (occurrenceIdempotencyKey trigger) with
  | none => .error "automation could not build an E5 Job submission"
  | some job =>
    if job.idempotencyKey ≠ occurrenceIdempotencyKey trigger ∨
        job.workspaceId ≠ trigger.workspaceId then
      .error "automation factory returned an invalid E5 Job submission"
    else match env.submit job with
      | none => .error "E5 Job submission failed"
      | some replayed => .ok replayed

/-- Submits the job of a claimed trigger and acknowledges or fails the trigger. -/
def close (env : SchedulerEnv) (now : Int) (trigger : AutomationTrigger)
    (report : AutomationTickReport) (system : ClaimSystem) :
    Except AutomationSchedulerError AutomationTickReport × ClaimSystem :=
  if env.crashes trigger then (.error .crashed, system)
  else match env.submission trigger with
  | .error failure =>
    let result := system.answered (system.store.failAutomationTrigger
      (env.closeAccess trigger.scheduleId) trigger failure now)
    (match result.1 with
      | .error fault => .error (.storage fault)
      | .ok _ => .ok { report with failed := report.failed + 1 }, result.2)
  | .ok replayed =>
    match trigger.schedule.nextAfter env.zones trigger.occurrenceAt trigger.timezone with
    | .error _ => (.error (.invalid "automation next run is invalid"), system)
    | .ok nextRunAt =>
      let result := system.acknowledge env.zones (env.closeAccess trigger.scheduleId) trigger
        nextRunAt now
      (match result.1 with
        | .error fault => .error (.storage fault)
        | .ok _ => .ok { report with
            submitted := report.submitted + 1
            replayed := report.replayed + if replayed then 1 else 0 }, result.2)

/-- One schedule of the due list; a busy schedule is passed over. -/
def visit (env : SchedulerEnv) (now : Int) (report : AutomationTickReport) (system : ClaimSystem)
    (scheduleId : Uuid) : Except AutomationSchedulerError AutomationTickReport × ClaimSystem :=
  let claim := system.store.claimDueAutomationSchedule (env.claimAccess scheduleId) scheduleId now
    (env.nextId scheduleId) env.config.leaseSeconds
  let claimed := (system.claim (env.claimAccess scheduleId) scheduleId now
    (env.nextId scheduleId) env.config.leaseSeconds).2
  match claim.1 with
  | .ok (some trigger) => env.close now trigger { report with claimed := report.claimed + 1 } claimed
  | .ok none => (.ok report, claimed)
  | .error (.busy _) => (.ok report, claimed)
  | .error fault => (.error (.storage fault), claimed)

/-- The loop over the due list; an error ends the tick. -/
def visitAll (env : SchedulerEnv) (now : Int) : AutomationTickReport → ClaimSystem → List Uuid →
    Except AutomationSchedulerError AutomationTickReport × ClaimSystem
  | report, system, [] => (.ok report, system)
  | report, system, scheduleId :: rest =>
    match env.visit now report system scheduleId with
    | (.error fault, system) => (.error fault, system)
    | (.ok report, system) => visitAll env now report system rest

/-- `tick_inner`: a clock that went back is held at the last observed instant. -/
def tick (env : SchedulerEnv) (lastObserved : Option Int) (now : Int) (system : ClaimSystem) :
    Except AutomationSchedulerError AutomationTickReport × Option Int × ClaimSystem :=
  let effectiveNow := (lastObserved.map (max · now)).getD now
  match env.listFault, system.store.listDueIds env.workspaceId effectiveNow
      env.config.maxDuePerTick with
  | some fault, _ => (.error (.storage fault), some effectiveNow, system)
  | none, .error fault => (.error (.storage fault), some effectiveNow, system)
  | none, .ok due =>
    let result := env.visitAll effectiveNow { dueSchedules := due.length } system due
    (result.1, some effectiveNow, result.2)

end SchedulerEnv

end Stillflow.Automation
