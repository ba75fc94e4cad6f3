import Stillflow.Automation.Scheduler

/-! Which due schedules a tick can claim. -/

namespace Stillflow.Automation

open Stillflow.Core Stillflow.Storage Lib.Fallible Lib.Machine ClaimSystem List ScheduleStore

namespace AutomationScheduleRecord

def LeaseExpired (record : AutomationScheduleRecord) (now : Int) : Prop :=
  ∀ lease, record.inFlight = some lease → lease.leaseExpiresAt ≤ now

/-- The unclosed claim was the last permitted attempt. -/
def Exhausted (record : AutomationScheduleRecord) : Prop :=
  ∃ lease, record.inFlight = some lease ∧ record.maxSubmissionAttempts ≤ lease.attempt

/-- The lease is a whole second or more and ends at a representable instant, and an unclosed claim
was not the last permitted attempt. -/
structure Claimable (record : AutomationScheduleRecord) (config : AutomationSchedulerConfig)
    (now : Int) : Prop where
  lease : 1 ≤ config.leaseSeconds
  expires : now + config.leaseSeconds * nanosPerSecond ≤ maxInstant
  attempt : ∀ lease, record.inFlight = some lease → lease.attempt < record.maxSubmissionAttempts
  revision : record.revision ≤ i64Max

end AutomationScheduleRecord

variable {zones : Zones} {system : ClaimSystem} {record : AutomationScheduleRecord}
  {config : AutomationSchedulerConfig} {workspaceId claimId : Uuid} {now : Int} {access : Access}
  {leaseSeconds : Nat} {trigger : AutomationTrigger} {env : SchedulerEnv} {store : ScheduleStore}

theorem leaseSeconds_le (h : config.validate = .ok config) :
    config.leaseSeconds ≤ maxClaimLeaseSeconds := by
  obtain ⟨_, hbound, -⟩ := of_bind h
  have hbound := require_eq_ok.mp hbound
  push Not at hbound
  unfold AutomationSchedulerConfig.leaseSeconds maxClaimLeaseSeconds
  omega

theorem find_of_mem (hids : (store.schedules.map (·.id)).Nodup)
    (hmem : record ∈ store.schedules) : store.find record.id = .ok record := by
  rw [find, okOr_eq_ok]
  cases hfind : store.schedules.find? (·.id = record.id) with
  | none =>
    have := find?_eq_none.mp hfind record hmem
    simp at this
  | some found =>
    have hid : found.id = record.id := by simpa using find?_some hfind
    rw [inj_on_of_nodup_map hids (mem_of_find?_eq_some hfind) hmem hid]

theorem nextAttempt_of_due (hdue : Due workspaceId now record)
    (hexpired : record.LeaseExpired now) :
    ∃ instant, nextAttempt record now = some (instant, record.attempt + 1) := by
  obtain ⟨-, hstate, next, hnext, hle⟩ := hdue
  unfold nextAttempt AutomationScheduleRecord.attempt
  rw [hstate, Option.mem_def.mp hnext]
  simp only [show ¬now < next by omega, if_false]
  cases hflight : record.inFlight with
  | none => exact ⟨next, rfl⟩
  | some lease =>
    have hlease := hexpired lease hflight
    exact ⟨next, by simp [show ¬now < lease.leaseExpiresAt by omega]⟩

theorem attempt_lt_iff (hrow : RowInv zones (system.issuedFor record.id)
      (system.acknowledgedKeys record.id) record) (hdue : Due workspaceId now record) :
    record.attempt < record.maxSubmissionAttempts ↔
      ∀ lease, record.inFlight = some lease → lease.attempt < record.maxSubmissionAttempts := by
  unfold AutomationScheduleRecord.attempt
  cases hflight : record.inFlight with
  | none =>
    have hopen : record.state ≠ .failed := by
      rw [hdue.2.1]
      decide
    have hremaining := hrow.remaining hopen hflight
    simpa using hremaining
  | some lease => simp

/-- A due schedule without a running lease is claimed exactly when it is claimable. -/
theorem claim_iff_claimable (hinv : Inv zones system) (hconfig : config.validate = .ok config)
    (hmem : record ∈ system.store.schedules)
    (hdue : Due workspaceId now record) (hexpired : record.LeaseExpired now)
    (haccess : access.Granted) (hclaim : claimId ≠ 0) :
    (∃ trigger, (system.store.claimDueAutomationSchedule access record.id now claimId
      config.leaseSeconds).1 = .ok (some trigger)) ↔ record.Claimable config now := by
  have hrow := hinv.rows record hmem
  have hlease := leaseSeconds_le hconfig
  have hfind := find_of_mem hinv.ids hmem
  obtain ⟨instant, hattempt⟩ := nextAttempt_of_due hdue hexpired
  constructor
  · rintro ⟨trigger, h⟩
    have hclaims := claims system.store access record.id now claimId config.leaseSeconds
    generalize system.store.claimDueAutomationSchedule access record.id now claimId
      config.leaseSeconds = result at h hclaims
    cases hclaims with
    | refused | passed => cases h
    | claimed hvalid hfound hnext hbound hrevision =>
      obtain ⟨_, -, hvalid⟩ := of_bind hvalid
      obtain ⟨_, -, hvalid⟩ := of_bind hvalid
      obtain ⟨_, hseconds, hvalid⟩ := of_bind hvalid
      have hseconds := (require_eq_ok.mp hseconds).1
      have hexpires := okOr_eq_ok.mp hvalid
      cases hfind.symm.trans hfound
      cases hattempt.symm.trans hnext
      refine ⟨by omega, ?_, (attempt_lt_iff hrow hdue).mp hbound, hrevision⟩
      unfold addSeconds at hexpires
      split_ifs at hexpires with hle
      exact hle
  · intro hclaimable
    have hattempts := (attempt_lt_iff hrow hdue).mpr hclaimable.attempt
    have hmax : record.maxSubmissionAttempts ≤ 8 := hrow.bounded.2
    have hvalid : validateClaim record.id now claimId config.leaseSeconds =
        .ok (now + config.leaseSeconds * nanosPerSecond) := by
      have hseconds : config.leaseSeconds ≠ 0 := by
        have := hclaimable.lease
        omega
      refine bind_eq_ok.mpr ⟨(), require_eq_ok.mpr hrow.named, ?_⟩
      refine bind_eq_ok.mpr ⟨(), require_eq_ok.mpr hclaim, ?_⟩
      refine bind_eq_ok.mpr ⟨(), require_eq_ok.mpr ⟨hseconds, hlease⟩, ?_⟩
      rw [okOr_eq_ok, addSeconds, if_pos hclaimable.expires]
    have hbody : ∃ trigger store', system.store.claimBody record.id now claimId
        (now + config.leaseSeconds * nanosPerSecond) = .ok (some trigger, store') := by
      rw [claimBody, hfind, ok_bind, hattempt]
      simp only [require, show record.attempt + 1 ≤ 255 by omega, if_true, ok_bind,
        show record.attempt + 1 ≤ record.maxSubmissionAttempts by omega, hclaimable.revision]
      exact ⟨_, _, rfl⟩
    obtain ⟨trigger, store', hbody⟩ := hbody
    refine ⟨trigger, ?_⟩
    rw [claimDueAutomationSchedule, hvalid, afterCheck, hbody,
      transact_granted haccess]

/-- No claim at any instant changes a schedule whose attempts are exhausted; once the lease has ended
every claim is refused. -/
theorem claim_of_exhausted (hinv : Inv zones system) (hmem : record ∈ system.store.schedules)
    (hexhausted : record.Exhausted) (workspaceId : Uuid) (access : Access) (now : Int)
    (claimId : Uuid) (leaseSeconds : Nat) :
    ∃ answer, system.store.claimDueAutomationSchedule access record.id now claimId leaseSeconds =
        (answer, system.store) ∧ (∀ trigger, answer ≠ .ok (some trigger)) ∧
      (Due workspaceId now record → record.LeaseExpired now → ∃ fault, answer = .error fault) := by
  obtain ⟨lease, hflight, hlast⟩ := hexhausted
  have hfind := find_of_mem hinv.ids hmem
  have hclaims := claims system.store access record.id now claimId leaseSeconds
  generalize system.store.claimDueAutomationSchedule access record.id now claimId leaseSeconds =
    result at hclaims ⊢
  cases hclaims with
  | refused fault => exact ⟨_, rfl, nofun, fun _ _ => ⟨fault, rfl⟩⟩
  | passed hfound hnext =>
    refine ⟨_, rfl, nofun, fun hdue hexpired => ?_⟩
    obtain ⟨instant, hattempt⟩ := nextAttempt_of_due hdue hexpired
    cases hfind.symm.trans hfound
    cases hattempt.symm.trans hnext
  | claimed _ hfound hnext hbound _ =>
    cases hfind.symm.trans hfound
    have hattempt := (nextAttempt_eq_some hnext).2.2.2.1
    rw [AutomationScheduleRecord.attempt, hflight, Option.map_some, Option.getD_some] at hattempt
    omega

theorem mem_update_of_ne {updated : AutomationScheduleRecord}
    (hmem : record ∈ store.schedules) (hid : record.id ≠ updated.id) :
    record ∈ (store.update updated).schedules :=
  mem_map.mpr ⟨record, hmem, if_neg hid⟩

theorem mem_of_claim {id : Uuid} (hmem : record ∈ system.store.schedules) (hid : record.id ≠ id) :
    record ∈ (system.claim access id now claimId leaseSeconds).2.store.schedules := by
  change record ∈ (system.store.claimDueAutomationSchedule access id now claimId
    leaseSeconds).2.schedules
  have hclaims := claims system.store access id now claimId leaseSeconds
  generalize system.store.claimDueAutomationSchedule access id now claimId leaseSeconds =
    result at hclaims ⊢
  cases hclaims with
  | refused | passed => exact hmem
  | claimed _ hfound _ _ _ =>
    exact mem_update_of_ne hmem fun heq => hid (heq.trans (find_eq_ok hfound).2.1)

/-- Closing a trigger leaves the other schedules alone. -/
theorem mem_of_close (hmem : record ∈ system.store.schedules)
    (hid : record.id ≠ trigger.scheduleId) :
    (∀ failure instant,
      record ∈ (system.store.failAutomationTrigger access trigger failure instant).2.schedules) ∧
    ∀ zones next instant, record ∈
      (system.store.acknowledgeAutomationTrigger zones access trigger next instant).2.schedules := by
  refine ⟨fun _ _ => ?_, fun _ _ _ => ?_⟩
  all_goals
    refine afterCheck_transact (P := fun store : ScheduleStore => record ∈ store.schedules) hmem
      fun _ hbody => ?_
    obtain ⟨found, hfound, hbody⟩ := of_bind hbody
    obtain ⟨_, -, hbody⟩ := of_bind hbody
    obtain ⟨_, -, hbody⟩ := of_bind hbody
    cases hbody
    exact mem_update_of_ne hmem fun heq => hid (heq.trans (find_eq_ok hfound).2.1)

theorem claim_trigger {id : Uuid}
    (h : (system.store.claimDueAutomationSchedule access id now claimId leaseSeconds).1 =
      .ok (some trigger)) :
    trigger.scheduleId = id ∧
      trigger ∈ (system.claim access id now claimId leaseSeconds).2.issued := by
  constructor
  · have hclaims := claims system.store access id now claimId leaseSeconds
    generalize system.store.claimDueAutomationSchedule access id now claimId leaseSeconds =
      result at h hclaims
    cases hclaims with
    | refused | passed => cases h
    | claimed _ hfound _ _ _ =>
      cases h
      exact (find_eq_ok hfound).2.1
  · change trigger ∈ system.issued ++ handedOut (system.store.claimDueAutomationSchedule access id
      now claimId leaseSeconds).1
    rw [h]
    exact mem_append_right _ mem_cons_self

/-- What the visit of a schedule answers to its claim. -/
def SchedulerEnv.answer (env : SchedulerEnv) (now : Int) (system : ClaimSystem) (id : Uuid) :
    Except StorageError (Option AutomationTrigger) :=
  (system.store.claimDueAutomationSchedule (env.claimAccess id) id now (env.nextId id)
    env.config.leaseSeconds).1

/-- A visit keeps the invariant and every other schedule, and an exhausted one too; it hands out what
its claim hands out. -/
theorem visit_keeps (hinv : Inv env.zones system) (report : AutomationTickReport) (id : Uuid) :
    Inv env.zones (env.visit now report system id).2 ∧
      (∀ record ∈ system.store.schedules, record.id ≠ id ∨ record.Exhausted →
        record ∈ (env.visit now report system id).2.store.schedules) ∧
      (env.visit now report system id).2.issued =
        system.issued ++ handedOut (env.answer now system id) := by
  have hclaimed := inv_claim hinv (env.claimAccess id) id now (env.nextId id)
    env.config.leaseSeconds
  have hunclaimed : ∀ record ∈ system.store.schedules, record.id = id → record.Exhausted →
      (system.claim (env.claimAccess id) id now (env.nextId id)
        env.config.leaseSeconds).2.store = system.store ∧
      ∀ trigger, env.answer now system id ≠ .ok (some trigger) := by
    rintro record hmem rfl hexhausted
    obtain ⟨answer, hanswer, hnone, -⟩ := claim_of_exhausted hinv hmem hexhausted env.workspaceId
      (env.claimAccess record.id) now (env.nextId record.id) env.config.leaseSeconds
    exact ⟨congrArg Prod.snd hanswer, fun trigger => by
      rw [SchedulerEnv.answer, hanswer]
      exact hnone trigger⟩
  have hrows : ∀ record ∈ system.store.schedules, record.id ≠ id ∨ record.Exhausted →
      record ∈ (system.claim (env.claimAccess id) id now (env.nextId id)
        env.config.leaseSeconds).2.store.schedules := by
    intro record hmem hkept
    by_cases hid : record.id = id
    · rw [(hunclaimed record hmem hid (hkept.resolve_left fun hne => hne hid)).1]
      exact hmem
    · exact mem_of_claim hmem hid
  unfold SchedulerEnv.visit
  simp only
  split
  · rename_i trigger htrigger
    obtain ⟨hschedule, hissued⟩ := claim_trigger htrigger
    have hother : ∀ record ∈ system.store.schedules, record.id ≠ id ∨ record.Exhausted →
        record.id ≠ trigger.scheduleId := by
      intro record hmem hkept hid
      have hid := hid.trans hschedule
      exact (hunclaimed record hmem hid (hkept.resolve_left fun hne => hne hid)).2 trigger htrigger
    unfold SchedulerEnv.close
    split_ifs
    · exact ⟨hclaimed, hrows, rfl⟩
    · split
      · exact ⟨inv_fail hclaimed _ hissued _ now, fun record hmem hkept =>
          (mem_of_close (hrows record hmem hkept) (hother record hmem hkept)).1 _ _, rfl⟩
      · split
        · exact ⟨hclaimed, hrows, rfl⟩
        · exact ⟨inv_acknowledge hclaimed _ hissued _ now, fun record hmem hkept =>
            (mem_of_close (hrows record hmem hkept) (hother record hmem hkept)).2 _ _ _, rfl⟩
  · exact ⟨hclaimed, hrows, rfl⟩
  · exact ⟨hclaimed, hrows, rfl⟩
  · exact ⟨hclaimed, hrows, rfl⟩

theorem visitAll_keeps (hinv : Inv env.zones system)
    (report : AutomationTickReport) (ids : List Uuid) :
    Inv env.zones (env.visitAll now report system ids).2 ∧
      ∀ record ∈ system.store.schedules, record.id ∉ ids ∨ record.Exhausted →
        record ∈ (env.visitAll now report system ids).2.store.schedules := by
  induction ids generalizing system report with
  | nil => exact ⟨hinv, fun _ hmem _ => hmem⟩
  | cons id ids ih =>
    obtain ⟨hnext, hrows, -⟩ := @visit_keeps system now env hinv report id
    have hkept : ∀ record ∈ system.store.schedules, record.id ∉ id :: ids ∨ record.Exhausted →
        record ∈ (env.visit now report system id).2.store.schedules := fun record hmem hkept =>
      hrows record hmem (hkept.imp_left fun hnot heq => hnot (heq ▸ mem_cons_self))
    rw [SchedulerEnv.visitAll]
    split
    · rename_i fault next hvisit
      rw [hvisit] at hnext hkept
      exact ⟨hnext, hkept⟩
    · rename_i report' next hvisit
      rw [hvisit] at hnext hkept
      obtain ⟨hinv', hrest⟩ := ih hnext report'
      exact ⟨hinv', fun record hmem hnot => hrest record (hkept record hmem hnot)
        (hnot.imp_left fun hnot hin => hnot (mem_cons_of_mem _ hin))⟩

theorem mem_handedOut {id : Uuid} : trigger ∈ handedOut (env.answer now system id) ↔
      env.answer now system id = .ok (some trigger) := by
  generalize env.answer now system id = answer
  constructor
  · intro hmem
    unfold handedOut at hmem
    split at hmem
    · rw [mem_singleton.mp hmem]
    · cases hmem
  · rintro rfl
    exact mem_singleton_self _

/-- A loop that runs to its end adds a trigger for a visited due schedule without a running lease
exactly when the schedule is claimable. -/
theorem visitAll_issued (hinv : Inv env.zones system)
    (hconfig : env.config.validate = .ok env.config)
    (haccess : ∀ id, (env.claimAccess id).Granted) (hdrawn : ∀ id, env.nextId id ≠ 0)
    (workspaceId : Uuid) {report reached : AutomationTickReport} {ids : List Uuid}
    (hnodup : ids.Nodup) {after : ClaimSystem}
    (hrun : env.visitAll now report system ids = (.ok reached, after)) :
    ∃ fresh, after.issued = system.issued ++ fresh ∧
      (∀ trigger ∈ fresh, trigger.scheduleId ∈ ids) ∧
      ∀ record ∈ system.store.schedules, record.id ∈ ids → Due workspaceId now record →
        record.LeaseExpired now →
        ((∃ trigger ∈ fresh, trigger.scheduleId = record.id) ↔ record.Claimable env.config now) := by
  induction ids generalizing system report with
  | nil =>
    obtain ⟨-, rfl⟩ := Prod.mk.inj hrun
    exact ⟨[], (append_nil _).symm, nofun, fun _ _ hin => absurd hin not_mem_nil⟩
  | cons id ids ih =>
    obtain ⟨hnot, hnodup⟩ := nodup_cons.mp hnodup
    obtain ⟨hnext, hrows, hissued⟩ := @visit_keeps system now env hinv report id
    rw [SchedulerEnv.visitAll] at hrun
    split at hrun
    · cases hrun
    · rename_i report' next hvisit
      rw [hvisit] at hnext hrows hissued
      obtain ⟨fresh, hfresh, hlisted, hserved⟩ := ih hnext hnodup hrun
      refine ⟨handedOut (env.answer now system id) ++ fresh, ?_, ?_, ?_⟩
      · rw [hfresh, hissued, append_assoc]
      · intro trigger htrigger
        rcases mem_append.mp htrigger with hhanded | hlater
        · rw [(claim_trigger (mem_handedOut.mp hhanded)).1]
          exact mem_cons_self
        · exact mem_cons_of_mem _ (hlisted trigger hlater)
      · intro record hmem hin hdue hexpired
        simp only [mem_append, or_and_right, exists_or]
        by_cases hid : record.id = id
        · have hnone : ¬∃ trigger ∈ fresh, trigger.scheduleId = record.id := by
            rintro ⟨trigger, htrigger, hschedule⟩
            exact hnot (hid ▸ hschedule ▸ hlisted trigger htrigger)
          subst hid
          rw [or_iff_left hnone, ← claim_iff_claimable hinv hconfig hmem hdue hexpired (haccess _)
            (hdrawn _)]
          exact ⟨fun ⟨trigger, hhanded, _⟩ => ⟨trigger, mem_handedOut.mp hhanded⟩,
            fun ⟨trigger, hanswer⟩ => ⟨trigger, mem_handedOut.mpr hanswer,
              (claim_trigger hanswer).1⟩⟩
        · have hnone : ¬∃ trigger ∈ handedOut (env.answer now system id),
              trigger.scheduleId = record.id := by
            rintro ⟨trigger, hhanded, hschedule⟩
            exact hid (hschedule.symm.trans (claim_trigger (mem_handedOut.mp hhanded)).1)
          rw [or_iff_right hnone]
          exact hserved record (hrows record hmem (.inl hid)) ((mem_cons.mp hin).resolve_left hid)
            hdue hexpired

instance : Std.Total DueOrder := ⟨fun a b => by
  unfold DueOrder
  omega⟩

instance : IsTrans AutomationScheduleRecord DueOrder := ⟨fun a b c => by
  unfold DueOrder
  omega⟩

/-- The due list is the first due schedules in due order; what it leaves out stands behind all of
it. -/
theorem mem_listDueIds (hids : (store.schedules.map (·.id)).Nodup)
    {limit : Nat} {due : List Uuid} (h : store.listDueIds workspaceId now limit = .ok due) :
    due.Nodup ∧ (∀ record ∈ store.schedules, record.id ∈ due → Due workspaceId now record) ∧
      ∀ waiting ∈ store.schedules, Due workspaceId now waiting → waiting.id ∉ due →
        due.length = limit ∧
          ∀ record ∈ store.schedules, record.id ∈ due → DueOrder record waiting := by
  obtain ⟨_, -, h⟩ := of_bind h
  cases h
  generalize hsorted : (store.schedules.filter (Due workspaceId now)).insertionSort DueOrder = sorted
  have hperm : sorted.Perm (store.schedules.filter (Due workspaceId now)) :=
    hsorted ▸ perm_insertionSort _ _
  have horder : sorted.Pairwise DueOrder := hsorted ▸ pairwise_insertionSort _ _
  have hdue : ∀ record, record ∈ sorted ↔ record ∈ store.schedules ∧ Due workspaceId now record := by
    intro record
    rw [hperm.mem_iff, mem_filter, decide_eq_true_iff]
  have hnodup : (sorted.map (·.id)).Nodup :=
    (hperm.map _).nodup_iff.mpr (hids.sublist (filter_sublist.map _))
  have hlisted : ∀ record ∈ store.schedules, record.id ∈ (sorted.take limit).map (·.id) →
      record ∈ sorted.take limit := by
    intro record hmem hin
    obtain ⟨listed, hlisted, hid⟩ := mem_map.mp hin
    rw [← inj_on_of_nodup_map hids ((hdue listed).mp (mem_of_mem_take hlisted)).1 hmem hid]
    exact hlisted
  refine ⟨hnodup.sublist ((take_sublist _ _).map _), fun record hmem hin =>
    ((hdue record).mp (mem_of_mem_take (hlisted record hmem hin))).2, ?_⟩
  intro waiting hmem hwaiting hout
  have hdropped : waiting ∈ sorted.drop limit := by
    have hin := (hdue waiting).mpr ⟨hmem, hwaiting⟩
    rw [← take_append_drop limit sorted] at hin
    exact (mem_append.mp hin).resolve_left fun hin => hout (mem_map_of_mem hin)
  constructor
  · rw [length_map, length_take]
    have := length_pos_of_mem hdropped
    rw [length_drop] at this
    omega
  · intro record hrecord hin
    rw [← take_append_drop limit sorted] at horder
    exact (pairwise_append.mp horder).2.2 record (hlisted record hrecord hin) waiting hdropped

/-- Later ticks, each with its own surroundings, last observed instant and clock. -/
def ticks : List (SchedulerEnv × Option Int × Int) → ClaimSystem → ClaimSystem
  | [], system => system
  | (env, lastObserved, instant) :: rest, system =>
    ticks rest (env.tick lastObserved instant system).2.2

theorem tick_keeps (hinv : Inv env.zones system) (lastObserved : Option Int)
    (instant : Int) (hmem : record ∈ system.store.schedules) (hexhausted : record.Exhausted) :
    Inv env.zones (env.tick lastObserved instant system).2.2 ∧
      record ∈ (env.tick lastObserved instant system).2.2.store.schedules := by
  unfold SchedulerEnv.tick
  simp only
  split
  · exact ⟨hinv, hmem⟩
  · exact ⟨hinv, hmem⟩
  · obtain ⟨hnext, hkept⟩ := visitAll_keeps hinv _ _
    exact ⟨hnext, hkept record hmem (.inr hexhausted)⟩

theorem ticks_keep {later : List (SchedulerEnv × Option Int × Int)} (hinv : Inv zones system)
    (hzones : ∀ tick ∈ later, tick.1.zones = zones) (hmem : record ∈ system.store.schedules)
    (hexhausted : record.Exhausted) :
    Inv zones (ticks later system) ∧ record ∈ (ticks later system).store.schedules := by
  induction later generalizing system with
  | nil => exact ⟨hinv, hmem⟩
  | cons tick later ih =>
    obtain ⟨env, lastObserved, instant⟩ := tick
    obtain rfl : env.zones = zones := hzones _ mem_cons_self
    obtain ⟨hnext, hkept⟩ := tick_keeps hinv lastObserved instant hmem hexhausted
    exact ih hnext (fun tick htick => hzones tick (mem_cons_of_mem _ htick)) hkept

/-- For every accepted configuration, after every history of calls, and for the due list that a tick
reads: a tick that runs to its end hands out a trigger for a listed schedule without a running lease
exactly when the schedule is claimable, and so does the visit of a tick that gets to it. While every
such listed schedule is claimable, a due schedule that is not listed stands behind a full list of
schedules that are claimable or have a running lease. A schedule whose last permitted attempt was
never closed stays, due and refused, through all later ticks. -/
theorem due_list_claimed_iff (env : SchedulerEnv) (workspaces : List (Uuid × Bool))
    (calls : List AutomationCall) (hconfig : env.config.validate = .ok env.config)
    (haccess : ∀ id, (env.claimAccess id).Granted) (hdrawn : ∀ id, env.nextId id ≠ 0)
    (hfault : env.listFault = none) (lastObserved : Option Int) (instant : Int)
    {system : ClaimSystem} (hsystem : system = (machine env.zones).run (start workspaces) calls)
    {now : Int} (hnow : now = (lastObserved.map (max · instant)).getD instant) {due : List Uuid}
    (hlist : system.store.listDueIds env.workspaceId now env.config.maxDuePerTick = .ok due) :
    (∀ report observed after,
      env.tick lastObserved instant system = (.ok report, observed, after) →
      ∃ fresh, after.issued = system.issued ++ fresh ∧
        ∀ record ∈ system.store.schedules, record.id ∈ due → record.LeaseExpired now →
          ((∃ trigger ∈ fresh, trigger.scheduleId = record.id) ↔
            record.Claimable env.config now)) ∧
    (∀ record ∈ system.store.schedules, record.LeaseExpired now → ∀ earlier later report reached
        visited, due = earlier ++ record.id :: later →
      env.visitAll now report system earlier = (.ok reached, visited) →
      ((∃ trigger, (visited.store.claimDueAutomationSchedule (env.claimAccess record.id) record.id
          now (env.nextId record.id) env.config.leaseSeconds).1 = .ok (some trigger)) ↔
        record.Claimable env.config now)) ∧
    ((∀ record ∈ system.store.schedules, record.id ∈ due → record.LeaseExpired now →
        record.Claimable env.config now) →
      ∀ waiting ∈ system.store.schedules, ScheduleStore.Due env.workspaceId now waiting →
        waiting.id ∉ due → due.length = env.config.maxDuePerTick ∧
          ∀ record ∈ system.store.schedules, record.id ∈ due →
            ScheduleStore.DueOrder record waiting ∧ (record.Claimable env.config now ∨
              ∃ lease, record.inFlight = some lease ∧ now < lease.leaseExpiresAt)) ∧
    ∀ record ∈ system.store.schedules, record.id ∈ due → record.LeaseExpired now →
      record.Exhausted → ∀ later, (∀ tick ∈ later, tick.1.zones = env.zones) →
        record ∈ (ticks later system).store.schedules ∧ ∀ access instant claimId leaseSeconds,
          now ≤ instant → ScheduleStore.Due env.workspaceId instant record ∧
            ∃ fault, (ticks later system).store.claimDueAutomationSchedule access record.id instant
              claimId leaseSeconds = (.error fault, (ticks later system).store) := by
  have hinv : Inv env.zones system := by
    rw [hsystem]
    exact run_invariant (inv_next env.zones) (inv_start workspaces) calls
  obtain ⟨hnodup, hlisted, hbehind⟩ := mem_listDueIds hinv.ids hlist
  refine ⟨?_, ?_, ?_, ?_⟩
  · intro report observed after htick
    have hrun : env.visitAll now { dueSchedules := due.length } system due = (.ok report, after) := by
      simp only [SchedulerEnv.tick, ← hnow, hfault, hlist, Prod.mk.injEq] at htick
      exact Prod.ext htick.1 htick.2.2
    obtain ⟨fresh, hfresh, -, hserved⟩ :=
      visitAll_issued hinv hconfig haccess hdrawn env.workspaceId hnodup hrun
    exact ⟨fresh, hfresh, fun record hmem hin hexpired =>
      hserved record hmem hin (hlisted record hmem hin) hexpired⟩
  · intro record hmem hexpired earlier later report reached visited hsplit hvisited
    have hnot : record.id ∉ earlier := fun hin =>
      (nodup_append'.mp (hsplit ▸ hnodup)).2.2 hin mem_cons_self
    have hin : record.id ∈ due := hsplit ▸ mem_append_right _ mem_cons_self
    obtain ⟨hinv', hkept⟩ := @visitAll_keeps system now env hinv report earlier
    have hmem' := hkept record hmem (.inl hnot)
    rw [hvisited] at hinv' hmem'
    exact claim_iff_claimable hinv' hconfig hmem' (hlisted record hmem hin) hexpired (haccess _)
      (hdrawn _)
  · intro hclear waiting hmem hdue hout
    obtain ⟨hfull, hahead⟩ := hbehind waiting hmem hdue hout
    refine ⟨hfull, fun record hrecord hin => ⟨hahead record hrecord hin, ?_⟩⟩
    by_cases hexpired : record.LeaseExpired now
    · exact .inl (hclear record hrecord hin hexpired)
    · unfold AutomationScheduleRecord.LeaseExpired at hexpired
      push Not at hexpired
      exact .inr hexpired
  · intro record hmem hin hexpired hexhausted later hzones
    obtain ⟨hinv', hmem'⟩ := ticks_keep hinv hzones hmem hexhausted
    refine ⟨hmem', fun access instant claimId leaseSeconds hle => ?_⟩
    have hdue : ScheduleStore.Due env.workspaceId instant record := by
      obtain ⟨hworkspace, hstate, next, hnext, hnow⟩ := hlisted record hmem hin
      exact ⟨hworkspace, hstate, next, hnext, hnow.trans hle⟩
    obtain ⟨answer, hanswer, -, hrefused⟩ := claim_of_exhausted hinv' hmem' hexhausted
      env.workspaceId access instant claimId leaseSeconds
    obtain ⟨fault, hfault⟩ := hrefused hdue fun lease hlease => (hexpired lease hlease).trans hle
    exact ⟨hdue, fault, by rw [hanswer, hfault]⟩

/-- A zone database that knows every name; interval schedules read nothing of the zone. -/
def anyZone : Zones := fun _ => some ⟨fun _ => 0, fun _ _ => .none⟩

def minutely (id : Uuid) (firstRunAt : Int) : AutomationScheduleDraft :=
  ⟨id, 2, .interval 60, "UTC", .null, firstRunAt, 1, 0⟩

def sampleScheduler (claimLease : Nat) : SchedulerEnv where
  workspaceId := 2
  config := ⟨10 ^ 9, claimLease, 1⟩
  zones := anyZone
  nextId _ := 7
  listFault := none
  claimAccess _ := {}
  closeAccess _ := {}
  build _ _ := none
  submit _ := none
  crashes _ := true

/-- A scheduler whose jobs are all built and submitted. -/
def quietScheduler : SchedulerEnv :=
  { sampleScheduler (60 * 10 ^ 9) with
    config := ⟨10 ^ 9, 60 * 10 ^ 9, 2⟩
    build := fun trigger key => some ⟨key, trigger.workspaceId⟩
    submit := fun _ => some false
    crashes := fun _ => false }

def threeDueCalls : List AutomationCall :=
  [.create {} (minutely 1 0), .create {} (minutely 3 1), .create {} (minutely 4 2)]

/-- Three schedules are due; the first two are listed and get their triggers, the third waits behind
them. -/
theorem due_list_claimed_twoOfThree :
    (∃ after fresh, quietScheduler.tick none nanosPerSecond ((machine anyZone).run
        (start [(2, true)]) threeDueCalls) = (.ok ⟨2, 2, 2, 0, 0⟩, some nanosPerSecond, after) ∧
      after.issued = fresh ∧ (∃ trigger ∈ fresh, trigger.scheduleId = 1) ∧
      ∃ trigger ∈ fresh, trigger.scheduleId = 3) ∧
    ScheduleStore.DueOrder ((minutely 1 0).record 0) ((minutely 4 2).record 2) := by
  have hmem : ∀ record, record = (minutely 1 0).record 0 ∨ record = (minutely 3 1).record 1 ∨
      record = (minutely 4 2).record 2 → record ∈ ((machine anyZone).run (start [(2, true)])
        threeDueCalls).store.schedules := by
    rintro record (rfl | rfl | rfl)
    · exact mem_cons_self
    · exact mem_cons_of_mem _ mem_cons_self
    · exact mem_cons_of_mem _ (mem_cons_of_mem _ mem_cons_self)
  obtain ⟨hserved, -, hbehind, -⟩ := due_list_claimed_iff quietScheduler [(2, true)] threeDueCalls
    rfl (fun _ => ⟨rfl, rfl⟩) (fun _ => show (7 : Uuid) ≠ 0 by decide) rfl none nanosPerSecond rfl
    rfl (show _ = Except.ok [1, 3] from rfl)
  obtain ⟨fresh, hfresh, hiff⟩ := hserved ⟨2, 2, 2, 0, 0⟩ (some nanosPerSecond) _ rfl
  have hclaimable : ∀ record ∈ ((machine anyZone).run (start [(2, true)])
      threeDueCalls).store.schedules, record.Claimable quietScheduler.config nanosPerSecond := by
    intro record hrecord
    rw [show ((machine anyZone).run (start [(2, true)]) threeDueCalls).store.schedules =
      [(minutely 1 0).record 0, (minutely 3 1).record 1, (minutely 4 2).record 2] from rfl] at hrecord
    simp only [mem_cons, not_mem_nil, or_false] at hrecord
    rcases hrecord with rfl | rfl | rfl <;>
      exact ⟨by decide, by decide, fun _ hlease => (by cases hlease), by decide⟩
  refine ⟨⟨_, fresh, rfl, hfresh, ?_, ?_⟩, ?_⟩
  · exact (hiff _ (hmem _ (.inl rfl)) (by decide) nofun).mpr (hclaimable _ (hmem _ (.inl rfl)))
  · exact (hiff _ (hmem _ (.inr (.inl rfl))) (by decide) nofun).mpr
      (hclaimable _ (hmem _ (.inr (.inl rfl))))
  · exact ((hbehind (fun record hrecord _ _ => hclaimable record hrecord) _
      (hmem _ (.inr (.inr rfl))) ⟨rfl, rfl, 2, rfl, by decide⟩ (by decide)).2 _ (hmem _ (.inl rfl))
      (by decide)).1

/-- A scheduler that crashed in the only attempt of schedule 1. -/
def crashedCalls : List AutomationCall :=
  [.create {} (minutely 1 0), .create {} (minutely 3 1), .claim {} 1 0 7 60]

/-- After its lease has expired the schedule is refused, and it still fills a due list of one ahead
of a schedule that can be claimed. A lease of half a second is accepted by the configuration and
refused by every claim. -/
theorem crash_in_last_attempt_wedges :
    (sampleScheduler (60 * 10 ^ 9)).config.validate = .ok (sampleScheduler (60 * 10 ^ 9)).config ∧
    (((machine anyZone).run (start [(2, true)]) crashedCalls).store.claimDueAutomationSchedule {} 1
      (60 * nanosPerSecond) 8 60).1.map (Option.map (·.scheduleId)) =
        .error (.busy "automation submission attempts are exhausted") ∧
    ((machine anyZone).run (start [(2, true)]) crashedCalls).store.listDueIds 2
      (60 * nanosPerSecond) 1 = .ok [1] ∧
    (((machine anyZone).run (start [(2, true)]) crashedCalls).store.claimDueAutomationSchedule {} 3
      (60 * nanosPerSecond) 8 60).1.map (Option.map (·.scheduleId)) = .ok (some 3) ∧
    (sampleScheduler (5 * 10 ^ 8)).config.validate = .ok (sampleScheduler (5 * 10 ^ 8)).config ∧
    (((machine anyZone).run (start [(2, true)]) crashedCalls).store.claimDueAutomationSchedule {} 3
      (60 * nanosPerSecond) 8 (sampleScheduler (5 * 10 ^ 8)).config.leaseSeconds).1.map
        (Option.map (·.scheduleId)) =
        .error (.invalidDraft "automation claim lease is outside its bound") := by
  exact ⟨rfl, rfl, rfl, rfl, rfl, rfl⟩

end Stillflow.Automation
