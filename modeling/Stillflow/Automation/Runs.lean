import Stillflow.Automation.Protocol

/-! Runs of the claim protocol over any number of schedules. -/

namespace Stillflow.Automation

open Stillflow.Core Stillflow.Storage Lib.Fallible Lib.Machine List ScheduleStore

namespace ClaimSystem

/-- Ids name rows, every row has its invariant, and triggers are only issued for rows. -/
structure Inv (zones : Zones) (system : ClaimSystem) : Prop where
  ids : (system.store.schedules.map (·.id)).Nodup
  rows : ∀ record ∈ system.store.schedules,
    RowInv zones (system.issuedFor record.id) (system.acknowledgedKeys record.id) record
  issued : ∀ trigger ∈ system.issued, trigger.scheduleId ∈ system.store.schedules.map (·.id)
  acknowledged : ∀ trigger ∈ system.acknowledged,
    trigger.scheduleId ∈ system.store.schedules.map (·.id)

variable {zones : Zones} {system : ClaimSystem} {record : AutomationScheduleRecord}

theorem inv_start (workspaces : List (Uuid × Bool)) : Inv zones (start workspaces) where
  ids := nodup_nil
  rows _ h := by cases h
  issued _ h := by cases h
  acknowledged _ h := by cases h

theorem update_ids (store : ScheduleStore) (record : AutomationScheduleRecord) :
    (store.update record).schedules.map (·.id) = store.schedules.map (·.id) := by
  rw [update, map_map]
  refine map_congr_left fun row _ => ?_
  simp only [Function.comp]
  split_ifs with h
  · exact h.symm
  · rfl

theorem mem_update {store : ScheduleStore} {row : AutomationScheduleRecord}
    (h : row ∈ (store.update record).schedules) :
    row = record ∨ row ∈ store.schedules ∧ row.id ≠ record.id := by
  obtain ⟨old, hold, rfl⟩ := mem_map.mp h
  split_ifs with hid
  · exact .inl rfl
  · exact .inr ⟨hold, hid⟩

theorem find_eq_ok {store : ScheduleStore} {id : Uuid} (h : store.find id = .ok record) :
    record ∈ store.schedules ∧ record.id = id ∧ record.id ∈ store.schedules.map (·.id) := by
  have hfind := okOr_eq_ok.mp h
  have hmem := mem_of_find?_eq_some hfind
  exact ⟨hmem, by simpa using find?_some hfind, mem_map_of_mem hmem⟩

theorem Inv.update (h : Inv zones system)
    (hmem : record.id ∈ system.store.schedules.map (·.id))
    {issued acknowledged : List AutomationTrigger}
    (hissued : ∀ trigger ∈ issued, trigger.scheduleId = record.id)
    (hacknowledged : ∀ trigger ∈ acknowledged, trigger.scheduleId = record.id)
    (hrow : RowInv zones (system.issuedFor record.id ++ issued)
      (system.acknowledgedKeys record.id ++ acknowledged.map (·.occurrenceKey)) record) :
    Inv zones ⟨system.store.update record, system.issued ++ issued,
      system.acknowledged ++ acknowledged⟩ := by
  have hown : ∀ {more : List AutomationTrigger},
      (∀ trigger ∈ more, trigger.scheduleId = record.id) → ∀ id,
      more.filter (·.scheduleId = id) = if id = record.id then more else [] := by
    intro more hmore id
    split_ifs with hid
    · refine filter_eq_self.mpr fun trigger htrigger => ?_
      simpa [hid] using hmore trigger htrigger
    · refine filter_eq_nil_iff.mpr fun trigger htrigger => ?_
      simpa [hmore trigger htrigger] using fun heq => hid heq.symm
  refine ⟨?_, ?_, ?_, ?_⟩
  · rw [update_ids]
    exact h.ids
  · intro row hrowMem
    rw [issuedFor, acknowledgedKeys, filter_append, filter_append, hown hissued,
      hown hacknowledged, map_append]
    rcases mem_update hrowMem with rfl | ⟨hold, hid⟩
    · rw [if_pos rfl, if_pos rfl]
      exact hrow
    · rw [if_neg hid, if_neg hid, append_nil, map_nil, append_nil]
      exact h.rows row hold
  · intro trigger htrigger
    rw [update_ids]
    rcases mem_append.mp htrigger with hold | hnew
    · exact h.issued trigger hold
    · rw [hissued trigger hnew]
      exact hmem
  · intro trigger htrigger
    rw [update_ids]
    rcases mem_append.mp htrigger with hold | hnew
    · exact h.acknowledged trigger hold
    · rw [hacknowledged trigger hnew]
      exact hmem

theorem Inv.create (h : Inv zones system) (hfresh : record.id ∉ system.store.schedules.map (·.id))
    (hrow : RowInv zones [] [] record) : Inv zones { system with store :=
      { system.store with schedules := system.store.schedules ++ [record] } } := by
  have hnone : ∀ {triggers : List AutomationTrigger},
      (∀ trigger ∈ triggers, trigger.scheduleId ∈ system.store.schedules.map (·.id)) →
      triggers.filter (·.scheduleId = record.id) = [] := by
    intro triggers htriggers
    refine filter_eq_nil_iff.mpr fun trigger htrigger heq => hfresh ?_
    have heq : trigger.scheduleId = record.id := by simpa using heq
    rw [← heq]
    exact htriggers trigger htrigger
  refine ⟨?_, ?_, ?_, ?_⟩
  · rw [map_append, nodup_append']
    exact ⟨h.ids, nodup_singleton _, by simpa using hfresh⟩
  · refine forall_mem_append.mpr ⟨h.rows, forall_mem_singleton.mpr ?_⟩
    rw [issuedFor, acknowledgedKeys, hnone h.issued, hnone h.acknowledged]
    exact hrow
  · intro trigger htrigger
    rw [map_append]
    exact mem_append_left _ (h.issued trigger htrigger)
  · intro trigger htrigger
    rw [map_append]
    exact mem_append_left _ (h.acknowledged trigger htrigger)

theorem afterCheck_transact_cases {α β σ : Type} (check : Except StorageError β) (access : Access)
    (db : σ) (body : β → Except StorageError (α × σ)) :
    (∃ fault, afterCheck check db (fun b => transact access db (body b)) = (.error fault, db)) ∨
      ∃ b a db', check = .ok b ∧ body b = .ok (a, db') ∧
        afterCheck check db (fun b => transact access db (body b)) = (.ok a, db') := by
  cases check with
  | error fault => exact .inl ⟨fault, rfl⟩
  | ok b =>
    rcases transact_cases access db (body b) with ⟨fault, h⟩ | ⟨-, a, db', hbody, h⟩
    · exact .inl ⟨fault, h⟩
    · exact .inr ⟨b, a, db', rfl, hbody, h⟩

/-- What holds of the store, and of the store any body leaves, holds after the call. -/
theorem afterCheck_transact {α β σ : Type} {P : σ → Prop} {check : Except StorageError β}
    {access : Access} {db : σ} {body : β → Except StorageError (α × σ)} (h : P db)
    (hbody : ∀ {b a db'}, check = .ok b → body b = .ok (a, db') → P db') :
    P (afterCheck check db fun b => transact access db (body b)).2 := by
  rcases afterCheck_transact_cases check access db body with
    ⟨fault, hrun⟩ | ⟨b, a, db', hcheck, hrow, hrun⟩
  · rwa [hrun]
  · rw [hrun]
    exact hbody hcheck hrow

/-- What a claim can answer: a fault, that nothing is due, or a trigger. -/
inductive Claims (store : ScheduleStore) (scheduleId : Uuid) (now : Int) (claimId : Uuid)
    (leaseSeconds : Nat) : Except StorageError (Option AutomationTrigger) × ScheduleStore → Prop
  | refused (fault : StorageError) :
    Claims store scheduleId now claimId leaseSeconds (.error fault, store)
  | passed {record : AutomationScheduleRecord} (hfind : store.find scheduleId = .ok record)
    (hattempt : ScheduleStore.nextAttempt record now = none) :
    Claims store scheduleId now claimId leaseSeconds (.ok none, store)
  | claimed {record : AutomationScheduleRecord} {expires instant : Int} {attempt : Nat}
    (hvalid : ScheduleStore.validateClaim scheduleId now claimId leaseSeconds = .ok expires)
    (hfind : store.find scheduleId = .ok record)
    (hattempt : ScheduleStore.nextAttempt record now = some (instant, attempt))
    (hbound : attempt ≤ record.maxSubmissionAttempts) (hrevision : record.revision ≤ i64Max) :
    Claims store scheduleId now claimId leaseSeconds
      (.ok (some (ScheduleStore.claimTrigger record instant claimId attempt)), store.update
        { record with
          inFlight := some ⟨instant, claimId, attempt, expires⟩
          revision := record.revision + 1
          updatedAt := max now record.updatedAt })

theorem claims (store : ScheduleStore) (access : Access) (scheduleId : Uuid) (now : Int)
    (claimId : Uuid) (leaseSeconds : Nat) : Claims store scheduleId now claimId leaseSeconds
      (store.claimDueAutomationSchedule access scheduleId now claimId leaseSeconds) := by
  rw [claimDueAutomationSchedule]
  rcases afterCheck_transact_cases
    (validateClaim scheduleId now claimId leaseSeconds) access store
    (store.claimBody scheduleId now claimId) with
    ⟨fault, hrun⟩ | ⟨expires, a, store', hvalid, hbody, hrun⟩
  · rw [hrun]
    exact .refused fault
  · rw [hrun]
    obtain ⟨record, hfind, hbody⟩ := of_bind hbody
    cases hattempt : nextAttempt record now with
    | none =>
      rw [hattempt] at hbody
      cases hbody
      exact .passed hfind hattempt
    | some claimed =>
      rw [hattempt] at hbody
      obtain ⟨_, -, hbody⟩ := of_bind hbody
      obtain ⟨_, hbound, hbody⟩ := of_bind hbody
      obtain ⟨_, hrevision, hbody⟩ := of_bind hbody
      cases hbody
      exact .claimed hvalid hfind hattempt (require_eq_ok.mp hbound) (require_eq_ok.mp hrevision)

theorem inv_create (h : Inv zones system) (access : Access) (draft : AutomationScheduleDraft) :
    Inv zones (system.answered (system.store.createAutomationSchedule zones access draft)).2 := by
  refine afterCheck_transact (P := fun store => Inv zones { system with store := store }) h
    fun hvalid hbody => ?_
  obtain ⟨_, -, hbody⟩ := of_bind hbody
  obtain ⟨_, hfresh, hbody⟩ := of_bind hbody
  cases hbody
  exact h.create (require_eq_ok.mp hfresh) (rowInv_create hvalid)

theorem Inv.update_row (h : Inv zones system) (hmem : record.id ∈ system.store.schedules.map (·.id))
    (hrow : RowInv zones (system.issuedFor record.id) (system.acknowledgedKeys record.id) record) :
    Inv zones { system with store := system.store.update record } := by
  have hupdated := @Inv.update zones system record h hmem [] [] (by simp) (by simp)
    (by simpa using hrow)
  rw [append_nil, append_nil] at hupdated
  exact hupdated

theorem inv_claim (h : Inv zones system) (access : Access) (scheduleId : Uuid) (now : Int)
    (claimId : Uuid) (leaseSeconds : Nat) :
    Inv zones (system.claim access scheduleId now claimId leaseSeconds).2 := by
  have hclaims := claims system.store access scheduleId now claimId leaseSeconds
  rw [claim]
  generalize system.store.claimDueAutomationSchedule access scheduleId now claimId leaseSeconds =
    result at hclaims ⊢
  cases hclaims with
  | refused | passed => simpa [handedOut, answered] using h
  | @claimed record expires instant attempt _ hfind hattempt hbound _ =>
    obtain ⟨hmem, hid, hids⟩ := find_eq_ok hfind
    have hupdated := @Inv.update zones system
      { record with
        inFlight := some ⟨instant, claimId, attempt, expires⟩
        revision := record.revision + 1
        updatedAt := max now record.updatedAt }
      h hids
      [claimTrigger record instant claimId attempt] []
      (fun trigger htrigger => by rw [mem_singleton.mp htrigger]; rfl)
      (fun trigger htrigger => by cases htrigger)
      (by
        rw [map_nil, append_nil]
        exact (h.rows record hmem).claim hattempt hbound)
    rw [append_nil] at hupdated
    exact hupdated

theorem inv_acknowledge (h : Inv zones system) (access : Access) {trigger : AutomationTrigger}
    (hissued : trigger ∈ system.issued) (nextRunAt submittedAt : Int) :
    Inv zones (system.acknowledge zones access trigger nextRunAt submittedAt).2 := by
  rw [acknowledge, acknowledgeAutomationTrigger]
  rcases afterCheck_transact_cases (validateAcknowledge zones trigger nextRunAt)
    access system.store
    (fun _ => system.store.acknowledgeBody trigger nextRunAt submittedAt) with
    ⟨fault, hrun⟩ | ⟨_, a, store', hvalid, hbody, hrun⟩
  · rw [hrun]
    simpa [answered, Except.isOk, Except.toBool] using h
  · rw [hrun]
    obtain ⟨record, hfind, hbody⟩ := of_bind hbody
    obtain ⟨_, hmatch, hbody⟩ := of_bind hbody
    obtain ⟨_, -, hbody⟩ := of_bind hbody
    cases hbody
    obtain ⟨hmem, hid, hids⟩ := find_eq_ok hfind
    have htrigger : trigger ∈ system.issuedFor record.id :=
      mem_filter.mpr ⟨hissued, by simp [hid]⟩
    have hupdated := @Inv.update zones system (record.submitted trigger nextRunAt submittedAt)
      h hids [] [trigger] (fun other hother => by cases hother)
      (fun other hother => by rw [mem_singleton.mp hother]; exact hid.symm)
      (by
        rw [append_nil]
        exact (h.rows record hmem).acknowledge htrigger hvalid hmatch)
    rw [append_nil] at hupdated
    exact hupdated

theorem inv_fail (h : Inv zones system) (access : Access) {trigger : AutomationTrigger}
    (hissued : trigger ∈ system.issued) (failure : String) (failedAt : Int) :
    Inv zones (system.answered
      (system.store.failAutomationTrigger access trigger failure failedAt)).2 := by
  refine afterCheck_transact (P := fun store => Inv zones { system with store := store }) h
    fun _ hbody => ?_
  obtain ⟨record, hfind, hbody⟩ := of_bind hbody
  obtain ⟨_, hmatch, hbody⟩ := of_bind hbody
  obtain ⟨_, -, hbody⟩ := of_bind hbody
  cases hbody
  obtain ⟨hmem, hid, hids⟩ := find_eq_ok hfind
  have htrigger : trigger ∈ system.issuedFor record.id :=
    mem_filter.mpr ⟨hissued, by simp [hid]⟩
  exact h.update_row hids ((h.rows record hmem).fail htrigger hmatch fun hterminal =>
    if_pos hterminal)

theorem inv_setState (h : Inv zones system) (access : Access) (scheduleId : Uuid)
    (expectedRevision : Nat) (target : AutomationScheduleState) (changedAt : Int) :
    Inv zones (system.answered (system.store.setAutomationScheduleState access scheduleId
      expectedRevision target changedAt)).2 := by
  refine afterCheck_transact (P := fun store => Inv zones { system with store := store }) h
    fun _ hbody => ?_
  obtain ⟨record, hfind, hbody⟩ := of_bind hbody
  obtain ⟨_, hstate, hbody⟩ := of_bind hbody
  obtain ⟨_, -, hbody⟩ := of_bind hbody
  obtain ⟨_, -, hbody⟩ := of_bind hbody
  cases hbody
  obtain ⟨hmem, -, hids⟩ := find_eq_ok hfind
  have hopen : record.state ≠ .failed := by
    rcases require_eq_ok.mp hstate with hactive | hpaused
    · simp [hactive]
    · simp [hpaused]
  exact h.update_row hids ((h.rows record hmem).setState _ hopen _ _)

theorem inv_next (zones : Zones) (system : ClaimSystem) (call : AutomationCall)
    (h : Inv zones system) : Inv zones ((machine zones).next system call) := by
  cases call with
  | create access draft => exact inv_create h access draft
  | claim access scheduleId now claimId leaseSeconds =>
    exact inv_claim h access scheduleId now claimId leaseSeconds
  | acknowledge access issue nextRunAt submittedAt =>
    simp only [machine, Lib.Machine.next, step]
    split
    · exact h
    · rename_i trigger hissue
      exact inv_acknowledge h access (mem_of_getElem? hissue) nextRunAt submittedAt
  | fail access issue failure failedAt =>
    simp only [machine, Lib.Machine.next, step]
    split
    · exact h
    · rename_i trigger hissue
      exact inv_fail h access (mem_of_getElem? hissue) failure failedAt
  | setState access scheduleId expectedRevision target changedAt =>
    exact inv_setState h access scheduleId expectedRevision target changedAt

theorem index_eq_of_nodup {α β : Type} {l : List α} {p : α → Bool} {f : α → β}
    (h : ((l.filter p).map f).Nodup) {i j : Nat} {a b : α} (ha : l[i]? = some a)
    (hb : l[j]? = some b) (hpa : p a = true) (hpb : p b = true) (hf : f a = f b) : i = j := by
  have hpairs : l.Pairwise fun x y => p x = true → p y = true → f x ≠ f y := by
    rw [List.Nodup, pairwise_map, pairwise_filter] at h
    exact h
  obtain ⟨hi, rfl⟩ := List.getElem?_eq_some_iff.mp ha
  obtain ⟨hj, rfl⟩ := List.getElem?_eq_some_iff.mp hb
  rcases Nat.lt_trichotomy i j with hlt | heq | hgt
  · exact absurd hf (List.pairwise_iff_getElem.mp hpairs i j hi hj hlt hpa hpb)
  · exact heq
  · exact absurd hf.symm (pairwise_iff_getElem.mp hpairs j i hj hi hgt hpb hpa)

theorem Inv.live_unique (h : Inv zones system) (hmem : record ∈ system.store.schedules)
    {instant : Int} {i j : Nat} {a b : AutomationTrigger} (ha : system.issued[i]? = some a)
    (hb : system.issued[j]? = some b) (hlive : record.Live instant a)
    (hlive' : record.Live instant b) : i = j := by
  obtain ⟨lease, hflight, hid, -, hkey, hattempt⟩ := RowInv.ensureMatchingClaim_eq_ok hlive.1
  obtain ⟨lease', hflight', hid', -, hkey', hattempt'⟩ := RowInv.ensureMatchingClaim_eq_ok hlive'.1
  cases hflight.symm.trans hflight'
  have hrow := h.rows record hmem
  have hgenuine : ∀ trigger ∈ system.issued, record.id = trigger.scheduleId →
      trigger.occurrenceKey = trigger.occurrenceAt := fun trigger htrigger heq =>
    (hrow.genuine trigger (mem_filter.mpr ⟨htrigger, by simp [heq]⟩)).2.2.1
  have hoccurrence := hgenuine a (mem_of_getElem? ha) hid
  have hoccurrence' := hgenuine b (mem_of_getElem? hb) hid'
  obtain ⟨count, -, hcount⟩ := hrow.attempts lease.occurrenceKey
  have hnodup : ((system.issued.filter fun trigger =>
      decide (trigger.occurrenceAt = lease.occurrenceKey) &&
        decide (trigger.scheduleId = record.id)).map (·.attempt)).Nodup := by
    rw [← filter_filter]
    rw [attemptsAt, issuedFor] at hcount
    rw [hcount]
    exact nodup_range'
  refine index_eq_of_nodup hnodup ha hb ?_ ?_ (hattempt.symm.trans hattempt')
  · simp [hkey, hoccurrence, hid]
  · simp [hkey', hoccurrence', hid']

end ClaimSystem

end Stillflow.Automation
