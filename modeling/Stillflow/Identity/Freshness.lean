import Stillflow.Identity.Evidence

/-!
Freshness of authorization: a call that starts after an operation has returned decides by states
from that operation on, as long as no load that began before an operation's write fills the cache
after that operation has cleared it.
-/

namespace Stillflow.Identity

open Stillflow.Core Stillflow.Storage Lib.Fallible Lib List

variable {mode : AuthorizationMode} {gate gate' : Gate} {call : ServiceCall}
  {phase phase' : ServicePhase} {key : PrincipalKey} {seenFrom startFrom : Nat}

/-- The entries of the cache were loaded after the last operation that has cleared it. -/
structure Gate.Settled (gate : Gate) : Prop where
  version : ∀ workspaceId, gate.settled workspaceId ≤ gate.version
  entries : ∀ {key entry}, gate.cache key = some entry →
    gate.settled key.workspaceId ≤ entry.since ∧
      gate.Loading entry.since key [] entry.capabilities

/-- The Workspace was active when the call read it. -/
structure Gate.Opened (gate : Gate) (key : PrincipalKey) (seen start : Nat) : Prop where
  active : gate.Enters key seen
  start : start ≤ gate.settled key.workspaceId

theorem Gate.Opened.grows {seen start : Nat} (h : gate.Opened key seen start)
    (hgrows : gate.Grows gate') : gate'.Opened key seen start :=
  ⟨h.active.grows hgrows, h.start.trans (hgrows.settled _)⟩

/-- What `authorize` knows in each phase. -/
def Gate.Progress (gate : Gate) (failing : List ServiceRead) (key : PrincipalKey)
    (capability : Capability) : ServicePhase → Prop
  | .workspaceActive seen start => gate.Opened key seen start
  | .missed seen start => gate.Opened key seen start
  | .memberActive seen start since => gate.Opened key seen start ∧ start ≤ since ∧
      since ≤ gate.version ∧ key.kind = .member ∧ gate.Since since (·.Active key)
  | .loading seen start since remaining capabilities => gate.Opened key seen start ∧
      start ≤ since ∧ since ≤ gate.version ∧
      gate.Loading since key remaining capabilities
  | .decided seen start granted => gate.Decision failing key capability seen start granted
  | _ => True

theorem Gate.Progress.grows {failing : List ServiceRead} {capability : Capability}
    (h : gate.Progress failing key capability phase) (hgrows : gate.Grows gate') :
    gate'.Progress failing key capability phase := by
  cases phase with
  | workspaceActive | missed => exact Opened.grows h hgrows
  | memberActive =>
    obtain ⟨hopened, hstart, hsince, hkind, hactive⟩ := h
    exact ⟨hopened.grows hgrows, hstart, hsince.trans hgrows.version, hkind,
      hactive.grows hgrows⟩
  | loading =>
    obtain ⟨hopened, hstart, hsince, hloading⟩ := h
    exact ⟨hopened.grows hgrows, hstart, hsince.trans hgrows.version,
      hloading.map (·.grows hgrows)⟩
  | decided => exact Decision.map h (·.grows hgrows) (·.grows hgrows)
  | _ => trivial

/-- What a call relies on in each phase. -/
def ServicePhase.Holds (mode : AuthorizationMode) (gate : Gate) :
    ServiceCall → ServicePhase → Prop
  | .authorize failing workspaceId (some (kind, id)) capability, phase =>
    gate.Progress failing ⟨workspaceId, kind, id⟩ capability phase
  | .authorize _ _ none _, .decided _ _ granted => granted = decide (mode = .localTrusted)
  | .identity _ workspaceId operation, .checked => operation.Checked workspaceId gate.db
  | .identity _ workspaceId operation, .committed version =>
    gate.Ever version (operation.Effective workspaceId) ∧ operation.clears = true
  | .identity _ workspaceId operation, .returned (some version) =>
    gate.Ever version (operation.Effective workspaceId) ∧
      (operation.clears = true → version ≤ gate.settled workspaceId)
  | _, _ => True

theorem ServicePhase.Holds.grows (h : phase.Holds mode gate call) (hgrows : gate.Grows gate') :
    phase.Holds mode gate' call := by
  cases call with
  | authorize failing workspaceId principal capability =>
    cases principal with
    | none => cases phase <;> exact h
    | some key => exact Gate.Progress.grows h hgrows
  | identity access workspaceId operation =>
    cases phase with
    | checked => exact IdentityOperation.Checked.narrows h hgrows.narrows
    | committed version => exact ⟨h.1.grows hgrows IdentityOperation.Effective.narrows, h.2⟩
    | returned version =>
      cases version with
      | none => trivial
      | some version =>
        refine ⟨h.1.grows hgrows IdentityOperation.Effective.narrows, ?_⟩
        intro hclears
        exact (h.2 hclears).trans (hgrows.settled _)
    | _ => trivial

section Authorize

variable {failing : List ServiceRead} {key : PrincipalKey} {capability : Capability}

theorem grows_authorizeStep (phase : ServicePhase) :
    gate.Grows (authorizeStep gate failing key capability phase).1 := by
  fun_cases authorizeStep
  all_goals first | exact .refl _ | exact Gate.grows_fill _ _

theorem Gate.Settled.fill (h : gate.Settled) {since : Nat} {capabilities : List String}
    (hsince : gate.settled key.workspaceId ≤ since)
    (hloading : gate.Loading since key [] capabilities) :
    (gate.fill key ⟨capabilities, since⟩).Settled := by
  have hgrows := @grows_fill gate key ⟨capabilities, since⟩
  refine ⟨h.version, ?_⟩
  intro other entry hentry
  simp only [Gate.fill, Function.update_apply] at hentry
  split_ifs at hentry with hkey
  · cases hentry
    subst hkey
    exact ⟨hsince, hloading.map (·.grows hgrows)⟩
  · have hold := h.entries hentry
    exact ⟨hold.1, hold.2.map (·.grows hgrows)⟩

theorem decision_workspace {start : Nat}
    (h : ¬(ServiceRead.workspace ∉ failing ∧ key.workspaceId ∈ gate.db.activeWorkspaces)) :
    gate.Decision failing key capability gate.version start false := by
  by_cases hfailing : ServiceRead.workspace ∈ failing
  · exact .unreadable hfailing trivial
  · apply Gate.Decision.workspace
    exact Gate.since_now le_rfl fun hmem => h ⟨hfailing, hmem⟩

theorem settled_authorizeStep (h : gate.Settled)
    (hprogress : gate.Progress failing key capability phase)
    (htimely : ∀ {seen start since capabilities}, phase = .loading seen start since [] capabilities →
      gate.settled key.workspaceId ≤ since) :
    (authorizeStep gate failing key capability phase).1.Settled := by
  fun_cases authorizeStep
  all_goals first
    | exact h
    | exact h.fill (htimely rfl) hprogress.2.2.2

/-- The call knows after its next statement what it should. -/
def Gate.Progresses (gate : Gate) (failing : List ServiceRead) (key : PrincipalKey)
    (capability : Capability) (phase : ServicePhase) : Prop :=
  let next := authorizeStep gate failing key capability phase
  next.1.Progress failing key capability next.2

variable {seen start since : Nat}

theorem progress_workspaceActive (h : gate.Settled) (hopened : gate.Opened key seen start) :
    gate.Progresses failing key capability (.workspaceActive seen start) := by
  rw [Gate.Progresses, authorizeStep]
  cases hcache : gate.cache key with
  | none => exact hopened
  | some entry =>
    have hentry := h.entries hcache
    exact .loaded hopened.active (hentry.2.map (·.mono (hopened.start.trans hentry.1)))

theorem progress_missed (h : gate.Settled) (hopened : gate.Opened key seen start) :
    gate.Progresses failing key capability (.missed seen start) := by
  have hstart := hopened.start.trans (h.version _)
  rw [Gate.Progresses, authorizeStep]
  cases hrow : gate.db.principal key.kind key.workspaceId key.id with
  | error fault =>
    refine .principal hopened.active (Gate.since_now hstart ?_)
    rintro ⟨row, hfound, -⟩
    rw [hrow] at hfound
    cases hfound
  | ok row =>
    simp only
    split
    · rename_i hrefused
      rcases hrefused with hfailing | hstate
      · exact .unreadable hfailing hopened.active
      · refine .principal hopened.active (Gate.since_now hstart ?_)
        rintro ⟨other, hfound, hactive⟩
        rw [hrow] at hfound
        cases hfound
        exact hstate hactive
    · rename_i hactive
      have hnow : gate.Since gate.version (·.Active key) :=
        Gate.since_now le_rfl ⟨row, hrow, not_not.mp (not_or.mp hactive).2⟩
      cases hkind : key.kind with
      | member => exact ⟨hopened, hstart, le_rfl, hkind, hnow⟩
      | serviceAccount =>
        have hids : gate.db.roleIds key = [] := by
          unfold IdentityDb.roleIds
          rw [hkind]
        exact ⟨hopened, hstart, le_rfl, hnow, [], rfl,
          Gate.since_now le_rfl hids, nofun⟩

theorem progress_memberActive
    (h : gate.Progress failing key capability (.memberActive seen start since)) :
    gate.Progresses failing key capability (.memberActive seen start since) := by
  obtain ⟨hopened, hstart, hsince, hkind, hactive⟩ := h
  rw [Gate.Progresses, authorizeStep]
  split
  · rename_i hfailing
    exact .unreadable hfailing ⟨hopened.active, hactive.mono hstart⟩
  · cases hrow : gate.db.principal .member key.workspaceId key.id with
    | error fault =>
      refine .principal hopened.active (Gate.since_now (hstart.trans hsince) ?_)
      rintro ⟨row, hfound, -⟩
      rw [hkind, hrow] at hfound
      cases hfound
    | ok row =>
      have hids : gate.db.roleIds key = gate.db.memberRoleIds key.workspaceId key.id := by
        unfold IdentityDb.roleIds
        rw [hkind]
      exact ⟨hopened, hstart, hsince, hactive, [], rfl, Gate.since_now hsince hids, nofun⟩

theorem progress_loading {remaining : List Uuid} {capabilities : List String}
    (h : gate.Progress failing key capability
      (.loading seen start since remaining capabilities)) :
    gate.Progresses failing key capability
      (.loading seen start since remaining capabilities) := by
  obtain ⟨hopened, hstart, hsince, hloading⟩ := h
  cases remaining with
  | nil =>
    have hgrows := @Gate.grows_fill gate key ⟨capabilities, since⟩
    exact .loaded (hopened.active.grows hgrows) (hloading.map fun h => (h.mono hstart).grows hgrows)
  | cons roleId rest =>
    obtain ⟨parts, -, hids, -⟩ := hloading.roles
    have hassigned : gate.Since start fun db => roleId ∈ db.roleIds key := by
      apply (hids.mono hstart).imp
      intro db hdb
      rw [hdb]
      exact mem_append_right _ mem_cons_self
    rw [Gate.Progresses, authorizeStep]
    cases hrole : gate.db.role key.workspaceId roleId with
    | error fault =>
      have hmissing : gate.Since start fun db =>
          ∀ role, db.role key.workspaceId roleId ≠ .ok role := by
        apply Gate.since_now (hstart.trans hsince)
        intro role
        rw [hrole]
        exact nofun
      exact .dangling hopened.active hassigned hmissing
    | ok role =>
      simp only
      split
      · rename_i hfailing
        exact .unreadable hfailing ⟨hopened.active, hloading.active.mono hstart, hassigned⟩
      · exact ⟨hopened, hstart, hsince, hloading.read hsince hrole⟩

theorem progress_authorizeStep (h : gate.Settled)
    (hprogress : gate.Progress failing key capability phase) :
    gate.Progresses failing key capability phase := by
  cases phase with
  | workspaceActive => exact progress_workspaceActive h hprogress
  | missed => exact progress_missed h hprogress
  | memberActive => exact progress_memberActive hprogress
  | loading => exact progress_loading hprogress
  | _ =>
    simp only [Gate.Progresses, authorizeStep]
    split
    · rename_i hactive
      exact ⟨Gate.since_now le_rfl hactive.2, le_rfl⟩
    · rename_i hnot
      exact decision_workspace hnot

end Authorize

section Operation

variable {access : Access} {workspaceId : Uuid} {operation : IdentityOperation}

theorem grows_operationStep (phase : ServicePhase) :
    gate.Grows (operationStep gate access workspaceId operation phase).1 := by
  fun_cases operationStep
  all_goals first
    | exact .refl _
    | exact Gate.grows_invalidate _ _
    | exact Gate.grows_commit (IdentityOperation.narrows_write (by assumption))

theorem Gate.Settled.commit (h : gate.Settled) {db : IdentityDb} (hdb : gate.db.Narrows db) :
    (gate.commit db).Settled := by
  have hgrows := grows_commit hdb
  refine ⟨fun workspaceId => (h.version workspaceId).trans hgrows.version, ?_⟩
  intro key entry hentry
  have hold := h.entries hentry
  exact ⟨hold.1, hold.2.map (·.grows hgrows)⟩

theorem Gate.Settled.invalidate (h : gate.Settled) {version : Nat}
    (hversion : version ≤ gate.version) : (gate.invalidate workspaceId version).Settled := by
  have hgrows := @grows_invalidate gate workspaceId version
  constructor
  · intro other
    have hother := h.version other
    simp only [Gate.invalidate, Function.update_apply]
    split_ifs with heq
    · subst heq
      exact Nat.max_le.mpr ⟨hother, hversion⟩
    · exact hother
  · intro key entry hentry
    simp only [Gate.invalidate] at hentry
    split_ifs at hentry with hkey
    have hold := h.entries hentry
    refine ⟨?_, hold.2.map (·.grows hgrows)⟩
    simp only [Gate.invalidate, Function.update_apply, if_neg hkey]
    exact hold.1

theorem settled_operationStep (h : gate.Settled)
    (hholds : phase.Holds mode gate (.identity access workspaceId operation)) :
    (operationStep gate access workspaceId operation phase).1.Settled := by
  fun_cases operationStep
  all_goals first
    | exact h
    | exact h.invalidate hholds.1.1
    | exact h.commit (IdentityOperation.narrows_write (by assumption))

theorem holds_operationStep
    (hholds : phase.Holds mode gate (.identity access workspaceId operation))
    (htimely : phase = .checked → operation.clears = false ∨ access.readBack = none) :
    (operationStep gate access workspaceId operation phase).2.Holds mode
      (operationStep gate access workspaceId operation phase).1
      (.identity access workspaceId operation) := by
  cases phase with
  | checked =>
    rw [operationStep]
    split
    · trivial
    · trivial
    · rename_i db _ hwrite
      have hever := @Gate.ever_commit db gate (operation.Effective workspaceId)
        (IdentityOperation.effective_write hholds hwrite)
      split
      · rename_i hreturns
        refine ⟨hever, ?_⟩
        intro hclears
        have hkept : operation.clears ≠ false := by simp [hclears]
        rcases hreturns with hfailed | hother
        · rw [(htimely rfl).resolve_left hkept] at hfailed
          cases hfailed
        · exact absurd hother hkept
      · rename_i hcontinues
        exact ⟨hever, Bool.eq_true_of_not_eq_false (not_or.mp hcontinues).2⟩
  | committed version =>
    rw [operationStep]
    have hgrows := @Gate.grows_invalidate gate workspaceId version
    refine ⟨hholds.1.grows hgrows IdentityOperation.Effective.narrows, ?_⟩
    intro _
    simp only [Gate.invalidate, Function.update_self]
    exact Nat.le_max_right ..
  | _ =>
    simp only [operationStep]
    split
    · rename_i hcheck
      exact IdentityOperation.checked_of_check hcheck
    · trivial

end Operation

/-- No load that read before an operation's write fills the cache after that operation has cleared
it, and what an operation writes can be read back. -/
def Timely (pool : Pool Gate ServiceCall ServicePhase) : Move ServiceCall → Prop
  | .invoke _ => True
  | .advance index =>
    match pool.calls[index]? with
    | some (.authorize _ workspaceId (some _) _, .loading _ _ since [] _) =>
      pool.shared.settled workspaceId ≤ since
    | some (.identity access _ operation, .checked) =>
      operation.clears = false ∨ access.readBack = none
    | _ => True

instance (pool : Pool Gate ServiceCall ServicePhase) (m : Move ServiceCall) :
    Decidable (Timely pool m) := by
  unfold Timely
  split
  · infer_instance
  · split <;> infer_instance

/-- What a statement of a call can be. -/
inductive ServiceStep (mode : AuthorizationMode) (gate : Gate) :
    ServiceCall → ServicePhase → Gate → ServicePhase → Prop where
  | principal {failing workspaceId kind id capability phase} :
    ServiceStep mode gate (.authorize failing workspaceId (some (kind, id)) capability) phase
      (authorizeStep gate failing ⟨workspaceId, kind, id⟩ capability phase).1
      (authorizeStep gate failing ⟨workspaceId, kind, id⟩ capability phase).2
  | anonymous {failing workspaceId capability phase} :
    ServiceStep mode gate (.authorize failing workspaceId none capability) phase gate
      (.decided gate.version (gate.settled workspaceId) (mode = .localTrusted))
  | operation {access workspaceId operation phase} :
    ServiceStep mode gate (.identity access workspaceId operation) phase
      (operationStep gate access workspaceId operation phase).1
      (operationStep gate access workspaceId operation phase).2

theorem serviceStep_of_step
    (h : (serviceMachine mode).step gate call phase = some (gate', phase')) :
    ServiceStep mode gate call phase gate' phase' := by
  unfold serviceMachine at h
  simp only at h
  split at h
  · cases h
  · cases h
  · obtain ⟨rfl, rfl⟩ := Prod.ext_iff.mp (Option.some.inj h)
    exact .principal
  · cases h
    exact .anonymous
  · obtain ⟨rfl, rfl⟩ := Prod.ext_iff.mp (Option.some.inj h)
    exact .operation

theorem ServiceStep.grows (h : ServiceStep mode gate call phase gate' phase') :
    gate.Grows gate' := by
  cases h with
  | principal => exact grows_authorizeStep phase
  | anonymous => exact .refl gate
  | operation => exact grows_operationStep phase

theorem authorization_outline : (serviceMachine mode).Outline Timely Gate.Settled
    (fun gate call phase => phase.Holds mode gate call) where
  start call _ := by
    cases call with
    | authorize failing workspaceId principal capability =>
      cases principal <;> trivial
    | identity => trivial
  own := by
    intro pool index call phase gate' phase' htimely hcall hsettled hholds hstep
    simp only [Timely, hcall] at htimely
    cases serviceStep_of_step hstep with
    | principal =>
      refine ⟨settled_authorizeStep hsettled hholds ?_, progress_authorizeStep hsettled hholds⟩
      intro seen start since capabilities hphase
      subst hphase
      exact htimely
    | anonymous => exact ⟨hsettled, rfl⟩
    | operation =>
      refine ⟨settled_operationStep hsettled hholds, holds_operationStep hholds ?_⟩
      intro hphase
      subst hphase
      exact htimely
  others := by
    intro pool index position call phase gate' phase' call₂ phase₂ _ _ _ _ _ _ hother hstep
    exact hother.grows (serviceStep_of_step hstep).grows

/-- The call has read no state before the given ones. -/
def ServicePhase.From (seenFrom startFrom : Nat) : ServicePhase → Prop
  | .workspaceActive seen start => seenFrom ≤ seen ∧ startFrom ≤ start
  | .missed seen start => seenFrom ≤ seen ∧ startFrom ≤ start
  | .memberActive seen start _ => seenFrom ≤ seen ∧ startFrom ≤ start
  | .loading seen start _ _ _ => seenFrom ≤ seen ∧ startFrom ≤ start
  | .decided seen start _ => seenFrom ≤ seen ∧ startFrom ≤ start
  | _ => True

def ServiceCall.From (owner : Uuid) (seenFrom startFrom : Nat) : ServiceCall → ServicePhase → Prop
  | .authorize _ workspaceId _ _, phase => workspaceId = owner → phase.From seenFrom startFrom
  | .identity .., _ => True

theorem from_authorizeStep {failing : List ServiceRead} {capability : Capability}
    (hseen : seenFrom ≤ gate.version) (hstart : startFrom ≤ gate.settled key.workspaceId)
    (h : phase.From seenFrom startFrom) :
    (authorizeStep gate failing key capability phase).2.From seenFrom startFrom := by
  fun_cases authorizeStep
  all_goals first
    | exact h
    | exact ⟨hseen, hstart⟩

theorem ServiceStep.from {owner : Uuid} (h : ServiceStep mode gate call phase gate' phase')
    (hseen : seenFrom ≤ gate.version) (hstart : startFrom ≤ gate.settled owner)
    (hfrom : call.From owner seenFrom startFrom phase) :
    call.From owner seenFrom startFrom phase' := by
  cases h with
  | principal =>
    rintro rfl
    exact from_authorizeStep hseen hstart (hfrom rfl)
  | anonymous =>
    rintro rfl
    exact ⟨hseen, hstart⟩
  | operation => trivial

section Later

variable {pool : Pool Gate ServiceCall ServicePhase} {moves : List (Move ServiceCall)}

theorem ever_run {workspaceId : Uuid} {operation : IdentityOperation} {n : Nat}
    (hvalid : Concurrent.Valid Gate.Settled (fun gate call phase => phase.Holds mode gate call) pool)
    (htimely : ∀ e ∈ (serviceMachine mode).machine.trace pool moves, Timely e.1 e.2)
    (h : pool.shared.Ever n (operation.Effective workspaceId)) :
    ((serviceMachine mode).machine.run pool moves).shared.Ever n
      (operation.Effective workspaceId) := by
  have hkept := authorization_outline.related
    (R := fun gate gate' => gate.Ever n (operation.Effective workspaceId) →
      gate'.Ever n (operation.Effective workspaceId))
    (fun _ h => h) (fun h h' hever => h' (h hever))
    (fun _ _ hstep hever => hever.grows (serviceStep_of_step hstep).grows
      IdentityOperation.Effective.narrows) hvalid htimely
  exact hkept h

/-- A call that starts once the states are there reads no earlier ones. -/
theorem from_run {owner : Uuid} {index : Nat}
    (hvalid : Concurrent.Valid Gate.Settled (fun gate call phase => phase.Holds mode gate call) pool)
    (htimely : ∀ e ∈ (serviceMachine mode).machine.trace pool moves, Timely e.1 e.2)
    (hseen : seenFrom ≤ pool.shared.version) (hstart : startFrom ≤ pool.shared.settled owner)
    (hindex : pool.calls.length ≤ index)
    (hcall : ((serviceMachine mode).machine.run pool moves).calls[index]? = some (call, phase)) :
    call.From owner seenFrom startFrom phase := by
  refine authorization_outline.later
    (K := fun gate => seenFrom ≤ gate.version ∧ startFrom ≤ gate.settled owner) ?_ ?_ ?_ hvalid
    ⟨hseen, hstart⟩ ?_ htimely hindex hcall
  · intro gate call phase gate' phase' _ _ hstep hK
    have hgrows := (serviceStep_of_step hstep).grows
    exact ⟨hK.1.trans hgrows.version, hK.2.trans (hgrows.settled owner)⟩
  · intro call
    cases call with
    | authorize => exact fun _ => trivial
    | identity => trivial
  · intro gate call phase gate' phase' _ hK hfrom hstep
    exact (serviceStep_of_step hstep).from hK.1 hK.2 hfrom
  · intro position call phase hposition hsome
    rw [getElem?_eq_none hposition] at hsome
    cases hsome

end Later

/-- The decision follows the states from the one that the operation has written on; a new Workspace
clears no entry, and only the read of the Workspace is known to be as late. -/
def Decides (mode : AuthorizationMode) (gate : Gate) (version : Nat) (workspaceId : Uuid)
    (operation : IdentityOperation) (failing : List ServiceRead)
    (principal : Option (PrincipalKind × Uuid)) (capability : Capability) (granted : Bool) : Prop :=
  match principal with
  | none => granted = decide (mode = .localTrusted)
  | some (kind, id) =>
    gate.Decision failing ⟨workspaceId, kind, id⟩ capability version
        (if operation = .createWorkspace then 0 else version) granted ∧
      (operation = .archiveWorkspace → granted = false) ∧
      ∀ revokedAt, operation = .revokePrincipal kind id revokedAt → granted = false

/-- Calls of `authorize` that start once an operation has returned decide by what it has written. -/
def Fresh (mode : AuthorizationMode) (db : IdentityDb) (before after : List (Move ServiceCall)) :
    Prop :=
  let returned := (serviceMachine mode).machine.run ⟨.new db, []⟩ before
  let final := (serviceMachine mode).machine.run returned after
  ∀ ⦃access workspaceId operation version⦄,
    (.identity access workspaceId operation, .returned (some version)) ∈ returned.calls →
    ∀ ⦃index failing principal capability seen start granted⦄, returned.calls.length ≤ index →
      final.calls[index]? = some
        (.authorize failing workspaceId principal capability, .decided seen start granted) →
      Decides mode final.shared version workspaceId operation failing principal capability granted

theorem settled_new (db : IdentityDb) : (Gate.new db).Settled :=
  ⟨fun _ => le_rfl, nofun⟩

/-- In every interleaving whose fills of the cache are timely, a call that starts after an operation
on identities has returned decides by the durable states from that operation on. -/
theorem authorization_fresh (mode : AuthorizationMode) (db : IdentityDb)
    (before after : List (Move ServiceCall))
    (htimely : ∀ e ∈ (serviceMachine mode).machine.trace ⟨.new db, []⟩ (before ++ after),
      Timely e.1 e.2) : Fresh mode db before after := by
  unfold Fresh
  intro returned final access workspaceId operation version hoperation index failing principal
    capability seen start granted hindex hcall
  rw [Machine.trace_append] at htimely
  have hreturned : Concurrent.Valid _ _ returned :=
    authorization_outline.run (Concurrent.valid_nil (settled_new db))
      fun e he => htimely e (mem_append_left _ he)
  have hlater := fun e he => htimely e (mem_append_right _ he)
  have hdecided := (authorization_outline.run hreturned hlater).calls hcall
  cases principal with
  | none => exact hdecided
  | some key =>
    obtain ⟨position, hposition⟩ := mem_iff_getElem?.mp hoperation
    have hwritten := hreturned.calls hposition
    have hever := ever_run hreturned hlater hwritten.1
    have hversion := hwritten.1.1
    have hseen := (from_run hreturned hlater hversion (Nat.zero_le _) hindex hcall rfl).1
    have hstart := fun hclears =>
      (from_run hreturned hlater hversion (hwritten.2 hclears) hindex hcall rfl).2
    cases operation with
    | archiveWorkspace =>
      -- An archive clears no entry, but each call reads the Workspace.
      have hrefused := Gate.Decision.archived hdecided hever hseen
      exact ⟨(hrefused.2 version).map (·.mono hseen) id, fun _ => hrefused.1, nofun⟩
    | createWorkspace =>
      exact ⟨Gate.Decision.map hdecided (·.mono hseen) (·.mono (Nat.zero_le _)), nofun, nofun⟩
    | revokePrincipal =>
      refine ⟨Gate.Decision.map hdecided (·.mono hseen) (·.mono (hstart rfl)), nofun, ?_⟩
      rintro revokedAt ⟨⟩
      exact Gate.Decision.revoked hdecided hever (hstart rfl)
    | _ => exact ⟨Gate.Decision.map hdecided (·.mono hseen) (·.mono (hstart rfl)), nofun, nofun⟩

def oneActiveWorkspace : IdentityDb := { IdentityDb.new with activeWorkspaces := [1] }

/-- Member 2 of Workspace 1 has a role that may read the Workspace. -/
def memberWithRole : List (Move ServiceCall) :=
  [.invoke (.identity {} 1 (.createPrincipal .member 2 "m" 0)), .advance 0, .advance 0, .advance 0,
    .invoke (.identity {} 1 (.createRole 3 "r" 0)), .advance 1, .advance 1, .advance 1,
    .invoke (.identity {} 1 (.setRoleCapabilities 3 [.workspaceRead])), .advance 2, .advance 2,
    .advance 2, .invoke (.identity {} 1 (.assignRole 2 3)), .advance 3, .advance 3, .advance 3]

def readCall : ServiceCall := .authorize [] 1 (some (.member, 2)) .workspaceRead

def revokeCall : ServiceCall := .identity {} 1 (.revokePrincipal .member 2 0)

/-- The member is revoked after the given number of statements of a call of `authorize`, which then
runs to its end. -/
def revokedWhile (statements : Nat) : List (Move ServiceCall) :=
  memberWithRole ++ [.invoke readCall] ++ List.replicate statements (.advance 4) ++
    [.invoke revokeCall, .advance 5, .advance 5, .advance 5] ++ List.replicate 6 (.advance 4)

def laterCall : List (Move ServiceCall) := [.invoke readCall] ++ List.replicate 6 (.advance 6)

def servicePool (moves : List (Move ServiceCall)) : Pool Gate ServiceCall ServicePhase :=
  (serviceMachine .server).machine.run ⟨.new oneActiveWorkspace, []⟩ moves

/-- The load of the first call puts what the member was allowed before back into the cache. -/
theorem revoked_member_granted : ¬Fresh .server oneActiveWorkspace (revokedWhile 5) laterCall := by
  intro h
  have hrevoked : (revokeCall, .returned (some 5)) ∈ (servicePool (revokedWhile 5)).calls := by
    decide +kernel
  have hgranted : (servicePool (revokedWhile 5 ++ laterCall)).calls[6]? =
      some (readCall, .decided 5 5 true) := by
    decide +kernel
  have hlength : (servicePool (revokedWhile 5)).calls.length ≤ 6 := by
    decide +kernel
  rw [servicePool, Machine.run_append] at hgranted
  have hrefused := (h hrevoked hlength hgranted).2.2 0 rfl
  cases hrefused

/-- A load that ends before the revocation leaves no entry behind. -/
theorem revoked_member_refused : Fresh .server oneActiveWorkspace (revokedWhile 6) laterCall :=
  authorization_fresh .server oneActiveWorkspace (revokedWhile 6) laterCall (by decide +kernel)

end Stillflow.Identity
