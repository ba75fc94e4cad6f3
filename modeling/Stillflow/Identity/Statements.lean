import Stillflow.Lib.Concurrent
import Stillflow.Identity.Database

/-! The calls of the identity store at the granularity of statements. -/

namespace Stillflow.Identity

open Stillflow.Core Stillflow.Storage Lib.Fallible Lib

structure CredentialRefDraft where
  id : Uuid
  workspaceId : Uuid
  owner : CredentialOwner
  providerKind : String
  credentialRef : String
  createdAt : Int
  expiresAt : Option Int

/-- A registered credential is active. -/
def CredentialRefDraft.row (draft : CredentialRefDraft) : Credential where
  id := draft.id
  workspaceId := draft.workspaceId
  owner := draft.owner
  providerKind := draft.providerKind
  credentialRef := draft.credentialRef
  state := .active
  createdAt := draft.createdAt
  expiresAt := draft.expiresAt
  revokedAt := none

inductive IdentityCall where
  | createPrincipal (kind : PrincipalKind) (access : Access) (workspaceId id : Uuid)
      (text : String) (createdAt : Int)
  | revokePrincipal (kind : PrincipalKind) (access : Access) (workspaceId id : Uuid)
      (revokedAt : Int)
  | registerCredentialReference (access : Access) (draft : CredentialRefDraft)
  | beginCredentialRotation (access : Access) (workspaceId id : Uuid) (startedAt : Int)
  | completeCredentialRotation (access : Access) (workspaceId oldId : Uuid)
      (replacement : CredentialRefDraft) (rotatedAt : Int)
  | revokeCredential (access : Access) (workspaceId id : Uuid) (revokedAt : Int)
  | recoverCredential (access : Access) (workspaceId id : Uuid) (recoveredAt : Int)
  /-- `recover_incomplete_rotations`, at every opening of the store. -/
  | reopen (access : Access)
  /-- Any call that writes neither principals nor credentials. -/
  | other (change : IdentityDb → IdentityDb)

namespace IdentityCall

def createMember := createPrincipal .member

def revokeMember := revokePrincipal .member

def createServiceAccount := createPrincipal .serviceAccount

def revokeServiceAccount := revokePrincipal .serviceAccount

end IdentityCall

def PrincipalKind.idLabel : PrincipalKind → String
  | .member => "member"
  | .serviceAccount => "service account"

def PrincipalKind.textLabel : PrincipalKind → String
  | .member => "member subject"
  | .serviceAccount => "service account name"

def PrincipalKind.revocationLabel : PrincipalKind → String
  | .member => "member revocation"
  | .serviceAccount => "service account revocation"

inductive IdentityPhase where
  | opened
  | workspaceChecked
  | ownerChecked
  /-- The row was read and allows the call. -/
  | allowed
  /-- The row was read and is to be set to the state. -/
  | recovering (target : CredentialState)
  | returned (result : Except StorageError Unit)

/-- A statement that decides: the call goes on or returns the fault. -/
def decided (check : Except StorageError IdentityPhase) : IdentityPhase :=
  match check with
  | .ok phase => phase
  | .error fault => .returned (.error fault)

namespace IdentityDb

/-- The read of `revoke_member` and `revoke_service_account`. -/
def allowPrincipalRevocation (db : IdentityDb) (kind : PrincipalKind) (workspaceId id : Uuid)
    (revokedAt : Int) : Except StorageError IdentityPhase := do
  let current ← db.principal kind workspaceId id
  require (current.createdAt ≤ revokedAt) (.invalidTimestampOrder kind.revocationLabel)
  return .allowed

/-- The read of `begin_credential_rotation`. -/
def allowRotation (db : IdentityDb) (workspaceId id : Uuid) (startedAt : Int) :
    Except StorageError IdentityPhase := do
  let current ← db.credential workspaceId id
  require (current.state = .active ∨ current.state = .pending)
    (.identity "credential is not rotatable")
  require (∀ expiry ∈ current.expiresAt, startedAt < expiry) (.identity "credential is expired")
  return .allowed

/-- The read of `revoke_credential`. -/
def allowRevocation (db : IdentityDb) (workspaceId id : Uuid) (revokedAt : Int) :
    Except StorageError IdentityPhase := do
  let current ← db.credential workspaceId id
  require (current.createdAt ≤ revokedAt) (.invalidTimestampOrder "credential revocation")
  return .allowed

/-- The read of `recover_credential`. -/
def allowRecovery (db : IdentityDb) (workspaceId id : Uuid) (recoveredAt : Int) :
    Except StorageError IdentityPhase := do
  let current ← db.credential workspaceId id
  require (current.state = .recoveryRequired) (.identity "credential does not require recovery")
  return .recovering (if ∃ expiry ∈ current.expiresAt, expiry ≤ recoveredAt then .expired
    else .active)

/-- The state of a row that is not revoked yet. -/
def markRevoked (revokedAt : Int) (row : Credential) : Credential :=
  { row with state := .revoked, revokedAt := some revokedAt }

/-- The transaction of `complete_credential_rotation`. -/
def completeRotation (db : IdentityDb) (workspaceId oldId : Uuid)
    (replacement : CredentialRefDraft) (rotatedAt : Int) :
    Except StorageError (Unit × IdentityDb) := do
  let old ← db.credential workspaceId oldId
  require (old.state = .rotating ∨ old.state = .recoveryRequired)
    (.identity "credential rotation is not in progress")
  require (old.owner = replacement.owner) (.identity "credential owner mismatch")
  require (old.createdAt ≤ rotatedAt) (.invalidTimestampOrder "credential rotation")
  let db := db.updateCredential workspaceId oldId (markRevoked rotatedAt) fun _ => rfl
  let db ← db.insertCredential { replacement.row with workspaceId := workspaceId }
  return ((), db)

def reopened (db : IdentityDb) : IdentityDb :=
  { db with
    credentials := db.credentials.map (fun row =>
      if row.state = .rotating then { row with state := .recoveryRequired } else row) fun row => by
        split <;> rfl }

end IdentityDb

def concluded (result : Except StorageError Unit × IdentityDb) : IdentityDb × IdentityPhase :=
  (result.2, .returned result.1)

def checkReplacement (workspaceId : Uuid) (replacement : CredentialRefDraft) :
    Except StorageError Unit := do
  require (replacement.workspaceId = workspaceId) (.identity "credential workspace mismatch")
  validateProviderReference replacement.providerKind replacement.credentialRef
  validateExpiry replacement.createdAt replacement.expiresAt

/-- The next statement of a call that has not returned. -/
def IdentityCall.statement (db : IdentityDb) (phase : IdentityPhase) :
    IdentityCall → IdentityDb × IdentityPhase
  | .createPrincipal kind access workspaceId id text createdAt =>
    match phase with
    | .workspaceChecked => concluded (executed access db (do
        let db ← db.insertPrincipal kind ⟨id, workspaceId, text, .active, createdAt, none⟩
        return ((), db)))
    | _ =>
      (db, decided (do
        validateId id kind.idLabel
        validateText text kind.textLabel
        access.connect
        db.ensureActiveWorkspace workspaceId
        return .workspaceChecked))
  | .revokePrincipal kind access workspaceId id revokedAt =>
    match phase with
    | .allowed => concluded (executed access db
        (.ok ((), db.revokePrincipal kind workspaceId id revokedAt)))
    | _ =>
      (db, decided (do
        access.connect
        db.allowPrincipalRevocation kind workspaceId id revokedAt))
  | .registerCredentialReference access draft =>
    match phase with
    | .ownerChecked => concluded (executed access db (do
        let db ← db.insertCredential draft.row
        return ((), db)))
    | .workspaceChecked =>
      (db, decided (do
        db.ensureOwnerInWorkspace draft.workspaceId draft.owner
        return .ownerChecked))
    | _ =>
      (db, decided (do
        validateId draft.id "credential"
        validateText draft.providerKind "credential provider kind"
        validateProviderReference draft.providerKind draft.credentialRef
        validateExpiry draft.createdAt draft.expiresAt
        access.connect
        db.ensureActiveWorkspace draft.workspaceId
        return .workspaceChecked))
  | .beginCredentialRotation access workspaceId id startedAt =>
    match phase with
    | .allowed => concluded (executed access db (.ok ((), db.updateCredential workspaceId id
        (fun row => { row with state := .rotating }) fun _ => rfl)))
    | _ =>
      (db, decided (do
        access.connect
        db.allowRotation workspaceId id startedAt))
  | .completeCredentialRotation access workspaceId oldId replacement rotatedAt =>
    match checkReplacement workspaceId replacement with
    | .error fault => (db, .returned (.error fault))
    | .ok () => concluded (executed access db
        (db.completeRotation workspaceId oldId replacement rotatedAt))
  | .revokeCredential access workspaceId id revokedAt =>
    match phase with
    | .allowed => concluded (executed access db (.ok ((), db.updateCredential workspaceId id
        (fun row => if row.state = .revoked then row else IdentityDb.markRevoked revokedAt row)
        fun row => by split <;> rfl)))
    | _ =>
      (db, decided (do
        access.connect
        db.allowRevocation workspaceId id revokedAt))
  | .recoverCredential access workspaceId id recoveredAt =>
    match phase with
    | .recovering target => concluded (executed access db
        (.ok ((), db.updateCredential workspaceId id (fun row => { row with state := target })
          fun _ => rfl)))
    | _ =>
      (db, decided (do
        access.connect
        db.allowRecovery workspaceId id recoveredAt))
  | .reopen access => concluded (executed access db (.ok ((), db.reopened)))
  | .other change =>
    ({ change db with
        members := db.members
        serviceAccounts := db.serviceAccounts
        credentials := db.credentials }, .returned (.ok ()))

def identityMachine : Concurrent IdentityDb IdentityCall IdentityPhase where
  start _ := .opened
  step db call phase :=
    match phase with
    | .returned _ => none
    | phase => some (call.statement db phase)

inductive IdentityStep (db : IdentityDb) :
    IdentityCall → IdentityPhase → IdentityDb → IdentityPhase → Prop where
  | failed {call phase fault} : IdentityStep db call phase db (.returned (.error fault))
  | workspaceFound {call phase} : IdentityStep db call phase db .workspaceChecked
  | revocable {kind access workspaceId id revokedAt phase} :
    IdentityStep db (.revokePrincipal kind access workspaceId id revokedAt) phase db .allowed
  | ownerFound {access draft}
      (h : db.ensureOwnerInWorkspace draft.workspaceId draft.owner = .ok ()) :
    IdentityStep db (.registerCredentialReference access draft) .workspaceChecked db .ownerChecked
  | rotatable {access workspaceId id startedAt phase}
      (h : db.allowRotation workspaceId id startedAt = .ok .allowed) :
    IdentityStep db (.beginCredentialRotation access workspaceId id startedAt) phase db .allowed
  | withdrawable {access workspaceId id revokedAt phase} :
    IdentityStep db (.revokeCredential access workspaceId id revokedAt) phase db .allowed
  | recoverable {access workspaceId id recoveredAt phase target}
      (h : db.allowRecovery workspaceId id recoveredAt = .ok (.recovering target)) :
    IdentityStep db (.recoverCredential access workspaceId id recoveredAt) phase db
      (.recovering target)
  | created {kind access workspaceId id text createdAt db' result}
      (h : db.insertPrincipal kind ⟨id, workspaceId, text, .active, createdAt, none⟩ = .ok db') :
    IdentityStep db (.createPrincipal kind access workspaceId id text createdAt) .workspaceChecked
      db' (.returned result)
  | principalRevoked {kind access workspaceId id revokedAt result} :
    IdentityStep db (.revokePrincipal kind access workspaceId id revokedAt) .allowed
      (db.revokePrincipal kind workspaceId id revokedAt) (.returned result)
  | registered {access draft db' result} (h : db.insertCredential draft.row = .ok db') :
    IdentityStep db (.registerCredentialReference access draft) .ownerChecked db'
      (.returned result)
  | rotating {access workspaceId id startedAt result} :
    IdentityStep db (.beginCredentialRotation access workspaceId id startedAt) .allowed
      (db.updateCredential workspaceId id (fun row => { row with state := .rotating })
        fun _ => rfl) (.returned result)
  | completed {access workspaceId oldId replacement rotatedAt phase db' result}
      (h : db.completeRotation workspaceId oldId replacement rotatedAt = .ok ((), db')) :
    IdentityStep db (.completeCredentialRotation access workspaceId oldId replacement rotatedAt)
      phase db' (.returned result)
  | revoked {access workspaceId id revokedAt result} :
    IdentityStep db (.revokeCredential access workspaceId id revokedAt) .allowed
      (db.updateCredential workspaceId id
        (fun row => if row.state = .revoked then row else IdentityDb.markRevoked revokedAt row)
        fun row => by split <;> rfl) (.returned result)
  | recovered {access workspaceId id recoveredAt target result} :
    IdentityStep db (.recoverCredential access workspaceId id recoveredAt) (.recovering target)
      (db.updateCredential workspaceId id (fun row => { row with state := target }) fun _ => rfl)
      (.returned result)
  | reopened {access phase result} :
    IdentityStep db (.reopen access) phase db.reopened (.returned result)
  | changed {change phase} : IdentityStep db (.other change) phase
      { change db with
        members := db.members
        serviceAccounts := db.serviceAccounts
        credentials := db.credentials } (.returned (.ok ()))

section Step

variable {db : IdentityDb} {call : IdentityCall} {phase : IdentityPhase}

theorem identityStep_decided {check : Except StorageError IdentityPhase}
    (h : ∀ target, check = .ok target → IdentityStep db call phase db target) :
    IdentityStep db call phase db (decided check) := by
  cases check with
  | error fault => exact .failed
  | ok target => exact h target rfl

theorem identityStep_concluded {access : Access} {body : Except StorageError (Unit × IdentityDb)}
    (h : ∀ result db', body = .ok ((), db') → IdentityStep db call phase db' (.returned result)) :
    IdentityStep db call phase (concluded (executed access db body)).1
      (concluded (executed access db body)).2 := by
  cases executed_cases access db body with
  | inl hfault =>
    obtain ⟨fault, heq⟩ := hfault
    rw [heq]
    exact .failed
  | inr hok =>
    obtain ⟨result, _, db', hbody, heq⟩ := hok
    rw [heq]
    exact h result db' hbody

theorem identityStep_statement (call : IdentityCall) (phase : IdentityPhase) :
    IdentityStep db call phase (call.statement db phase).1 (call.statement db phase).2 := by
  cases call with
  | createPrincipal kind access workspaceId id text createdAt =>
    cases phase with
    | workspaceChecked =>
      apply identityStep_concluded
      intro result db' hbody
      obtain ⟨inserted, hinsert, hbody⟩ := of_bind hbody
      cases hbody
      exact .created hinsert
    | _ =>
      apply identityStep_decided
      intro target hcheck
      simp only [bind_eq_ok, exists_unit_iff] at hcheck
      obtain ⟨-, -, -, -, hcheck⟩ := hcheck
      cases hcheck
      exact .workspaceFound
  | revokePrincipal kind access workspaceId id revokedAt =>
    cases phase with
    | allowed =>
      apply identityStep_concluded
      intro result db' hbody
      cases hbody
      exact .principalRevoked
    | _ =>
      apply identityStep_decided
      intro target hcheck
      simp only [IdentityDb.allowPrincipalRevocation, bind_eq_ok, exists_unit_iff] at hcheck
      obtain ⟨-, _, -, -, hcheck⟩ := hcheck
      cases hcheck
      exact .revocable
  | registerCredentialReference access draft =>
    cases phase with
    | ownerChecked =>
      apply identityStep_concluded
      intro result db' hbody
      obtain ⟨inserted, hinsert, hbody⟩ := of_bind hbody
      cases hbody
      exact .registered hinsert
    | workspaceChecked =>
      apply identityStep_decided
      intro target hcheck
      simp only [bind_eq_ok, exists_unit_iff] at hcheck
      obtain ⟨howner, hcheck⟩ := hcheck
      cases hcheck
      exact .ownerFound howner
    | _ =>
      apply identityStep_decided
      intro target hcheck
      simp only [bind_eq_ok, exists_unit_iff] at hcheck
      obtain ⟨-, -, -, -, -, -, hcheck⟩ := hcheck
      cases hcheck
      exact .workspaceFound
  | beginCredentialRotation access workspaceId id startedAt =>
    cases phase with
    | allowed =>
      apply identityStep_concluded
      intro result db' hbody
      cases hbody
      exact .rotating
    | _ =>
      apply identityStep_decided
      intro target hcheck
      obtain ⟨_, -, hcheck⟩ := of_bind hcheck
      have hread := hcheck
      simp only [IdentityDb.allowRotation, bind_eq_ok, exists_unit_iff] at hcheck
      obtain ⟨_, -, -, -, hcheck⟩ := hcheck
      cases hcheck
      exact .rotatable hread
  | completeCredentialRotation access workspaceId oldId replacement rotatedAt =>
    dsimp only [IdentityCall.statement]
    cases checkReplacement workspaceId replacement with
    | error fault => exact .failed
    | ok => exact identityStep_concluded fun _ _ hbody => .completed hbody
  | revokeCredential access workspaceId id revokedAt =>
    cases phase with
    | allowed =>
      apply identityStep_concluded
      intro result db' hbody
      cases hbody
      exact .revoked
    | _ =>
      apply identityStep_decided
      intro target hcheck
      simp only [IdentityDb.allowRevocation, bind_eq_ok, exists_unit_iff] at hcheck
      obtain ⟨-, _, -, -, hcheck⟩ := hcheck
      cases hcheck
      exact .withdrawable
  | recoverCredential access workspaceId id recoveredAt =>
    cases phase with
    | recovering target =>
      apply identityStep_concluded
      intro result db' hbody
      cases hbody
      exact .recovered
    | _ =>
      apply identityStep_decided
      intro target hcheck
      obtain ⟨_, -, hcheck⟩ := of_bind hcheck
      have hread := hcheck
      simp only [IdentityDb.allowRecovery, bind_eq_ok, exists_unit_iff] at hcheck
      obtain ⟨_, -, -, hcheck⟩ := hcheck
      cases hcheck
      exact .recoverable hread
  | reopen access =>
    apply identityStep_concluded
    intro result db' hbody
    cases hbody
    exact .reopened
  | other change => exact .changed

theorem identityStep_of_step {phase' : IdentityPhase} {db' : IdentityDb}
    (h : identityMachine.step db call phase = some (db', phase')) :
    IdentityStep db call phase db' phase' := by
  have hstatement : call.statement db phase = (db', phase') := by
    cases phase with
    | returned => cases h
    | _ => exact Option.some.inj h
  have hgoal : IdentityStep db call phase (call.statement db phase).1
      (call.statement db phase).2 := identityStep_statement call phase
  rw [hstatement] at hgoal
  exact hgoal

end Step

end Stillflow.Identity
