import Stillflow.Lib.Concurrent
import Stillflow.Identity.Database

/-!
The authorization gate of the service: a cache of capabilities in front of the identity tables.
-/

namespace Stillflow.Identity

open Stillflow.Core Stillflow.Storage Lib.Fallible Lib

inductive Capability where
  | workspaceRead
  | workspaceWrite
  | workspaceAdmin
  | identityManage
  | connectorRead
  | connectorWrite
  | connectorTest
  | datasetRead
  | datasetWrite
  | planRead
  | planWrite
  | jobRead
  | jobWrite
  | runRead
  | eventRead
  | artifactRead
  | artifactDownload
  | exportWrite
  | automationRead
  | automationCreate
  | automationUpdate
  | automationPause
  | automationResume
  | automationDelete
  | automationTrigger
  | credentialManage
  | auditRead
  | auditExport
deriving DecidableEq, Repr

def Capability.asStr : Capability → String
  | .workspaceRead => "workspace:read"
  | .workspaceWrite => "workspace:write"
  | .workspaceAdmin => "workspace:admin"
  | .identityManage => "identity:manage"
  | .connectorRead => "connector:read"
  | .connectorWrite => "connector:write"
  | .connectorTest => "connector:test"
  | .datasetRead => "dataset:read"
  | .datasetWrite => "dataset:write"
  | .planRead => "plan:read"
  | .planWrite => "plan:write"
  | .jobRead => "job:read"
  | .jobWrite => "job:write"
  | .runRead => "run:read"
  | .eventRead => "event:read"
  | .artifactRead => "artifact:read"
  | .artifactDownload => "artifact:download"
  | .exportWrite => "export:write"
  | .automationRead => "automation:read"
  | .automationCreate => "automation:create"
  | .automationUpdate => "automation:update"
  | .automationPause => "automation:pause"
  | .automationResume => "automation:resume"
  | .automationDelete => "automation:delete"
  | .automationTrigger => "automation:trigger"
  | .credentialManage => "credential:manage"
  | .auditRead => "audit:read"
  | .auditExport => "audit:export"

inductive IdentityOperation where
  | createPrincipal (kind : PrincipalKind) (id : Uuid) (text : String) (createdAt : Int)
  | revokePrincipal (kind : PrincipalKind) (id : Uuid) (revokedAt : Int)
  | createRole (id : Uuid) (name : String) (createdAt : Int)
  | setRoleCapabilities (id : Uuid) (capabilities : List Capability)
  | assignRole (memberId roleId : Uuid)
  | createWorkspace
  | archiveWorkspace
deriving DecidableEq

namespace IdentityDb

/-- `ensure_role_in_workspace`. -/
def role (db : IdentityDb) (workspaceId id : Uuid) : Except StorageError Role :=
  okOr ((db.roles.find? id).filter (·.workspaceId = workspaceId)) .identityNotFound

def createRole (db : IdentityDb) (row : Role) : Except StorageError IdentityDb := do
  -- `UNIQUE (workspace_id, name)`
  require (db.roles.rows.all (fun other =>
      other.workspaceId ≠ row.workspaceId ∨ other.name ≠ row.name) = true) .identityAlreadyExists
  let roles ← okOr (db.roles.insert? row) .identityAlreadyExists
  return { db with roles := roles }

def setRoleCapabilities (db : IdentityDb) (workspaceId id : Uuid)
    (capabilities : List Capability) : Except StorageError IdentityDb := do
  discard (db.role workspaceId id)
  return { db with
    roles := db.roles.modify id
      (fun row => { row with capabilities := capabilities.map Capability.asStr }) fun _ => rfl }

def assignRole (db : IdentityDb) (workspaceId memberId roleId : Uuid) :
    Except StorageError IdentityDb := do
  discard (db.principal .member workspaceId memberId)
  discard (db.role workspaceId roleId)
  let memberRoles ← okOr (db.memberRoles.insert? ⟨workspaceId, memberId, roleId⟩)
    .identityAlreadyExists
  return { db with memberRoles := memberRoles }

def createWorkspace (db : IdentityDb) (workspaceId : Uuid) : Except StorageError IdentityDb := do
  require (workspaceId ∉ db.activeWorkspaces ∧ workspaceId ∉ db.archivedWorkspaces)
    (.alreadyExists workspaceId)
  return { db with activeWorkspaces := workspaceId :: db.activeWorkspaces }

def archiveWorkspace (db : IdentityDb) (workspaceId : Uuid) : Except StorageError IdentityDb := do
  require (workspaceId ∈ db.activeWorkspaces) (.notFound workspaceId)
  return { db with
    activeWorkspaces := db.activeWorkspaces.filter (· ≠ workspaceId)
    archivedWorkspaces := workspaceId :: db.archivedWorkspaces }

def memberRoleIds (db : IdentityDb) (workspaceId memberId : Uuid) : List Uuid :=
  ((db.memberRoles.rows.filter fun row =>
    row.workspaceId = workspaceId ∧ row.memberId = memberId).map (·.roleId)).insertionSort (· ≤ ·)

end IdentityDb

namespace IdentityOperation

/-- What an operation checks before its write. -/
def check (workspaceId : Uuid) (db : IdentityDb) : IdentityOperation → Except StorageError Unit
  | .createPrincipal kind id text _ => do
    validateId id (match kind with
      | .member => "member"
      | .serviceAccount => "service account")
    validateText text (match kind with
      | .member => "member subject"
      | .serviceAccount => "service account name")
    db.ensureActiveWorkspace workspaceId
  | .revokePrincipal kind id revokedAt => do
    let current ← db.principal kind workspaceId id
    require (current.createdAt ≤ revokedAt) (.invalidTimestampOrder (match kind with
      | .member => "member revocation"
      | .serviceAccount => "service account revocation"))
  | .createRole id name _ => do
    validateId id "role"
    validateText name "role name"
    db.ensureActiveWorkspace workspaceId
  | .setRoleCapabilities _ capabilities =>
    require capabilities.Nodup (.invalidDraft "duplicate capability")
  | .createWorkspace => validateId workspaceId "workspace"
  | .assignRole .. | .archiveWorkspace => .ok ()

def write (workspaceId : Uuid) (db : IdentityDb) :
    IdentityOperation → Except StorageError IdentityDb
  | .createPrincipal kind id text createdAt =>
    db.insertPrincipal kind ⟨id, workspaceId, text, .active, createdAt, none⟩
  | .revokePrincipal kind id revokedAt => .ok (db.revokePrincipal kind workspaceId id revokedAt)
  | .createRole id name createdAt => db.createRole ⟨id, workspaceId, name, [], createdAt⟩
  | .setRoleCapabilities id capabilities => db.setRoleCapabilities workspaceId id capabilities
  | .assignRole memberId roleId => db.assignRole workspaceId memberId roleId
  | .createWorkspace => db.createWorkspace workspaceId
  | .archiveWorkspace => db.archiveWorkspace workspaceId

/-- The operations that call `invalidate_workspace`. -/
def clears : IdentityOperation → Bool
  | .createWorkspace | .archiveWorkspace => false
  | _ => true

end IdentityOperation

inductive AuthorizationMode where
  | localTrusted
  | server
deriving DecidableEq, Repr

structure PrincipalKey where
  workspaceId : Uuid
  kind : PrincipalKind
  id : Uuid
deriving DecidableEq

structure CachedPrincipal where
  capabilities : List String
  /-- Ghost: the durable state that the load read first. -/
  since : Nat

/-- The service. The fields `past` and `settled` are ghosts: no statement depends on them. -/
structure Gate where
  db : IdentityDb
  cache : PrincipalKey → Option CachedPrincipal
  /-- The durable states before this one, oldest first. -/
  past : List IdentityDb
  /-- The durable state that the last operation of a Workspace to clear the cache has written. -/
  settled : Uuid → Nat

namespace Gate

def new (db : IdentityDb) : Gate := ⟨db, fun _ => none, [], fun _ => 0⟩

def version (gate : Gate) : Nat := gate.past.length

def stateAt (gate : Gate) (n : Nat) : Option IdentityDb := (gate.past ++ [gate.db])[n]?

def commit (gate : Gate) (db : IdentityDb) : Gate :=
  { gate with db := db, past := gate.past ++ [gate.db] }

def fill (gate : Gate) (key : PrincipalKey) (entry : CachedPrincipal) : Gate :=
  { gate with cache := Function.update gate.cache key (some entry) }

/-- `invalidate_workspace`, by an operation that has written the given state. -/
def invalidate (gate : Gate) (workspaceId : Uuid) (version : Nat) : Gate :=
  { gate with
    cache := fun key => if key.workspaceId = workspaceId then none else gate.cache key
    settled := Function.update gate.settled workspaceId
      (max (gate.settled workspaceId) version) }

end Gate

/-- The reads of one `authorize`; each happens at most once. -/
inductive ServiceRead where
  | workspace
  | principal
  | roleIds
  | role (id : Uuid)
deriving DecidableEq

inductive ServiceCall where
  | authorize (failing : List ServiceRead) (workspaceId : Uuid)
      (principal : Option (PrincipalKind × Uuid)) (capability : Capability)
  | identity (access : Access) (workspaceId : Uuid) (operation : IdentityOperation)
deriving DecidableEq

/-- `seen` is the state in which the call read the Workspace, `start` what the cache of the
Workspace had settled then and `since` the state in which it read the principal: ghosts. -/
inductive ServicePhase where
  | opened
  | workspaceActive (seen start : Nat)
  | missed (seen start : Nat)
  | memberActive (seen start since : Nat)
  | loading (seen start since : Nat) (remaining : List Uuid) (capabilities : List String)
  | decided (seen start : Nat) (granted : Bool)
  | checked
  | committed (version : Nat)
  | returned (version : Option Nat)
deriving DecidableEq

def allows (capabilities : List String) (capability : Capability) : Bool :=
  capabilities.contains capability.asStr || capabilities.contains Capability.workspaceAdmin.asStr

/-- One statement of `authorize` for a principal; each failure is `unauthorized`. -/
def authorizeStep (gate : Gate) (failing : List ServiceRead) (key : PrincipalKey)
    (capability : Capability) : ServicePhase → Gate × ServicePhase
  | .workspaceActive seen start =>
    match gate.cache key with
    | some entry => (gate, .decided seen start (allows entry.capabilities capability))
    | none => (gate, .missed seen start)
  | .missed seen start =>
    match gate.db.principal key.kind key.workspaceId key.id with
    | .error _ => (gate, .decided seen start false)
    | .ok row =>
      if ServiceRead.principal ∈ failing ∨ row.state ≠ .active then (gate, .decided seen start false)
      else match key.kind with
        | .member => (gate, .memberActive seen start gate.version)
        -- No role can be assigned to a service account.
        | .serviceAccount => (gate, .loading seen start gate.version [] [])
  | .memberActive seen start since =>
    if ServiceRead.roleIds ∈ failing then (gate, .decided seen start false)
    else match gate.db.principal .member key.workspaceId key.id with
      | .error _ => (gate, .decided seen start false)
      | .ok _ => (gate, .loading seen start since (gate.db.memberRoleIds key.workspaceId key.id) [])
  | .loading seen start since (roleId :: rest) capabilities =>
    match gate.db.role key.workspaceId roleId with
    | .error _ => (gate, .decided seen start false)
    | .ok role =>
      if ServiceRead.role roleId ∈ failing then (gate, .decided seen start false)
      else (gate, .loading seen start since rest (capabilities ++ role.capabilities))
  | .loading seen start since [] capabilities =>
    (gate.fill key ⟨capabilities, since⟩, .decided seen start (allows capabilities capability))
  | _ =>
    if ServiceRead.workspace ∉ failing ∧ key.workspaceId ∈ gate.db.activeWorkspaces then
      (gate, .workspaceActive gate.version (gate.settled key.workspaceId))
    else (gate, .decided gate.version (gate.settled key.workspaceId) false)

def operationStep (gate : Gate) (access : Access) (workspaceId : Uuid)
    (operation : IdentityOperation) : ServicePhase → Gate × ServicePhase
  | .checked =>
    match access.commit, operation.write workspaceId gate.db with
    | some _, _ => (gate, .returned none)
    | none, .error _ => (gate, .returned none)
    | none, .ok db =>
      -- A row that cannot be read back ends the call before it clears the cache.
      if access.readBack.isSome = true ∨ operation.clears = false then
        (gate.commit db, .returned (some (gate.version + 1)))
      else (gate.commit db, .committed (gate.version + 1))
  | .committed version => (gate.invalidate workspaceId version, .returned (some version))
  | _ =>
    match access.connect, operation.check workspaceId gate.db with
    | .ok (), .ok () => (gate, .checked)
    | _, _ => (gate, .returned none)

def serviceMachine (mode : AuthorizationMode) : Concurrent Gate ServiceCall ServicePhase where
  start _ := .opened
  step gate call phase :=
    match phase, call with
    | .decided .., _ => none
    | .returned _, _ => none
    | phase, .authorize failing workspaceId (some (kind, id)) capability =>
      some (authorizeStep gate failing ⟨workspaceId, kind, id⟩ capability phase)
    | _, .authorize _ workspaceId none _ =>
      some (gate, .decided gate.version (gate.settled workspaceId) (mode = .localTrusted))
    | phase, .identity access workspaceId operation =>
      some (operationStep gate access workspaceId operation phase)

end Stillflow.Identity
