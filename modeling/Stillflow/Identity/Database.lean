import Stillflow.Lib.Table
import Stillflow.Storage.Store

/-! The identity tables of the metadata store. -/

namespace Stillflow.Identity

open Stillflow.Core Stillflow.Storage Lib.Fallible Lib

inductive IdentityState where
  | active
  | revoked
deriving DecidableEq, Repr

inductive PrincipalKind where
  | member
  | serviceAccount
deriving DecidableEq, Repr

inductive CredentialState where
  | pending
  | active
  | rotating
  | revoked
  | expired
  | recoveryRequired
deriving DecidableEq, Repr

/-- A row of `sec_members` or `sec_service_accounts`; `text` is the subject or the name. -/
structure Principal where
  id : Uuid
  workspaceId : Uuid
  text : String
  state : IdentityState
  createdAt : Int
  revokedAt : Option Int
deriving DecidableEq

structure CredentialOwner where
  kind : PrincipalKind
  id : Uuid
deriving DecidableEq

structure Credential where
  id : Uuid
  workspaceId : Uuid
  owner : CredentialOwner
  providerKind : String
  credentialRef : String
  state : CredentialState
  createdAt : Int
  expiresAt : Option Int
  revokedAt : Option Int
deriving DecidableEq

/-- A row of `sec_roles` with its rows of `sec_role_capabilities`. -/
structure Role where
  id : Uuid
  workspaceId : Uuid
  name : String
  capabilities : List String
  createdAt : Int
deriving DecidableEq

structure MemberRole where
  workspaceId : Uuid
  memberId : Uuid
  roleId : Uuid
deriving DecidableEq

instance : HasKey Principal Uuid := ⟨Principal.id⟩
instance : HasKey Credential Uuid := ⟨Credential.id⟩
instance : HasKey Role Uuid := ⟨Role.id⟩
instance : HasKey MemberRole (Uuid × Uuid) := ⟨fun row => (row.memberId, row.roleId)⟩

structure IdentityDb where
  /-- The rows of `cp_workspaces` in state `active`. -/
  activeWorkspaces : List Uuid
  archivedWorkspaces : List Uuid
  members : Table Principal
  serviceAccounts : Table Principal
  roles : Table Role
  memberRoles : Table MemberRole
  credentials : Table Credential

namespace IdentityDb

def new : IdentityDb where
  activeWorkspaces := []
  archivedWorkspaces := []
  members := .empty
  serviceAccounts := .empty
  roles := .empty
  memberRoles := .empty
  credentials := .empty

def principals (db : IdentityDb) : PrincipalKind → Table Principal
  | .member => db.members
  | .serviceAccount => db.serviceAccounts

def setPrincipals (db : IdentityDb) : PrincipalKind → Table Principal → IdentityDb
  | .member, table => { db with members := table }
  | .serviceAccount, table => { db with serviceAccounts := table }

@[simp] theorem principals_setPrincipals_self (db : IdentityDb) (kind : PrincipalKind)
    (table : Table Principal) : (db.setPrincipals kind table).principals kind = table := by
  cases kind <;> rfl

theorem principals_setPrincipals_ne (db : IdentityDb) {kind other : PrincipalKind}
    (h : other ≠ kind) (table : Table Principal) :
    (db.setPrincipals kind table).principals other = db.principals other := by
  cases kind <;> cases other <;> first | rfl | exact absurd rfl h

@[simp] theorem credentials_setPrincipals (db : IdentityDb) (kind : PrincipalKind)
    (table : Table Principal) : (db.setPrincipals kind table).credentials = db.credentials := by
  cases kind <;> rfl

end IdentityDb

def maxIdentityText : Nat := 256

/-- `char::is_control`: the general category `Cc`. -/
def isControl (c : Char) : Bool := c.toNat < 0x20 || (0x7f ≤ c.toNat && c.toNat < 0xa0)

def validateId (id : Uuid) (label : String) : Except StorageError Unit :=
  require (id ≠ 0) (.identity label)

def validateText (value label : String) : Except StorageError Unit := do
  require (value ≠ "" ∧ byteLen value ≤ maxIdentityText ∧ value.toList.any isControl = false)
    (.identity label)
  require (["password=", "token=", "private_key="].any (fun marker =>
      containsText (toAsciiLowercase value) marker.toList) = false)
    (.identity "plaintext secret in identity text")

/-- `provider_kind`: the part of `cred://kind/key` before the first `/`. -/
def providerKind (credentialRef : String) : Option String := do
  let rest ← if "cred://".toList.isPrefixOf credentialRef.toList then
    some (credentialRef.toList.drop 7) else none
  let kind := rest.takeWhile (· ≠ '/')
  let key := (rest.dropWhile (· ≠ '/')).drop 1
  if '/' ∈ rest ∧ kind ≠ [] ∧ key ≠ [] ∧
      kind.all (fun c => c.isAlphanum || c == '-') = true then
    some (String.ofList kind) else none

def validateProviderReference (kind credentialRef : String) : Except StorageError Unit := do
  let referenceKind ← okOr (providerKind credentialRef) (.identity "invalid credential reference")
  require (referenceKind = kind) (.identity "credential provider/reference mismatch")
  validateText kind "credential provider kind"

def validateExpiry (createdAt : Int) (expiresAt : Option Int) : Except StorageError Unit :=
  require (∀ expiry ∈ expiresAt, createdAt < expiry) (.invalidTimestampOrder "credential expiry")

namespace IdentityDb

def ensureActiveWorkspace (db : IdentityDb) (workspaceId : Uuid) : Except StorageError Unit :=
  require (workspaceId ∈ db.activeWorkspaces) .identityNotFound

/-- `raw_member_in_connection` and `raw_service_account_in_connection`. -/
def principal (db : IdentityDb) (kind : PrincipalKind) (workspaceId id : Uuid) :
    Except StorageError Principal :=
  okOr (((db.principals kind).find? id).filter (·.workspaceId = workspaceId)) .identityNotFound

def ensureOwnerInWorkspace (db : IdentityDb) (workspaceId : Uuid) (owner : CredentialOwner) :
    Except StorageError Unit := do
  discard (db.principal owner.kind workspaceId owner.id)

/-- `raw_credential_in_connection`. -/
def credential (db : IdentityDb) (workspaceId id : Uuid) : Except StorageError Credential :=
  okOr ((db.credentials.find? id).filter (·.workspaceId = workspaceId)) .identityNotFound

def updateCredential (db : IdentityDb) (workspaceId id : Uuid) (f : Credential → Credential)
    (h : ∀ row, (f row).id = row.id) : IdentityDb :=
  { db with
    credentials := db.credentials.modify id
      (fun row => if row.workspaceId = workspaceId then f row else row) fun row => by
        split
        · exact h row
        · rfl }

def insertCredential (db : IdentityDb) (row : Credential) : Except StorageError IdentityDb := do
  -- `UNIQUE (workspace_id, credential_ref)`
  require (db.credentials.rows.all (fun other =>
      other.workspaceId ≠ row.workspaceId ∨ other.credentialRef ≠ row.credentialRef) = true)
    .identityAlreadyExists
  let credentials ← okOr (db.credentials.insert? row) .identityAlreadyExists
  return { db with credentials := credentials }

def insertPrincipal (db : IdentityDb) (kind : PrincipalKind) (row : Principal) :
    Except StorageError IdentityDb := do
  -- `UNIQUE (workspace_id, subject_ref)`, `UNIQUE (workspace_id, name)`
  require ((db.principals kind).rows.all (fun other =>
      other.workspaceId ≠ row.workspaceId ∨ other.text ≠ row.text) = true) .identityAlreadyExists
  let table ← okOr ((db.principals kind).insert? row) .identityAlreadyExists
  return db.setPrincipals kind table

def revokePrincipal (db : IdentityDb) (kind : PrincipalKind) (workspaceId id : Uuid)
    (revokedAt : Int) : IdentityDb :=
  db.setPrincipals kind ((db.principals kind).modify id
    (fun row => if row.workspaceId = workspaceId then
      { row with state := .revoked, revokedAt := some revokedAt } else row) fun row => by
        split <;> rfl)

end IdentityDb

end Stillflow.Identity
