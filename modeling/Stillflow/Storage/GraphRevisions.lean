import Stillflow.Storage.Store

/-! The graph revision store. -/

namespace Stillflow.Storage

open Stillflow.Core Lib.Fallible

structure GraphRevisionRecord where
  id : Uuid
  workspaceId : Uuid
  graphId : Uuid
  revisionNumber : Nat
  parentRevisionId : Option Uuid
  formatVersion : UInt16
  graphJson : String
  graphDigest : String
  sourceBinding : Option Value
  packageDigests : Option Value
  compilerVersion : Option String
  planVersionId : Option Uuid
  migration : Option Value
  createdAt : Instant
  createdBy : String

/-- The revision the caller based its edit on, optionally with the digest it saw. -/
structure ExpectedRevision where
  number : Nat
  digest : Option String

structure RevisionDraft where
  formatVersion : UInt16
  graphJson : String
  graphDigest : String
  sourceBinding : Option Value
  packageDigests : Option Value
  compilerVersion : Option String
  createdBy : String

inductive GraphRevisionSave where
  | saved (record : GraphRevisionRecord)
  | current (record : GraphRevisionRecord)

structure RevisionStore where
  workspaces : List Uuid
  revisions : List GraphRevisionRecord

def GraphRevisionRecord.InGraph (record : GraphRevisionRecord) (workspaceId graphId : Uuid) : Prop :=
  record.workspaceId = workspaceId ∧ record.graphId = graphId

instance (record : GraphRevisionRecord) (workspaceId graphId : Uuid) :
    Decidable (record.InGraph workspaceId graphId) := by
  unfold GraphRevisionRecord.InGraph
  infer_instance

namespace RevisionStore

def revisionsOf (store : RevisionStore) (workspaceId graphId : Uuid) : List GraphRevisionRecord :=
  store.revisions.filter fun record => record.InGraph workspaceId graphId

/-- `fetch_full`: the row with the greatest revision number among the selected ones. -/
def fetchFull (store : RevisionStore) (workspaceId graphId : Uuid) (revisionNumber : Option Nat) :
    Option GraphRevisionRecord :=
  ((store.revisionsOf workspaceId graphId).filter fun record =>
    revisionNumber.all (record.revisionNumber = ·)).argmax (·.revisionNumber)

def currentRevision (store : RevisionStore) (workspaceId graphId : Uuid) :
    Option GraphRevisionRecord :=
  store.fetchFull workspaceId graphId none

def get (store : RevisionStore) (access : Access) (workspaceId graphId : Uuid)
    (revisionNumber : Option Nat) : Except StorageError (Option GraphRevisionRecord) :=
  match access.readBack with
  | some fault => .error fault
  | none =>
    if revisionNumber.all (· ≤ i64Max) then .ok (store.fetchFull workspaceId graphId revisionNumber)
    else .error (.arithmeticOverflow "revision number")

/-- The table constraints on a new row. -/
def Allows (store : RevisionStore) (record : GraphRevisionRecord) : Prop :=
  record.id ∉ store.revisions.map (·.id) ∧ record.workspaceId ∈ store.workspaces ∧
    0 < record.revisionNumber ∧
    record.parentRevisionId.all (· ∈ store.revisions.map (·.id)) = true ∧
    0 < record.formatVersion ∧ record.graphDigest.length = 64 ∧
    record.revisionNumber ∉
      (store.revisionsOf record.workspaceId record.graphId).map (·.revisionNumber)

instance (store : RevisionStore) (record : GraphRevisionRecord) :
    Decidable (store.Allows record) := by
  unfold Allows
  infer_instance

/-- The `INSERT`; a violated constraint is reported as `AlreadyExists` of the new id. -/
def insert (store : RevisionStore) (record : GraphRevisionRecord) :
    Except StorageError RevisionStore := do
  require (record.revisionNumber ≤ i64Max) (.arithmeticOverflow "revision number")
  require (store.Allows record) (.alreadyExists record.id)
  return { store with revisions := store.revisions ++ [record] }

end RevisionStore

def conflict (current : GraphRevisionRecord) : StorageError := .alreadyExists current.graphId

/-- The content of the draft is that of the current revision. -/
def GraphRevisionRecord.SameContent (current : GraphRevisionRecord) (draft : RevisionDraft) :
    Prop :=
  current.graphDigest = draft.graphDigest ∧ current.formatVersion = draft.formatVersion

instance (current : GraphRevisionRecord) (draft : RevisionDraft) :
    Decidable (current.SameContent draft) := by
  unfold GraphRevisionRecord.SameContent
  infer_instance

def checkExpected (graphId : Uuid) (current : Option GraphRevisionRecord)
    (expected : ExpectedRevision) : Except StorageError Unit :=
  match current with
  | some current =>
    if current.revisionNumber = expected.number then
      require (expected.digest.all (current.graphDigest = ·) = true) (conflict current)
    else .error (conflict current)
  | none => .error (.alreadyExists graphId)

def nextNumber (current : Option GraphRevisionRecord) : Nat :=
  (current.map (·.revisionNumber + 1)).getD 1

/-- The row `save` inserts after the current revision. -/
def RevisionDraft.record (draft : RevisionDraft) (workspaceId graphId : Uuid)
    (current : Option GraphRevisionRecord) (revisionId : Uuid) (now : Instant) :
    GraphRevisionRecord where
  id := revisionId
  workspaceId := workspaceId
  graphId := graphId
  revisionNumber := nextNumber current
  parentRevisionId := current.map (·.id)
  formatVersion := draft.formatVersion
  graphJson := draft.graphJson
  graphDigest := draft.graphDigest
  sourceBinding := draft.sourceBinding
  packageDigests := draft.packageDigests
  compilerVersion := draft.compilerVersion
  planVersionId := none
  migration := none
  createdAt := now
  createdBy := draft.createdBy

namespace RevisionStore

/-- The transaction of `save`: the unchanged current revision, or the number that was appended. -/
def saveBody (store : RevisionStore) (workspaceId graphId : Uuid)
    (expected : Option ExpectedRevision) (draft : RevisionDraft) (revisionId : Uuid)
    (now : Instant) : Except StorageError ((GraphRevisionRecord ⊕ Nat) × RevisionStore) :=
  match store.currentRevision workspaceId graphId with
  | some current =>
    if current.SameContent draft then .ok (.inl current, store)
    else do
      expected.forM (checkExpected graphId (some current))
      let record := draft.record workspaceId graphId (some current) revisionId now
      return (.inr record.revisionNumber, ← store.insert record)
  | none => do
    expected.forM (checkExpected graphId none)
    let record := draft.record workspaceId graphId none revisionId now
    return (.inr record.revisionNumber, ← store.insert record)

def save (store : RevisionStore) (access : Access) (workspaceId graphId : Uuid)
    (expected : Option ExpectedRevision) (draft : RevisionDraft) (revisionId : Uuid)
    (now : Instant) : Except StorageError GraphRevisionSave × RevisionStore :=
  match transact access store
      (store.saveBody workspaceId graphId expected draft revisionId now) with
  | (.error fault, store) => (.error fault, store)
  | (.ok (.inl current), store) => (.ok (.current current), store)
  | (.ok (.inr number), store) => (do
    let record ← store.get access workspaceId graphId (some number)
    let record ← okOr record (.database "read back graph revision")
    return .saved record, store)

/-- The transaction of `link_plan_version`. -/
def linkBody (store : RevisionStore) (workspaceId graphId planVersionId : Uuid) :
    Except StorageError (Nat × RevisionStore) := do
  let current ← okOr (store.currentRevision workspaceId graphId) .identityNotFound
  require (current.revisionNumber ≤ i64Max) (.arithmeticOverflow "revision number")
  return (current.revisionNumber, { store with
    revisions := store.revisions.map fun record =>
      if record.InGraph workspaceId graphId ∧ record.revisionNumber = current.revisionNumber then
        { record with planVersionId := some planVersionId }
      else record })

def linkPlanVersion (store : RevisionStore) (access : Access)
    (workspaceId graphId planVersionId : Uuid) :
    Except StorageError GraphRevisionRecord × RevisionStore :=
  match transact access store (store.linkBody workspaceId graphId planVersionId) with
  | (.error fault, store) => (.error fault, store)
  | (.ok number, store) => (do
    let record ← store.get access workspaceId graphId (some number)
    okOr record (.database "read back linked revision"), store)

/-- The transaction of `append_migrated`: the parent must still be the current revision. -/
def migrateBody (store : RevisionStore) (parent : GraphRevisionRecord) (toFormatVersion : UInt16)
    (migratedGraphJson migratedDigest : String) (migration : Value) (revisionId : Uuid)
    (now : Instant) : Except StorageError (Nat × RevisionStore) := do
  let current := store.currentRevision parent.workspaceId parent.graphId
  require (current.map (·.id) = some parent.id) (.alreadyExists parent.graphId)
  let record : GraphRevisionRecord :=
    { id := revisionId
      workspaceId := parent.workspaceId
      graphId := parent.graphId
      revisionNumber := nextNumber current
      parentRevisionId := some parent.id
      formatVersion := toFormatVersion
      graphJson := migratedGraphJson
      graphDigest := migratedDigest
      sourceBinding := parent.sourceBinding
      packageDigests := parent.packageDigests
      compilerVersion := parent.compilerVersion
      planVersionId := none
      migration := some migration
      createdAt := now
      createdBy := parent.createdBy }
  return (record.revisionNumber, ← store.insert record)

def appendMigrated (store : RevisionStore) (access : Access) (parent : GraphRevisionRecord)
    (toFormatVersion : UInt16) (migratedGraphJson migratedDigest : String) (migration : Value)
    (revisionId : Uuid) (now : Instant) :
    Except StorageError GraphRevisionRecord × RevisionStore :=
  match transact access store (store.migrateBody parent toFormatVersion migratedGraphJson
      migratedDigest migration revisionId now) with
  | (.error fault, store) => (.error fault, store)
  | (.ok number, store) => (do
    let record ← store.get access parent.workspaceId parent.graphId (some number)
    okOr record (.database "read back migrated revision"), store)

end RevisionStore

/-- A call to the store; the new id and the time are drawn by the store. -/
inductive RevisionCall where
  | save (access : Access) (workspaceId graphId : Uuid) (expected : Option ExpectedRevision)
      (draft : RevisionDraft) (revisionId : Uuid) (now : Instant)
  | linkPlanVersion (access : Access) (workspaceId graphId planVersionId : Uuid)
  | appendMigrated (access : Access) (parent : GraphRevisionRecord) (toFormatVersion : UInt16)
      (migratedGraphJson migratedDigest : String) (migration : Value) (revisionId : Uuid)
      (now : Instant)

inductive RevisionAnswer where
  | save (result : Except StorageError GraphRevisionSave)
  | record (result : Except StorageError GraphRevisionRecord)

/-- The store serving the calls of any number of editors. -/
def revisionMachine : Lib.Machine RevisionStore RevisionCall RevisionAnswer where
  step store call := match call with
    | .save access workspaceId graphId expected draft revisionId now =>
      (store.save access workspaceId graphId expected draft revisionId now).map .save id
    | .linkPlanVersion access workspaceId graphId planVersionId =>
      (store.linkPlanVersion access workspaceId graphId planVersionId).map .record id
    | .appendMigrated access parent toFormatVersion migratedGraphJson migratedDigest migration
        revisionId now =>
      (store.appendMigrated access parent toFormatVersion migratedGraphJson migratedDigest
        migration revisionId now).map .record id

end Stillflow.Storage
