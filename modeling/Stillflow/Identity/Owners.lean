import Stillflow.Identity.Statements

/-!
Principals and the owners of credentials: a principal is never deleted and stays revoked, and a
credential has an owner in its Workspace, whose state is not looked at.
-/

namespace Stillflow.Identity

open Stillflow.Core Stillflow.Storage Lib.Fallible Lib Option IdentityDb

variable {id workspaceId : Uuid} {kind : PrincipalKind} {row : Credential}

namespace IdentityDb

variable {db db' : IdentityDb} {f : Credential → Credential}

theorem find?_updateCredential {h : ∀ row, (f row).id = row.id} {k : Uuid}
    (hrow : db.credentials.find? k = some row) :
    ∃ row', (db.updateCredential workspaceId id f h).credentials.find? k = some row' ∧
      (row' = row ∨ k = id ∧ row' = f row) := by
  unfold updateCredential
  rw [Table.find?_modify, hrow, map_some]
  split_ifs with hk hworkspace
  · exact ⟨_, rfl, .inr ⟨hk, rfl⟩⟩
  · exact ⟨_, rfl, .inl rfl⟩
  · exact ⟨_, rfl, .inl rfl⟩

theorem find?_of_updateCredential {h : ∀ row, (f row).id = row.id} {k : Uuid} {row' : Credential}
    (hrow : (db.updateCredential workspaceId id f h).credentials.find? k = some row') :
    ∃ row, db.credentials.find? k = some row ∧ (row' = row ∨ k = id ∧ row' = f row) := by
  cases hfind : db.credentials.find? k with
  | none =>
    unfold updateCredential at hrow
    rw [Table.find?_modify, hfind, map_none, ite_self] at hrow
    cases hrow
  | some row =>
    obtain ⟨found, hfound, hcases⟩ := find?_updateCredential (h := h) hfind
    rw [hrow] at hfound
    cases hfound
    exact ⟨row, rfl, hcases⟩

theorem insertCredential_eq (h : db.insertCredential row = .ok db') :
    db.credentials.insert? row = some db'.credentials ∧ db'.principals = db.principals := by
  simp only [insertCredential, bind_eq_ok, exists_unit_iff, okOr_eq_ok] at h
  obtain ⟨-, credentials, hinsert, h⟩ := h
  cases h
  exact ⟨hinsert, rfl⟩

theorem credential_eq_ok :
    db.credential workspaceId id = .ok row ↔
      db.credentials.find? id = some row ∧ row.workspaceId = workspaceId := by
  unfold credential
  rw [okOr_eq_ok, filter_eq_some_iff, decide_eq_true_eq]

theorem principal_eq_ok {row : Principal} :
    db.principal kind workspaceId id = .ok row ↔
      (db.principals kind).find? id = some row ∧ row.workspaceId = workspaceId := by
  unfold principal
  rw [okOr_eq_ok, filter_eq_some_iff, decide_eq_true_eq]

/-- Principals stay in their Workspace, and revoked ones stay revoked. -/
def PrincipalsKept (db db' : IdentityDb) : Prop :=
  ∀ kind id row, (db.principals kind).find? id = some row →
    ∃ row', (db'.principals kind).find? id = some row' ∧ row'.workspaceId = row.workspaceId ∧
      (row.state = .revoked → row'.state = .revoked)

theorem PrincipalsKept.of_eq (h : db'.principals = db.principals) : PrincipalsKept db db' := by
  intro kind id row hrow
  exact ⟨row, by rw [h, hrow], rfl, fun hrevoked => hrevoked⟩

theorem PrincipalsKept.setPrincipals {table : Table Principal}
    (h : ∀ id row, (db.principals kind).find? id = some row → ∃ row', table.find? id = some row' ∧
      row'.workspaceId = row.workspaceId ∧ (row.state = .revoked → row'.state = .revoked)) :
    PrincipalsKept db (db.setPrincipals kind table) := by
  intro other id row hrow
  by_cases hkind : other = kind
  · subst hkind
    rw [principals_setPrincipals_self]
    exact h id row hrow
  · rw [principals_setPrincipals_ne db hkind]
    exact ⟨row, hrow, rfl, fun hrevoked => hrevoked⟩

theorem principalsKept_insertPrincipal {row : Principal} (h : db.insertPrincipal kind row = .ok db') :
    PrincipalsKept db db' := by
  simp only [insertPrincipal, bind_eq_ok, exists_unit_iff, okOr_eq_ok] at h
  obtain ⟨-, table, hinsert, h⟩ := h
  cases h
  apply PrincipalsKept.setPrincipals
  intro id found hfound
  refine ⟨found, ?_, rfl, fun hrevoked => hrevoked⟩
  rw [Table.find?_insert? hinsert, if_neg, hfound]
  rintro rfl
  rw [(Table.insert?_eq_some.mp hinsert).1] at hfound
  cases hfound

theorem principalsKept_revokePrincipal {revokedAt : Int} :
    PrincipalsKept db (db.revokePrincipal kind workspaceId id revokedAt) := by
  apply PrincipalsKept.setPrincipals
  intro k row hrow
  rw [Table.find?_modify, hrow, map_some]
  split_ifs
  · exact ⟨_, rfl, rfl, fun _ => rfl⟩
  · exact ⟨_, rfl, rfl, fun hrevoked => hrevoked⟩
  · exact ⟨_, rfl, rfl, fun hrevoked => hrevoked⟩

/-- The owner is a principal of the Workspace, in whatever state. -/
def OwnedIn (db : IdentityDb) (workspaceId : Uuid) (owner : CredentialOwner) : Prop :=
  ∃ row, (db.principals owner.kind).find? owner.id = some row ∧ row.workspaceId = workspaceId

theorem PrincipalsKept.ownedIn (h : PrincipalsKept db db') {owner : CredentialOwner}
    (howned : db.OwnedIn workspaceId owner) : db'.OwnedIn workspaceId owner := by
  obtain ⟨row, hrow, hworkspace⟩ := howned
  obtain ⟨row', hrow', hsame, -⟩ := h _ _ row hrow
  exact ⟨row', hrow', hsame.trans hworkspace⟩

/-- Every credential has an owner in its Workspace. -/
def Owned (db : IdentityDb) : Prop :=
  ∀ id row, db.credentials.find? id = some row → db.OwnedIn row.workspaceId row.owner

theorem Owned.of_kept (h : db.Owned) (hkept : PrincipalsKept db db')
    (hrows : ∀ id row', db'.credentials.find? id = some row' →
      ∃ row, db.credentials.find? id = some row ∧ row'.workspaceId = row.workspaceId ∧
        row'.owner = row.owner) : db'.Owned := by
  intro id row' hrow'
  obtain ⟨row, hrow, hworkspace, howner⟩ := hrows id row' hrow'
  rw [hworkspace, howner]
  exact hkept.ownedIn (h id row hrow)

theorem Owned.updateCredential (h : db.Owned) {hf : ∀ row, (f row).id = row.id}
    (hkeeps : ∀ row, (f row).workspaceId = row.workspaceId ∧ (f row).owner = row.owner) :
    (db.updateCredential workspaceId id f hf).Owned := by
  have hkept : PrincipalsKept db (db.updateCredential workspaceId id f hf) := .of_eq rfl
  apply h.of_kept hkept
  intro k row' hrow'
  obtain ⟨row, hrow, hcases⟩ := find?_of_updateCredential hrow'
  refine ⟨row, hrow, ?_⟩
  cases hcases with
  | inl hsame =>
    rw [hsame]
    exact ⟨rfl, rfl⟩
  | inr hwritten =>
    rw [hwritten.2]
    exact hkeeps row

theorem Owned.insertCredential (h : db.Owned) (hinsert : db.insertCredential row = .ok db')
    (howned : db.OwnedIn row.workspaceId row.owner) : db'.Owned := by
  obtain ⟨hcredentials, hprincipals⟩ := insertCredential_eq hinsert
  have hkept : PrincipalsKept db db' := .of_eq hprincipals
  intro id found hfound
  rw [Table.find?_insert? hcredentials] at hfound
  split_ifs at hfound
  · cases hfound
    exact hkept.ownedIn howned
  · exact hkept.ownedIn (h id found hfound)

theorem completeRotation_eq {workspaceId oldId : Uuid} {replacement : CredentialRefDraft}
    {rotatedAt : Int}
    (h : db.completeRotation workspaceId oldId replacement rotatedAt = .ok ((), db')) :
    ∃ old, db.credentials.find? oldId = some old ∧ old.workspaceId = workspaceId ∧
      old.owner = replacement.owner ∧
      (db.updateCredential workspaceId oldId (markRevoked rotatedAt) fun _ => rfl).insertCredential
        { replacement.row with workspaceId := workspaceId } = .ok db' := by
  simp only [completeRotation, bind_eq_ok, exists_unit_iff, require_eq_ok] at h
  obtain ⟨old, hold, -, howner, -, inserted, hinsert, h⟩ := h
  cases h
  obtain ⟨hfind, hworkspace⟩ := credential_eq_ok.mp hold
  exact ⟨old, hfind, hworkspace, howner, hinsert⟩

theorem Owned.completeRotation (howned : db.Owned) {workspaceId oldId : Uuid}
    {replacement : CredentialRefDraft} {rotatedAt : Int}
    (h : db.completeRotation workspaceId oldId replacement rotatedAt = .ok ((), db')) :
    db'.Owned := by
  obtain ⟨old, hold, hworkspace, howner, hinsert⟩ := completeRotation_eq h
  -- The replacement belongs to the owner of the old credential.
  have hreplaced := howned _ old hold
  rw [hworkspace, howner] at hreplaced
  have hupdated : (db.updateCredential workspaceId oldId (markRevoked rotatedAt)
      fun _ => rfl).Owned := howned.updateCredential fun _ => ⟨rfl, rfl⟩
  exact hupdated.insertCredential hinsert hreplaced

theorem find?_reopened (db : IdentityDb) (id : Uuid) : db.reopened.credentials.find? id =
    (db.credentials.find? id).map (fun row =>
      if row.state = .rotating then { row with state := .recoveryRequired } else row) := by
  unfold reopened
  rw [Table.find?_map]

end IdentityDb

variable {db db' : IdentityDb} {call : IdentityCall} {phase phase' : IdentityPhase}

theorem IdentityStep.principalsKept (h : IdentityStep db call phase db' phase') :
    PrincipalsKept db db' := by
  cases h with
  | failed | workspaceFound | revocable | ownerFound | rotatable | withdrawable | recoverable
  | rotating | revoked | recovered | reopened => exact .of_eq rfl
  | changed =>
    apply PrincipalsKept.of_eq
    funext kind
    cases kind <;> rfl
  | created h => exact principalsKept_insertPrincipal h
  | principalRevoked => exact principalsKept_revokePrincipal
  | registered h => exact .of_eq (insertCredential_eq h).2
  | completed h =>
    obtain ⟨_, -, -, -, hinsert⟩ := completeRotation_eq h
    exact .of_eq (insertCredential_eq hinsert).2

/-- A registration has seen its owner when it inserts. -/
def IdentityPhase.Founded (db : IdentityDb) : IdentityCall → IdentityPhase → Prop
  | .registerCredentialReference _ draft, .ownerChecked =>
    db.OwnedIn draft.workspaceId draft.owner
  | _, _ => True

theorem ownedIn_of_ensure {owner : CredentialOwner}
    (h : db.ensureOwnerInWorkspace workspaceId owner = .ok ()) : db.OwnedIn workspaceId owner := by
  cases hrow : db.principal owner.kind workspaceId owner.id with
  | error fault =>
    unfold ensureOwnerInWorkspace at h
    rw [hrow] at h
    cases h
  | ok row =>
    obtain ⟨hfind, hworkspace⟩ := principal_eq_ok.mp hrow
    exact ⟨row, hfind, hworkspace⟩

theorem IdentityStep.owned (h : IdentityStep db call phase db' phase') (howned : db.Owned)
    (hfounded : phase.Founded db call) : db'.Owned := by
  cases h with
  | failed | workspaceFound | revocable | ownerFound | rotatable | withdrawable | recoverable =>
    exact howned
  | changed =>
    exact howned.of_kept (IdentityStep.principalsKept (@IdentityStep.changed db _ phase))
      fun id row hrow => ⟨row, hrow, rfl, rfl⟩
  | created h =>
    apply howned.of_kept (principalsKept_insertPrincipal h)
    intro id row hrow
    simp only [insertPrincipal, bind_eq_ok, exists_unit_iff] at h
    obtain ⟨-, table, -, h⟩ := h
    cases h
    rw [credentials_setPrincipals] at hrow
    exact ⟨row, hrow, rfl, rfl⟩
  | principalRevoked =>
    apply howned.of_kept (principalsKept_revokePrincipal)
    intro id row hrow
    unfold revokePrincipal at hrow
    rw [credentials_setPrincipals] at hrow
    exact ⟨row, hrow, rfl, rfl⟩
  | registered h => exact howned.insertCredential h hfounded
  | rotating | recovered => exact howned.updateCredential fun _ => ⟨rfl, rfl⟩
  | completed h => exact howned.completeRotation h
  | revoked =>
    apply howned.updateCredential
    intro row
    split <;> exact ⟨rfl, rfl⟩
  | reopened =>
    have hkept : PrincipalsKept db db.reopened := .of_eq rfl
    apply howned.of_kept hkept
    intro id row' hrow'
    rw [find?_reopened, map_eq_some_iff] at hrow'
    obtain ⟨row, hrow, rfl⟩ := hrow'
    refine ⟨row, hrow, ?_⟩
    split <;> exact ⟨rfl, rfl⟩

theorem owner_outline : identityMachine.Outline (fun _ _ => True) Owned
    fun db call phase => phase.Founded db call where
  start call _ := by cases call <;> trivial
  own := by
    intro pool index call phase db' phase' _ _ howned hfounded hstep
    have hstep := identityStep_of_step hstep
    refine ⟨hstep.owned howned hfounded, ?_⟩
    cases hstep with
    | ownerFound h => exact ownedIn_of_ensure h
    | failed | workspaceFound => cases call <;> trivial
    | _ => trivial
  others := by
    intro pool index position call phase db' phase' call₂ phase₂ _ _ _ _ _ _ hother hstep
    have hkept := (identityStep_of_step hstep).principalsKept
    unfold IdentityPhase.Founded at hother ⊢
    split
    · exact hkept.ownedIn hother
    · trivial

end Stillflow.Identity
