import Stillflow.Identity.Authorization
import Stillflow.Identity.Owners

/-! What an authorization rests on. -/

namespace Stillflow.Identity

open Stillflow.Core Stillflow.Storage Lib.Fallible Lib List

namespace IdentityDb

variable {db db' : IdentityDb} {key : PrincipalKey}

def Active (db : IdentityDb) (key : PrincipalKey) : Prop :=
  ∃ row, db.principal key.kind key.workspaceId key.id = .ok row ∧ row.state = .active

def Revoked (db : IdentityDb) (key : PrincipalKey) : Prop :=
  ∃ row, db.principal key.kind key.workspaceId key.id = .ok row ∧ row.state = .revoked

theorem Revoked.not_active (h : db.Revoked key) : ¬db.Active key := by
  obtain ⟨row, hrow, hrevoked⟩ := h
  rintro ⟨other, hother, hactive⟩
  rw [hrow] at hother
  cases hother
  rw [hrevoked] at hactive
  cases hactive

def roleIds (db : IdentityDb) (key : PrincipalKey) : List Uuid :=
  match key.kind with
  | .member => db.memberRoleIds key.workspaceId key.id
  | .serviceAccount => []

def Archived (db : IdentityDb) (workspaceId : Uuid) : Prop :=
  workspaceId ∈ db.archivedWorkspaces ∧ workspaceId ∉ db.activeWorkspaces

/-- No Workspace becomes active again, and no principal is deleted or comes back. -/
structure Narrows (db db' : IdentityDb) : Prop where
  workspaces : ∀ {workspaceId}, db.Archived workspaceId → db'.Archived workspaceId
  principals : PrincipalsKept db db'

theorem Narrows.refl (db : IdentityDb) : Narrows db db := ⟨id, .of_eq rfl⟩

theorem Narrows.revoked (h : Narrows db db') (hrevoked : db.Revoked key) : db'.Revoked key := by
  obtain ⟨row, hrow, hstate⟩ := hrevoked
  have hfound := principal_eq_ok.mp hrow
  obtain ⟨row', hrow', hworkspace, hkept⟩ := h.principals _ _ row hfound.1
  exact ⟨row', principal_eq_ok.mpr ⟨hrow', hworkspace.trans hfound.2⟩, hkept hstate⟩

theorem Narrows.found (h : Narrows db db') {kind : PrincipalKind} {workspaceId id : Uuid}
    {row : Principal} (hrow : db.principal kind workspaceId id = .ok row) :
    ∃ row', db'.principal kind workspaceId id = .ok row' := by
  have hfound := principal_eq_ok.mp hrow
  obtain ⟨row', hrow', hworkspace, -⟩ := h.principals _ _ row hfound.1
  exact ⟨row', principal_eq_ok.mpr ⟨hrow', hworkspace.trans hfound.2⟩⟩

theorem Archived.setPrincipals {workspaceId : Uuid} (h : db.Archived workspaceId)
    (kind : PrincipalKind) (table : Table Principal) :
    (db.setPrincipals kind table).Archived workspaceId := by
  cases kind <;> exact h

end IdentityDb

variable {db db' : IdentityDb} {operation : IdentityOperation} {workspaceId : Uuid}

theorem IdentityOperation.narrows_write (h : operation.write workspaceId db = .ok db') :
    db.Narrows db' := by
  cases operation with
  | createPrincipal kind id text createdAt =>
    refine ⟨?_, IdentityDb.principalsKept_insertPrincipal h⟩
    simp only [write, IdentityDb.insertPrincipal, bind_eq_ok, exists_unit_iff] at h
    obtain ⟨-, table, -, h⟩ := h
    cases h
    exact fun harchived => harchived.setPrincipals _ _
  | revokePrincipal kind id revokedAt =>
    cases h
    exact ⟨fun harchived => harchived.setPrincipals _ _, IdentityDb.principalsKept_revokePrincipal⟩
  | createRole id name createdAt =>
    simp only [write, IdentityDb.createRole, bind_eq_ok, exists_unit_iff] at h
    obtain ⟨-, roles, -, h⟩ := h
    cases h
    exact ⟨fun harchived => harchived, .of_eq rfl⟩
  | setRoleCapabilities id capabilities =>
    simp only [write, IdentityDb.setRoleCapabilities, bind_eq_ok] at h
    obtain ⟨_, -, h⟩ := h
    cases h
    exact ⟨fun harchived => harchived, .of_eq rfl⟩
  | assignRole memberId roleId =>
    simp only [write, IdentityDb.assignRole, bind_eq_ok] at h
    obtain ⟨_, -, _, -, memberRoles, -, h⟩ := h
    cases h
    exact ⟨fun harchived => harchived, .of_eq rfl⟩
  | createWorkspace =>
    simp only [write, IdentityDb.createWorkspace, bind_eq_ok, exists_unit_iff, require_eq_ok] at h
    obtain ⟨hnew, h⟩ := h
    cases h
    refine ⟨fun harchived => ⟨harchived.1, fun hmem => ?_⟩, .of_eq rfl⟩
    rcases mem_cons.mp hmem with rfl | hactive
    · exact hnew.2 harchived.1
    · exact harchived.2 hactive
  | archiveWorkspace =>
    simp only [write, IdentityDb.archiveWorkspace, bind_eq_ok, exists_unit_iff] at h
    have h := h.2
    cases h
    exact ⟨fun harchived => ⟨mem_cons_of_mem _ harchived.1, fun hmem =>
      harchived.2 (mem_filter.mp hmem).1⟩, .of_eq rfl⟩

namespace IdentityOperation

/-- What the operations that take rights away for good leave behind. -/
def Effective (workspaceId : Uuid) (db : IdentityDb) : IdentityOperation → Prop
  | .revokePrincipal kind id _ => db.Revoked ⟨workspaceId, kind, id⟩
  | .archiveWorkspace => db.Archived workspaceId
  | _ => True

theorem Effective.narrows (h : operation.Effective workspaceId db)
    (hnarrows : db.Narrows db') : operation.Effective workspaceId db' := by
  cases operation with
  | revokePrincipal kind id revokedAt => exact hnarrows.revoked h
  | archiveWorkspace => exact hnarrows.workspaces h
  | _ => trivial

/-- What `check` has found and no later write changes. -/
def Checked (workspaceId : Uuid) (db : IdentityDb) : IdentityOperation → Prop
  | .revokePrincipal kind id _ => ∃ row, db.principal kind workspaceId id = .ok row
  | _ => True

theorem checked_of_check (h : operation.check workspaceId db = .ok ()) :
    operation.Checked workspaceId db := by
  cases operation with
  | revokePrincipal kind id revokedAt =>
    simp only [check, bind_eq_ok] at h
    obtain ⟨row, hrow, -⟩ := h
    exact ⟨row, hrow⟩
  | _ => trivial

theorem Checked.narrows (h : operation.Checked workspaceId db)
    (hnarrows : db.Narrows db') : operation.Checked workspaceId db' := by
  cases operation with
  | revokePrincipal kind id revokedAt =>
    obtain ⟨row, hrow⟩ := h
    exact hnarrows.found hrow
  | _ => trivial

theorem effective_write (hchecked : operation.Checked workspaceId db)
    (h : operation.write workspaceId db = .ok db') : operation.Effective workspaceId db' := by
  cases operation with
  | revokePrincipal kind id revokedAt =>
    obtain ⟨row, hrow⟩ := hchecked
    have hfound := IdentityDb.principal_eq_ok.mp hrow
    cases h
    refine ⟨{ row with state := .revoked, revokedAt := some revokedAt }, ?_, rfl⟩
    apply IdentityDb.principal_eq_ok.mpr
    refine ⟨?_, hfound.2⟩
    unfold IdentityDb.revokePrincipal
    rw [IdentityDb.principals_setPrincipals_self, Table.find?_modify, if_pos rfl, hfound.1,
      Option.map_some, if_pos hfound.2]
  | archiveWorkspace =>
    simp only [write, IdentityDb.archiveWorkspace, bind_eq_ok, exists_unit_iff] at h
    have h := h.2
    cases h
    refine ⟨mem_cons_self, fun hmem => ?_⟩
    have hne := of_mem_filter hmem
    exact (of_decide_eq_true hne) rfl
  | _ => trivial

end IdentityOperation

namespace Gate

variable {gate gate' : Gate} {n : Nat} {P : IdentityDb → Prop} {key : PrincipalKey}

/-- One of the states from the `n`-th on is as described. -/
def Since (gate : Gate) (n : Nat) (P : IdentityDb → Prop) : Prop :=
  ∃ k db, n ≤ k ∧ gate.stateAt k = some db ∧ P db

theorem stateAt_version (gate : Gate) : gate.stateAt gate.version = some gate.db := by
  unfold stateAt version
  rw [getElem?_append_right le_rfl, Nat.sub_self]
  rfl

theorem Since.mono {m : Nat} (h : gate.Since n P) (hle : m ≤ n) :
    gate.Since m P := by
  obtain ⟨k, db, hk, hdb, hP⟩ := h
  exact ⟨k, db, hle.trans hk, hdb, hP⟩

theorem Since.imp {Q : IdentityDb → Prop} (h : gate.Since n P) (hPQ : ∀ db, P db → Q db) :
    gate.Since n Q := by
  obtain ⟨k, db, hk, hdb, hP⟩ := h
  exact ⟨k, db, hk, hdb, hPQ db hP⟩

theorem since_now (hle : n ≤ gate.version) (hP : P gate.db) :
    gate.Since n P :=
  ⟨gate.version, gate.db, hle, gate.stateAt_version, hP⟩

/-- Every state from the `n`-th on is as described. -/
def Ever (gate : Gate) (n : Nat) (P : IdentityDb → Prop) : Prop :=
  n ≤ gate.version ∧ ∀ k db, n ≤ k → gate.stateAt k = some db → P db

/-- What any statement does to the service. -/
structure Grows (gate gate' : Gate) : Prop where
  states : ∀ {n db}, gate.stateAt n = some db → gate'.stateAt n = some db
  settled : ∀ workspaceId, gate.settled workspaceId ≤ gate'.settled workspaceId
  version : gate.version ≤ gate'.version
  narrows : gate.db.Narrows gate'.db
  later : ∀ {n db}, gate'.stateAt n = some db → gate.stateAt n = some db ∨ db = gate'.db

theorem Grows.of_tables (hdb : gate'.db = gate.db) (hpast : gate'.past = gate.past)
    (hsettled : ∀ workspaceId, gate.settled workspaceId ≤ gate'.settled workspaceId) :
    Grows gate gate' where
  states := by
    intro n db h
    unfold stateAt
    rw [hdb, hpast]
    exact h
  settled := hsettled
  version := by
    unfold Gate.version
    rw [hpast]
  narrows := hdb ▸ .refl _
  later := by
    intro n db h
    unfold stateAt at h
    rw [hdb, hpast] at h
    exact .inl h

theorem Grows.refl (gate : Gate) : Grows gate gate :=
  .of_tables rfl rfl fun _ => le_rfl

theorem version_commit (gate : Gate) (db : IdentityDb) :
    (gate.commit db).version = gate.version + 1 := by
  unfold commit version
  exact length_append

theorem grows_commit (h : gate.db.Narrows db) : Grows gate (gate.commit db) where
  states := by
    intro n old hold
    have hlt := (List.getElem?_eq_some_iff.mp hold).1
    unfold stateAt commit
    rw [List.getElem?_append_left hlt]
    exact hold
  settled _ := le_rfl
  version := by
    rw [version_commit]
    omega
  narrows := h
  later := by
    intro n new hnew
    unfold stateAt commit at hnew
    rw [getElem?_append] at hnew
    split at hnew
    · exact .inl hnew
    · obtain ⟨_, heq⟩ := List.getElem?_eq_some_iff.mp hnew
      rw [List.getElem_singleton] at heq
      exact .inr heq.symm

theorem grows_fill (key : PrincipalKey) (entry : CachedPrincipal) :
    Grows gate (gate.fill key entry) :=
  .of_tables rfl rfl fun _ => le_rfl

theorem grows_invalidate (workspaceId : Uuid) (version : Nat) :
    Grows gate (gate.invalidate workspaceId version) := by
  refine Grows.of_tables rfl rfl ?_
  intro other
  simp only [invalidate, Function.update_apply]
  split_ifs with h
  · rw [h]
    exact Nat.le_max_left ..
  · exact le_rfl

theorem Since.grows (h : gate.Since n P) (hgrows : Grows gate gate') : gate'.Since n P := by
  obtain ⟨k, db, hk, hdb, hP⟩ := h
  exact ⟨k, db, hk, hgrows.states hdb, hP⟩

theorem Ever.grows (h : gate.Ever n P) (hgrows : Grows gate gate')
    (hkept : ∀ {db db'}, P db → IdentityDb.Narrows db db' → P db') :
    gate'.Ever n P := by
  refine ⟨h.1.trans hgrows.version, ?_⟩
  intro k db hk hdb
  rcases hgrows.later hdb with hold | rfl
  · exact h.2 k db hk hold
  · exact hkept (h.2 _ _ h.1 gate.stateAt_version) hgrows.narrows

theorem ever_commit (hP : P db) :
    (gate.commit db).Ever (gate.version + 1) P := by
  refine ⟨Nat.le_of_eq (version_commit gate db).symm, ?_⟩
  intro k new hk hnew
  unfold stateAt commit at hnew
  rw [List.getElem?_append_right (by rw [List.length_append]; exact hk)] at hnew
  obtain ⟨_, heq⟩ := List.getElem?_eq_some_iff.mp hnew
  rw [List.getElem_singleton] at heq
  exact heq ▸ hP

/-- A load has read the principal and its roles, and the capabilities of all but the remaining ones,
in states from the `n`-th on. -/
structure Loading (gate : Gate) (n : Nat) (key : PrincipalKey) (remaining : List Uuid)
    (capabilities : List String) : Prop where
  active : gate.Since n (·.Active key)
  roles : ∃ parts : List (Uuid × List String), capabilities = parts.flatMap Prod.snd ∧
    gate.Since n (fun db => db.roleIds key = parts.map Prod.fst ++ remaining) ∧
    ∀ part ∈ parts, gate.Since n fun db =>
      ∃ role, db.role key.workspaceId part.1 = .ok role ∧ role.capabilities = part.2

theorem Loading.map {m : Nat} {remaining : List Uuid} {capabilities : List String}
    (h : gate.Loading n key remaining capabilities)
    (hmap : ∀ {P}, gate.Since n P → gate'.Since m P) :
    gate'.Loading m key remaining capabilities := by
  obtain ⟨parts, hcapabilities, hids, hparts⟩ := h.roles
  exact ⟨hmap h.active, parts, hcapabilities, hmap hids,
    fun part hpart => hmap (hparts part hpart)⟩

theorem Loading.read {roleId : Uuid} {rest : List Uuid} {capabilities : List String} {role : Role}
    (h : gate.Loading n key (roleId :: rest) capabilities) (hle : n ≤ gate.version)
    (hrole : gate.db.role key.workspaceId roleId = .ok role) :
    gate.Loading n key rest (capabilities ++ role.capabilities) := by
  obtain ⟨parts, hcapabilities, hids, hparts⟩ := h.roles
  refine ⟨h.active, parts ++ [(roleId, role.capabilities)], ?_, ?_, ?_⟩
  · rw [hcapabilities, flatMap_append, flatMap_singleton]
  · rw [map_append, append_assoc]
    exact hids
  · exact forall_mem_append.mpr
      ⟨hparts, forall_mem_singleton.mpr (since_now hle ⟨role, hrole, rfl⟩)⟩

/-- The Workspace was active in a state from the `n`-th on. -/
abbrev Enters (gate : Gate) (key : PrincipalKey) (n : Nat) : Prop :=
  gate.Since n fun db => key.workspaceId ∈ db.activeWorkspaces

/-- What `authorize` has found before a read: an active Workspace in a state from the `seen`-th on, an
active principal and the role to read in states from the `start`-th on. -/
def Reaches (gate : Gate) (key : PrincipalKey) (seen start : Nat) : ServiceRead → Prop
  | .workspace => True
  | .principal => gate.Enters key seen
  | .roleIds => gate.Enters key seen ∧ gate.Since start (·.Active key)
  | .role id => gate.Enters key seen ∧ gate.Since start (·.Active key) ∧
    gate.Since start fun db => id ∈ db.roleIds key

/-- How an authorization was decided, the Workspace having been read in a state from the `seen`-th on
and the rest in states from the `start`-th on. -/
inductive Decision (gate : Gate) (failing : List ServiceRead) (key : PrincipalKey)
    (capability : Capability) (seen start : Nat) : Bool → Prop where
  | unreadable {read} (h : read ∈ failing) (hreached : gate.Reaches key seen start read) :
    Decision gate failing key capability seen start false
  | workspace (h : gate.Since seen fun db => key.workspaceId ∉ db.activeWorkspaces) :
    Decision gate failing key capability seen start false
  | principal (hworkspace : gate.Enters key seen) (h : gate.Since start fun db => ¬db.Active key) :
    Decision gate failing key capability seen start false
  | dangling {roleId} (hworkspace : gate.Enters key seen)
      (hassigned : gate.Since start fun db => roleId ∈ db.roleIds key)
      (h : gate.Since start fun db => ∀ role, db.role key.workspaceId roleId ≠ .ok role) :
    Decision gate failing key capability seen start false
  | loaded {capabilities} (hworkspace : gate.Enters key seen)
      (h : gate.Loading start key [] capabilities) :
    Decision gate failing key capability seen start (allows capabilities capability)

variable {failing : List ServiceRead} {capability : Capability}
  {seen start : Nat} {granted : Bool}

theorem Decision.map {seen' start' : Nat}
    (h : gate.Decision failing key capability seen start granted)
    (hseen : ∀ {P}, gate.Since seen P → gate'.Since seen' P)
    (hstart : ∀ {P}, gate.Since start P → gate'.Since start' P) :
    gate'.Decision failing key capability seen' start' granted := by
  cases h with
  | @unreadable read h hreached =>
    refine .unreadable h ?_
    cases read with
    | workspace => trivial
    | principal => exact hseen hreached
    | roleIds => exact ⟨hseen hreached.1, hstart hreached.2⟩
    | role id => exact ⟨hseen hreached.1, hstart hreached.2.1, hstart hreached.2.2⟩
  | workspace h => exact .workspace (hseen h)
  | principal hworkspace h => exact .principal (hseen hworkspace) (hstart h)
  | dangling hworkspace hassigned h =>
    exact .dangling (hseen hworkspace) (hstart hassigned) (hstart h)
  | loaded hworkspace h => exact .loaded (hseen hworkspace) (h.map hstart)

/-- No call is granted anything in a Workspace that is archived for good. -/
theorem Decision.archived (h : gate.Decision failing key capability seen start granted)
    (hever : gate.Ever n (·.Archived key.workspaceId)) (hle : n ≤ seen) :
    granted = false ∧ ∀ start', gate.Decision failing key capability seen start' granted := by
  have hnot : ¬gate.Enters key seen := by
    rintro ⟨k, db, hk, hdb, hmem⟩
    exact (hever.2 k db (hle.trans hk) hdb).2 hmem
  cases h with
  | @unreadable read h hreached =>
    cases read with
    | workspace => exact ⟨rfl, fun _ => .unreadable h trivial⟩
    | principal => exact absurd hreached hnot
    | roleIds | role => exact absurd hreached.1 hnot
  | workspace h => exact ⟨rfl, fun _ => .workspace h⟩
  | principal hworkspace | dangling hworkspace | loaded hworkspace => exact absurd hworkspace hnot

/-- Nothing is granted to a principal that is revoked for good. -/
theorem Decision.revoked (h : gate.Decision failing key capability seen start granted)
    (hever : gate.Ever n (·.Revoked key)) (hle : n ≤ start) : granted = false := by
  cases h with
  | unreadable | workspace | principal | dangling => rfl
  | loaded hworkspace h =>
    obtain ⟨k, db, hk, hdb, hactive⟩ := h.active
    exact absurd hactive (hever.2 k db (hle.trans hk) hdb).not_active

end Gate

end Stillflow.Identity
