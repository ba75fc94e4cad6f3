import Stillflow.Identity.Owners

/-! Revocation in every interleaving of the calls of the identity store. -/

namespace Stillflow.Identity

open Stillflow.Core Stillflow.Storage Lib.Fallible Lib IdentityDb

variable {db db' : IdentityDb} {call : IdentityCall} {phase phase' : IdentityPhase}

def IdentityDb.Unrevoked (db : IdentityDb) (id : Uuid) : Prop :=
  ∀ row ∈ db.credentials.find? id, row.state ≠ .revoked

def IdentityDb.unrevoked (db : IdentityDb) (id : Uuid) : Bool :=
  (db.credentials.find? id).all fun row => row.state ≠ .revoked

theorem IdentityDb.unrevoked_iff {id : Uuid} : db.unrevoked id = true ↔ db.Unrevoked id := by
  simp [unrevoked, Unrevoked, Option.all_eq_true]

/-- The credential that a rotation or a recovery has read and is about to write. -/
def IdentityCall.updates? : IdentityCall → IdentityPhase → Option Uuid
  | .beginCredentialRotation _ _ id _, .allowed => some id
  | .recoverCredential _ _ id _, .recovering _ => some id
  | _, _ => none

/-- The statement revokes no credential between the read and the `UPDATE` of its rotation or
recovery. -/
def Undisturbed (pool : Pool IdentityDb IdentityCall IdentityPhase) (m : Move IdentityCall) : Prop :=
  ∀ entry ∈ pool.calls, ∀ id ∈ entry.1.updates? entry.2, pool.shared.Unrevoked id →
    (identityMachine.machine.next pool m).shared.Unrevoked id

instance (pool : Pool IdentityDb IdentityCall IdentityPhase) (m : Move IdentityCall) :
    Decidable (Undisturbed pool m) :=
  decidable_of_iff ((pool.calls.all fun entry => (entry.1.updates? entry.2).all fun id =>
      !pool.shared.unrevoked id || (identityMachine.machine.next pool m).shared.unrevoked id) =
        true) (by
    simp [Undisturbed, ← unrevoked_iff, Option.all_eq_true, ← Bool.not_eq_true, ← imp_iff_not_or])

/-- The call whose statement a move executes. -/
def executing (pool : Pool IdentityDb IdentityCall IdentityPhase) :
    Move IdentityCall → Option (IdentityCall × IdentityPhase)
  | .invoke _ => none
  | .advance index => pool.calls[index]?

/-- The principal that the `UPDATE` of a revocation names. -/
def ownerRevoked (pool : Pool IdentityDb IdentityCall IdentityPhase) (m : Move IdentityCall) :
    Option CredentialOwner :=
  match executing pool m with
  | some (.revokePrincipal kind _ _ id _, .allowed) => some ⟨kind, id⟩
  | _ => none

/-- The owner for which a statement writes an active credential: the insert of a registration or of
a replacement, or the `UPDATE` of a recovery. -/
def ownerActivated (pool : Pool IdentityDb IdentityCall IdentityPhase) (m : Move IdentityCall) :
    Option CredentialOwner :=
  match executing pool m with
  | some (.registerCredentialReference _ draft, .ownerChecked) => some draft.owner
  | some (.completeCredentialRotation _ _ _ replacement _, _) => some replacement.owner
  | some (.recoverCredential _ _ id _, .recovering .active) =>
    (pool.shared.credentials.find? id).map (·.owner)
  | _ => none

/-- A rotation or a recovery writes a credential that is not revoked. -/
def IdentityPhase.Usable (db : IdentityDb) (call : IdentityCall) (phase : IdentityPhase) : Prop :=
  ∀ id ∈ call.updates? phase, db.Unrevoked id

namespace IdentityDb

def Final (db db' : IdentityDb) : Prop :=
  ∀ id row, db.credentials.find? id = some row → row.state = .revoked →
    ∃ row', db'.credentials.find? id = some row' ∧ row'.state = .revoked

theorem Final.of_eq (h : db'.credentials = db.credentials) : Final db db' := by
  intro id row hrow hrevoked
  exact ⟨row, by rw [h, hrow], hrevoked⟩

theorem Final.trans {db'' : IdentityDb} (h : Final db db') (h' : Final db' db'') :
    Final db db'' := by
  intro id row hrow hrevoked
  obtain ⟨row', hrow', hrevoked'⟩ := h id row hrow hrevoked
  exact h' id row' hrow' hrevoked'

theorem final_updateCredential {id workspaceId : Uuid} {f : Credential → Credential}
    {hf : ∀ row, (f row).id = row.id}
    (h : ∀ row, db.credentials.find? id = some row → row.state = .revoked →
      (f row).state = .revoked) : Final db (db.updateCredential workspaceId id f hf) := by
  intro k row hrow hrevoked
  obtain ⟨row', hrow', hcases⟩ := find?_updateCredential (h := hf) hrow
  refine ⟨row', hrow', ?_⟩
  rcases hcases with hsame | ⟨hid, hset⟩
  · rw [hsame]
    exact hrevoked
  · rw [hset]
    rw [hid] at hrow
    exact h row hrow hrevoked

theorem final_insertCredential {row : Credential} (h : db.insertCredential row = .ok db') :
    Final db db' := by
  have hinsert := (insertCredential_eq h).1
  intro id found hfound hrevoked
  refine ⟨found, ?_, hrevoked⟩
  rw [Table.find?_insert? hinsert, if_neg, hfound]
  rintro rfl
  rw [(Table.insert?_eq_some.mp hinsert).1] at hfound
  cases hfound

theorem credentials_insertPrincipal {kind : PrincipalKind} {row : Principal}
    (h : db.insertPrincipal kind row = .ok db') : db'.credentials = db.credentials := by
  simp only [insertPrincipal, bind_eq_ok, exists_unit_iff] at h
  obtain ⟨-, table, -, h⟩ := h
  cases h
  exact credentials_setPrincipals db kind table

theorem credentials_revokePrincipal (kind : PrincipalKind) (workspaceId id : Uuid)
    (revokedAt : Int) :
    (db.revokePrincipal kind workspaceId id revokedAt).credentials = db.credentials :=
  credentials_setPrincipals db kind _

/-- No credential becomes active for a principal that is revoked. -/
def NoneForRevoked (db db' : IdentityDb) : Prop :=
  ∀ id row', db'.credentials.find? id = some row' → row'.state = .active →
    (∀ row, db.credentials.find? id = some row → row.state ≠ .active) →
      ∀ owner, (db.principals row'.owner.kind).find? row'.owner.id = some owner →
        owner.state ≠ .revoked

end IdentityDb

theorem IdentityStep.final (h : IdentityStep db call phase db' phase')
    (husable : phase.Usable db call) : db.Final db' := by
  cases h with
  | failed | workspaceFound | revocable | ownerFound | rotatable | withdrawable | recoverable
  | changed => exact .of_eq rfl
  | created h => exact .of_eq (credentials_insertPrincipal h)
  | principalRevoked => exact .of_eq (credentials_revokePrincipal ..)
  | registered h => exact final_insertCredential h
  | rotating =>
    apply final_updateCredential
    intro row hrow hrevoked
    exact absurd hrevoked (husable _ rfl row hrow)
  | completed h =>
    obtain ⟨_, -, -, -, hinsert⟩ := completeRotation_eq h
    refine Final.trans ?_ (final_insertCredential hinsert)
    exact final_updateCredential fun _ _ _ => rfl
  | revoked =>
    apply final_updateCredential
    intro row _ hrevoked
    rw [if_pos hrevoked]
    exact hrevoked
  | recovered =>
    apply final_updateCredential
    intro row hrow hrevoked
    exact absurd hrevoked (husable _ rfl row hrow)
  | reopened =>
    intro id row hrow hrevoked
    refine ⟨row, ?_, hrevoked⟩
    rw [find?_reopened, hrow, Option.map_some, if_neg]
    rw [hrevoked]
    decide

theorem IdentityStep.usable (h : IdentityStep db call phase db' phase') :
    phase'.Usable db' call := by
  have hread : ∀ {workspaceId id row}, db.credential workspaceId id = .ok row →
      row.state ≠ .revoked → db.Unrevoked id := by
    intro workspaceId id row hrow hstate found hfound
    rw [Option.mem_def, (credential_eq_ok.mp hrow).1] at hfound
    cases hfound
    exact hstate
  cases h with
  | rotatable h =>
    simp only [allowRotation, bind_eq_ok, exists_unit_iff, require_eq_ok] at h
    obtain ⟨row, hrow, hstate, -⟩ := h
    rintro _ ⟨⟩
    refine hread hrow ?_
    rcases hstate with hstate | hstate <;> rw [hstate] <;> decide
  | recoverable h =>
    simp only [allowRecovery, bind_eq_ok, exists_unit_iff, require_eq_ok] at h
    obtain ⟨row, hrow, hstate, -⟩ := h
    rintro _ ⟨⟩
    refine hread hrow ?_
    rw [hstate]
    decide
  | failed | workspaceFound => cases call <;> rintro _ ⟨⟩
  | _ => rintro _ ⟨⟩

theorem revocation_outline : identityMachine.Outline Undisturbed (fun _ => True)
    fun db call phase => phase.Usable db call where
  start call _ := by cases call <;> rintro _ ⟨⟩
  own _ _ _ _ hstep := ⟨trivial, (identityStep_of_step hstep).usable⟩
  others := by
    intro pool index position call phase db' phase' call₂ phase₂ htimely hown hne hcall _ _ hother
      hstep id hid
    rw [← Concurrent.next_advance hown hstep]
    exact htimely _ (List.mem_of_getElem? hcall) id hid (hother id hid)

/-- A principal becomes revoked by the `UPDATE` of its revocation only. -/
theorem IdentityStep.revoked_principal {kind : PrincipalKind} {id : Uuid} {row' : Principal}
    (h : IdentityStep db call phase db' phase')
    (hrow' : (db'.principals kind).find? id = some row') (hrevoked : row'.state = .revoked) :
    (∃ row, (db.principals kind).find? id = some row ∧ row.state = .revoked) ∨
      ∃ access workspaceId revokedAt,
        call = .revokePrincipal kind access workspaceId id revokedAt ∧ phase = .allowed := by
  have hsame : db'.principals = db.principals →
      ∃ row, (db.principals kind).find? id = some row ∧ row.state = .revoked := fun heq =>
    ⟨row', by rw [← heq, hrow'], hrevoked⟩
  cases h with
  | failed | workspaceFound | revocable | ownerFound | rotatable | withdrawable | recoverable
  | rotating | revoked | recovered | reopened => exact .inl (hsame rfl)
  | changed => exact .inl (hsame (by funext kind; cases kind <;> rfl))
  | registered h => exact .inl (hsame (insertCredential_eq h).2)
  | completed h =>
    obtain ⟨_, -, -, -, hinsert⟩ := completeRotation_eq h
    exact .inl (hsame (insertCredential_eq hinsert).2)
  | @created kind' _ _ _ _ _ _ _ h =>
    simp only [insertPrincipal, bind_eq_ok, exists_unit_iff, okOr_eq_ok] at h
    obtain ⟨-, table, hinsert, h⟩ := h
    cases h
    by_cases hkind : kind = kind'
    · subst hkind
      rw [principals_setPrincipals_self, Table.find?_insert? hinsert] at hrow'
      split_ifs at hrow'
      · cases hrow'
        cases hrevoked
      · exact .inl ⟨row', hrow', hrevoked⟩
    · rw [principals_setPrincipals_ne db hkind] at hrow'
      exact .inl ⟨row', hrow', hrevoked⟩
  | @principalRevoked kind' access workspaceId id' revokedAt =>
    unfold IdentityDb.revokePrincipal at hrow'
    by_cases hkind : kind = kind'
    · subst hkind
      rw [principals_setPrincipals_self, Table.find?_modify] at hrow'
      split_ifs at hrow' with hid
      · exact .inr ⟨access, workspaceId, revokedAt, by rw [hid], rfl⟩
      · exact .inl ⟨row', hrow', hrevoked⟩
    · rw [principals_setPrincipals_ne db hkind] at hrow'
      exact .inl ⟨row', hrow', hrevoked⟩

/-- A principal that is revoked after a run was so before it, or its revocation was executed. -/
theorem ownerRevoked_of_revoked {pool : Pool IdentityDb IdentityCall IdentityPhase}
    {moves : List (Move IdentityCall)} {owner : CredentialOwner} {row' : Principal}
    (hrow' : ((identityMachine.machine.run pool moves).shared.principals owner.kind).find?
      owner.id = some row') (hrevoked : row'.state = .revoked) :
    (∃ row, (pool.shared.principals owner.kind).find? owner.id = some row ∧
      row.state = .revoked) ∨
      ∃ e ∈ identityMachine.machine.trace pool moves, ownerRevoked e.1 e.2 = some owner := by
  induction moves generalizing pool with
  | nil => exact .inl ⟨row', hrow', hrevoked⟩
  | cons m moves ih =>
    rcases ih hrow' with ⟨row, hrow, hstate⟩ | ⟨e, he, howner⟩
    · have hmoved := Concurrent.moved_next (C := identityMachine) pool m
      generalize identityMachine.machine.next pool m = after at hmoved hrow
      cases hmoved with
      | idle | invoked => exact .inl ⟨row, hrow, hstate⟩
      | advanced hcall hstep =>
        rcases (identityStep_of_step hstep).revoked_principal hrow hstate with
          hbefore | ⟨access, workspaceId, revokedAt, rfl, rfl⟩
        · exact .inl hbefore
        · refine .inr ⟨(pool, _), List.mem_cons_self, ?_⟩
          simp only [ownerRevoked, executing, hcall]
    · exact .inr ⟨e, List.mem_cons_of_mem _ he, howner⟩

theorem noneForRevoked_updateCredential {workspaceId id : Uuid} {f : Credential → Credential}
    {hf : ∀ row, (f row).id = row.id}
    (h : ∀ row, db.credentials.find? id = some row → (f row).state = .active →
      row.state ≠ .active → ∀ owner, (db.principals (f row).owner.kind).find? (f row).owner.id =
        some owner → owner.state ≠ .revoked) :
    db.NoneForRevoked (db.updateCredential workspaceId id f hf) := by
  intro k row' hrow' hactive hbefore
  obtain ⟨row, hrow, hcases⟩ := find?_of_updateCredential hrow'
  rcases hcases with rfl | ⟨rfl, rfl⟩
  · exact absurd hactive (hbefore _ hrow)
  · exact h row hrow hactive (hbefore row hrow)

theorem noneForRevoked_insertCredential {row : Credential} (h : db.insertCredential row = .ok db')
    (howner : ∀ owner, (db.principals row.owner.kind).find? row.owner.id = some owner →
      owner.state ≠ .revoked) : db.NoneForRevoked db' := by
  intro k row' hrow' hactive hbefore
  rw [Table.find?_insert? (insertCredential_eq h).1] at hrow'
  split_ifs at hrow'
  · cases hrow'
    exact howner
  · exact absurd hactive (hbefore _ hrow')

/-- A credential becomes active by the statements that `ownerActivated` names. -/
theorem IdentityStep.noneForRevoked {pool : Pool IdentityDb IdentityCall IdentityPhase}
    {index : Nat} (hcall : pool.calls[index]? = some (call, phase))
    (h : IdentityStep pool.shared call phase db' phase')
    (howner : ∀ owner ∈ ownerActivated pool (.advance index), ∀ row,
      (pool.shared.principals owner.kind).find? owner.id = some row → row.state ≠ .revoked) :
    pool.shared.NoneForRevoked db' := by
  have hsame : ∀ {after : IdentityDb}, after.credentials = pool.shared.credentials →
      pool.shared.NoneForRevoked after := by
    intro after heq id row' hrow' hactive hbefore
    rw [heq] at hrow'
    exact absurd hactive (hbefore row' hrow')
  simp only [ownerActivated, executing, hcall] at howner
  cases h with
  | failed | workspaceFound | revocable | ownerFound | rotatable | withdrawable | recoverable
  | changed => exact hsame rfl
  | created h => exact hsame (credentials_insertPrincipal h)
  | principalRevoked => exact hsame (credentials_revokePrincipal ..)
  | registered h => exact noneForRevoked_insertCredential h (howner _ rfl)
  | rotating => exact noneForRevoked_updateCredential fun _ _ hstate => by cases hstate
  | completed h =>
    obtain ⟨_, -, -, -, hinsert⟩ := completeRotation_eq h
    intro id row' hrow' hactive hbefore
    have hupdated := noneForRevoked_insertCredential hinsert (howner _ rfl) id row' hrow' hactive
    refine hupdated fun row hrow hstate => ?_
    obtain ⟨old, hold, rfl | ⟨-, rfl⟩⟩ := find?_of_updateCredential hrow
    · exact hbefore _ hold hstate
    · cases hstate
  | revoked =>
    refine noneForRevoked_updateCredential fun row hrow hstate hbefore => ?_
    split at hstate
    · exact absurd hstate hbefore
    · cases hstate
  | @recovered _ _ id _ target =>
    refine noneForRevoked_updateCredential fun row hrow hstate _ => ?_
    obtain rfl : target = .active := hstate
    refine howner row.owner ?_
    simp only [hrow]
    rfl
  | reopened =>
    intro id row' hrow' hactive hbefore
    rw [find?_reopened, Option.map_eq_some_iff] at hrow'
    obtain ⟨row, hrow, rfl⟩ := hrow'
    split at hactive
    · cases hactive
    · exact absurd hactive (hbefore row hrow)

/-- In every interleaving from an empty store: a revoked principal stays revoked and every credential
has an owner in its Workspace. A revoked credential stays revoked if no credential is revoked between
the read and the `UPDATE` of its rotation or recovery. A statement makes no credential active for a
revoked owner if the revocation of the owner it writes for was not executed before it. -/
theorem revocation_final {first : IdentityDb} (hcredentials : first.credentials = .empty)
    (hprincipals : ∀ kind, first.principals kind = .empty) (moves : List (Move IdentityCall)) :
    let M := identityMachine.machine
    let pool := M.run ⟨first, []⟩ moves
    pool.shared.Owned ∧
    (∀ m, pool.shared.PrincipalsKept (M.next pool m).shared) ∧
    ((∀ e ∈ M.trace ⟨first, []⟩ moves, Undisturbed e.1 e.2) →
      ∀ m, pool.shared.Final (M.next pool m).shared) ∧
    ∀ m, (∀ owner ∈ ownerActivated pool m, ∀ e ∈ M.trace ⟨first, []⟩ moves,
        ownerRevoked e.1 e.2 ≠ some owner) →
      pool.shared.NoneForRevoked (M.next pool m).shared := by
  intro M pool
  have howned : first.Owned := by
    intro id row hrow
    rw [hcredentials] at hrow
    cases hrow
  refine ⟨?_, ?_, ?_, ?_⟩
  · exact (owner_outline.run (Concurrent.valid_nil howned)
      fun _ _ => trivial).shared
  · intro m
    apply Concurrent.related_next (.of_eq rfl)
    intro index call phase db' phase' _ hstep
    exact (identityStep_of_step hstep).principalsKept
  · intro htimely m
    have hvalid : Concurrent.Valid _ _ pool :=
      revocation_outline.run (Concurrent.valid_nil trivial) htimely
    apply Concurrent.related_next (.of_eq rfl)
    intro index call phase db' phase' hcall hstep
    exact (identityStep_of_step hstep).final (hvalid.calls hcall)
  · intro m hordered
    have hmoved := Concurrent.moved_next (C := identityMachine) pool m
    change identityMachine.Moved pool m (M.next pool m) at hmoved
    generalize M.next pool m = after at hmoved
    cases hmoved with
    | idle | invoked => exact fun _ _ hrow hactive hbefore => absurd hactive (hbefore _ hrow)
    | advanced hcall hstep =>
      refine (identityStep_of_step hstep).noneForRevoked hcall fun owner howner row hrow hrevoked => ?_
      rcases ownerRevoked_of_revoked hrow hrevoked with ⟨_, hbefore, -⟩ | ⟨e, he, heq⟩
      · rw [hprincipals] at hbefore
        cases hbefore
      · exact hordered owner howner e he heq

def oneWorkspace : IdentityDb := { IdentityDb.new with activeWorkspaces := [1] }

def sampleDraft : CredentialRefDraft where
  id := 5
  workspaceId := 1
  owner := ⟨.member, 2⟩
  providerKind := "external"
  credentialRef := "cred://external/k"
  createdAt := 0
  expiresAt := none

def memberMoves : List (Move IdentityCall) :=
  [.invoke (.createMember {} 1 2 "m" 0), .advance 0, .advance 0]

def identityPool (moves : List (Move IdentityCall)) :
    Pool IdentityDb IdentityCall IdentityPhase :=
  identityMachine.machine.run ⟨oneWorkspace, []⟩ moves

/-- The member is revoked before the credential is registered. -/
def revokedOwner : List (Move IdentityCall) :=
  memberMoves ++ [.invoke (.revokeMember {} 1 2 0), .advance 1, .advance 1,
    .invoke (.registerCredentialReference {} sampleDraft), .advance 2, .advance 2, .advance 2]

/-- The registration is about to insert, and the revocation of the member has read its row. -/
def registering : List (Move IdentityCall) :=
  memberMoves ++ [.invoke (.registerCredentialReference {} sampleDraft), .advance 1, .advance 1,
    .invoke (.revokeMember {} 1 2 0), .advance 2]

/-- The credential is revoked after the given number of statements of its rotation. -/
def revokedDuring (statements : Nat) : List (Move IdentityCall) :=
  memberMoves ++ [.invoke (.registerCredentialReference {} sampleDraft), .advance 1, .advance 1,
    .advance 1, .invoke (.beginCredentialRotation {} 1 5 0)] ++
  List.replicate statements (.advance 2) ++
  [.invoke (.revokeCredential {} 1 5 0), .advance 3, .advance 3]

def credentialState (moves : List (Move IdentityCall)) (id : Uuid) : Option CredentialState :=
  ((identityPool moves).shared.credentials.find? id).map (·.state)

/-- A credential is made active for a revoked owner, and a revoked credential is rotated. -/
theorem revocation_not_final :
    (((identityPool revokedOwner).shared.members.find? 2).map (·.state) = some .revoked ∧
      credentialState revokedOwner 5 = some .active) ∧
    credentialState (revokedDuring 1) 5 = some .revoked ∧
      credentialState (revokedDuring 1 ++ [.advance 2]) 5 = some .rotating := by
  refine ⟨⟨?_, ?_⟩, ?_, ?_⟩ <;> decide +kernel

/-- Revoked before the rotation reads it, the credential stays revoked; registered before its owner
is revoked, it is not made active for a revoked owner. -/
theorem revoked_before_rotation : credentialState (revokedDuring 0) 5 = some .revoked ∧
    (∀ m, (identityPool (revokedDuring 0)).shared.Final
      (identityMachine.machine.next (identityPool (revokedDuring 0)) m).shared) ∧
    (identityPool registering).shared.NoneForRevoked
      (identityMachine.machine.next (identityPool registering) (.advance 1)).shared := by
  have hempty : ∀ kind, oneWorkspace.principals kind = .empty := by
    intro kind
    cases kind <;> rfl
  refine ⟨by decide +kernel, ?_, ?_⟩
  · exact (revocation_final rfl hempty (revokedDuring 0)).2.2.1 (by decide +kernel)
  · exact (revocation_final rfl hempty registering).2.2.2 (.advance 1) (by decide +kernel)

end Stillflow.Identity
