import Stillflow.Storage.GraphRevisions

/-! Revisions of a graph form a gap-free chain whose contents never change. -/

namespace Stillflow.Storage

open Stillflow.Core Lib.Fallible Lib.Machine List GraphRevisionRecord

variable {record : GraphRevisionRecord} {revisions : List GraphRevisionRecord}
  {store store' : RevisionStore}

/-- Everything of a revision except its link to a plan version. -/
def GraphRevisionRecord.content (record : GraphRevisionRecord) : GraphRevisionRecord :=
  { record with planVersionId := none }

/-- Numbered from one, each revision after the first with its predecessor as parent. -/
structure Chain (revisions : List GraphRevisionRecord) : Prop where
  numbers : revisions.map (·.revisionNumber) = range' 1 revisions.length
  first : ∀ record, revisions[0]? = some record → record.parentRevisionId = none
  parents : ∀ i record, revisions[i + 1]? = some record →
    record.parentRevisionId = revisions[i]?.map (·.id)

theorem chain_nil : Chain [] where
  numbers := rfl
  first _ h := by cases h
  parents _ _ h := by cases h

theorem Chain.snoc (h : Chain revisions) (hnumber : record.revisionNumber = revisions.length + 1)
    (hparent : record.parentRevisionId = revisions.getLast?.map (·.id)) :
    Chain (revisions ++ [record]) where
  numbers := by
    rw [map_append, h.numbers, length_append, length_singleton,
      range'_1_concat, map_singleton, hnumber, Nat.add_comm 1]
  first r hr := by
    cases revisions with
    | nil =>
      cases hr
      exact hparent
    | cons a rest => exact h.first r hr
  parents i r hr := by
    have hi : i + 1 < revisions.length + 1 := by
      have := (List.getElem?_eq_some_iff.mp hr).1
      simpa using this
    rw [getElem?_append_left (by omega)]
    by_cases hlast : i + 1 = revisions.length
    · rw [hlast, getElem?_concat_length] at hr
      cases hr
      rw [hparent, getLast?_eq_getElem?, ← hlast, Nat.add_sub_cancel]
    · rw [getElem?_append_left (by omega)] at hr
      exact h.parents i r hr

theorem Chain.numbers_concat {rest : List GraphRevisionRecord} {last : GraphRevisionRecord}
    (h : Chain (rest ++ [last])) :
    rest.map (·.revisionNumber) = range' 1 rest.length ∧
      last.revisionNumber = rest.length + 1 := by
  have hnumbers := h.numbers
  rw [map_append, length_append, length_singleton, range'_1_concat,
    map_singleton] at hnumbers
  have hparts := append_inj' hnumbers rfl
  have hlast := singleton_inj.mp hparts.2
  exact ⟨hparts.1, by omega⟩

theorem number_le_of_numbers (h : revisions.map (·.revisionNumber) = range' 1 revisions.length)
    (hmem : record ∈ revisions) :
    1 ≤ record.revisionNumber ∧ record.revisionNumber ≤ revisions.length := by
  have hnumber : record.revisionNumber ∈ range' 1 revisions.length := by
    rw [← h]
    exact mem_map_of_mem hmem
  rw [mem_range'_1] at hnumber
  omega

theorem Chain.argmax_eq (h : Chain revisions) :
    revisions.argmax (·.revisionNumber) = revisions.getLast? := by
  rcases eq_nil_or_concat revisions with rfl | ⟨rest, last, rfl⟩
  · rfl
  · rw [concat_eq_append] at h ⊢
    obtain ⟨hrest, hlast⟩ := h.numbers_concat
    rw [argmax_concat, getLast?_concat]
    cases hmax : rest.argmax (·.revisionNumber) with
    | none => rfl
    | some c =>
      have hle := (number_le_of_numbers hrest (argmax_mem hmax)).2
      have hlt : c.revisionNumber < last.revisionNumber := by omega
      simp [hlt]

theorem Chain.getLast?_number (h : Chain revisions) {last : GraphRevisionRecord}
    (hlast : revisions.getLast? = some last) : last.revisionNumber = revisions.length := by
  obtain ⟨rest, rfl⟩ := getLast?_eq_some_iff.mp hlast
  rw [h.numbers_concat.2, length_append, length_singleton]

theorem Chain.of_content {revisions revisions' : List GraphRevisionRecord} (h : Chain revisions)
    (hcontent : revisions'.map content =
      revisions.map content) : Chain revisions' := by
  have hlength : revisions'.length = revisions.length := by
    simpa using congrArg length hcontent
  have hget : ∀ i : Nat, revisions'[i]?.map content =
      revisions[i]?.map content := by
    intro i
    rw [← getElem?_map, hcontent, getElem?_map]
  have hparent : ∀ (i : Nat) record', revisions'[i]? = some record' →
      ∃ record, revisions[i]? = some record ∧ record'.parentRevisionId = record.parentRevisionId := by
    intro i record' hrecord'
    have hi := hget i
    rw [hrecord', Option.map_some] at hi
    obtain ⟨record, hrecord, heq⟩ := Option.map_eq_some_iff.mp hi.symm
    exact ⟨record, hrecord, (congrArg parentRevisionId heq).symm⟩
  have hid : ∀ i : Nat, revisions'[i]?.map (·.id) = revisions[i]?.map (·.id) := by
    intro i
    have hi := congrArg (Option.map GraphRevisionRecord.id) (hget i)
    rw [Option.map_map, Option.map_map] at hi
    exact hi
  refine ⟨?_, ?_, ?_⟩
  · have hnumbers := congrArg (map revisionNumber) hcontent
    rw [map_map, map_map] at hnumbers
    rw [hlength, ← h.numbers]
    exact hnumbers
  · intro record' hrecord'
    obtain ⟨record, hrecord, heq⟩ := hparent 0 record' hrecord'
    rw [heq, h.first record hrecord]
  · intro i record' hrecord'
    obtain ⟨record, hrecord, heq⟩ := hparent (i + 1) record' hrecord'
    rw [heq, h.parents i record hrecord, hid]

namespace RevisionStore

def Chained (store : RevisionStore) : Prop :=
  ∀ workspaceId graphId, Chain (store.revisionsOf workspaceId graphId)

/-- The row follows the current revision of its graph. -/
structure Follows (store : RevisionStore) (record : GraphRevisionRecord) : Prop where
  allowed : store.Allows record
  bounded : record.revisionNumber ≤ i64Max
  number : record.revisionNumber =
    nextNumber (store.currentRevision record.workspaceId record.graphId)
  parent : record.parentRevisionId =
    (store.currentRevision record.workspaceId record.graphId).map (·.id)

def append (store : RevisionStore) (record : GraphRevisionRecord) : RevisionStore :=
  { store with revisions := store.revisions ++ [record] }

theorem insert_eq_ok :
    store.insert record = .ok store' ↔
      record.revisionNumber ≤ i64Max ∧ store.Allows record ∧ store' = store.append record := by
  unfold insert
  simp only [bind_eq_ok, require_eq_ok, exists_unit_iff]
  refine and_congr_right fun _ => and_congr_right fun _ => ?_
  exact ⟨fun h => (Except.ok.inj h).symm, fun h => congrArg Except.ok h.symm⟩

/-- What a call may do to the table. -/
inductive Effect (store : RevisionStore) : RevisionStore → Prop where
  | same : Effect store store
  | append (record : GraphRevisionRecord) (h : store.Follows record) :
    Effect store (store.append record)
  | link (f : GraphRevisionRecord → GraphRevisionRecord) (h : ∀ r, (f r).content = r.content) :
    Effect store { store with revisions := store.revisions.map f }

theorem forM_expected {expected : Option ExpectedRevision}
    {check : ExpectedRevision → Except StorageError Unit} {u : Unit} :
    expected.forM check = .ok u ↔ ∀ e, expected = some e → check e = .ok () := by
  cases expected with
  | none => simp [Option.forM]
  | some e => simp [Option.forM]

/-- The body of a save returns the unchanged revision or appends after the current one. -/
theorem saveBody_eq_ok {workspaceId graphId : Uuid} {expected : Option ExpectedRevision}
    {draft : RevisionDraft} {revisionId : Uuid} {now : Instant} {result : GraphRevisionRecord ⊕ Nat} :
    store.saveBody workspaceId graphId expected draft revisionId now = .ok (result, store') ↔
      (∃ current, store.currentRevision workspaceId graphId = some current ∧
        current.SameContent draft ∧ result = .inl current ∧ store' = store) ∨
      (∀ current, store.currentRevision workspaceId graphId = some current →
        ¬current.SameContent draft) ∧
      (∀ e, expected = some e →
        checkExpected graphId (store.currentRevision workspaceId graphId) e = .ok ()) ∧
      result = .inr (nextNumber (store.currentRevision workspaceId graphId)) ∧
      store.insert (draft.record workspaceId graphId
        (store.currentRevision workspaceId graphId) revisionId now) = .ok store' := by
  have hinsert : ∀ current, (do
      expected.forM (checkExpected graphId current)
      return (Sum.inr (draft.record workspaceId graphId current revisionId now).revisionNumber,
        ← store.insert (draft.record workspaceId graphId current revisionId now))) =
        Except.ok (result, store') ↔
      (∀ e, expected = some e → checkExpected graphId current e = .ok ()) ∧
      result = .inr (nextNumber current) ∧
      store.insert (draft.record workspaceId graphId current revisionId now) = .ok store' := by
    intro current
    simp only [bind_eq_ok, forM_expected, exists_unit_iff]
    refine and_congr_right fun _ => ⟨?_, ?_⟩
    · rintro ⟨inserted, hinserted, h⟩
      cases h
      exact ⟨rfl, hinserted⟩
    · rintro ⟨rfl, h⟩
      exact ⟨store', h, rfl⟩
  unfold saveBody
  cases hcurrent : store.currentRevision workspaceId graphId with
  | none => simpa using hinsert none
  | some current =>
    by_cases hsame : current.SameContent draft
    · simp only [hsame, if_true, Option.some.injEq, exists_eq_left', true_and]
      constructor
      · intro h
        cases h
        exact .inl ⟨rfl, rfl⟩
      · rintro (⟨rfl, rfl⟩ | ⟨hother, -⟩)
        · rfl
        · exact absurd hsame (hother current rfl)
    · simp only [hsame, if_false, Option.some.injEq, exists_eq_left', false_and, false_or,
        forall_eq', not_false_eq_true, true_and]
      exact hinsert (some current)

theorem migrateBody_eq_ok {parent : GraphRevisionRecord} {toFormatVersion : UInt16}
    {json digest : String} {migration : Value} {revisionId : Uuid} {now : Instant} {number : Nat}
    (h : store.migrateBody parent toFormatVersion json digest migration revisionId now =
      .ok (number, store')) : ∃ record, store.Follows record ∧ store' = store.append record := by
  obtain ⟨_, hparent, h⟩ := of_bind h
  rw [require_eq_ok] at hparent
  obtain ⟨inserted, hinserted, h⟩ := of_bind h
  cases h
  obtain ⟨hbounded, hallowed, hstore⟩ := insert_eq_ok.mp hinserted
  exact ⟨_, ⟨hallowed, hbounded, rfl, hparent.symm⟩, hstore⟩

theorem effect_save (store : RevisionStore) (access : Access) (workspaceId graphId : Uuid)
    (expected : Option ExpectedRevision) (draft : RevisionDraft) (revisionId : Uuid)
    (now : Instant) :
    store.Effect (store.save access workspaceId graphId expected draft revisionId now).2 := by
  unfold save
  rcases transact_cases access store
    (store.saveBody workspaceId graphId expected draft revisionId now) with
    ⟨fault, h⟩ | ⟨-, result, store', hbody, h⟩
  · rw [h]
    exact .same
  · rw [h]
    rcases saveBody_eq_ok.mp hbody with ⟨current, -, -, rfl, rfl⟩ | ⟨-, -, rfl, hinsert⟩
    · exact .same
    · obtain ⟨hbounded, hallowed, rfl⟩ := insert_eq_ok.mp hinsert
      exact .append _ ⟨hallowed, hbounded, rfl, rfl⟩

theorem effect_linkPlanVersion (store : RevisionStore) (access : Access)
    (workspaceId graphId planVersionId : Uuid) :
    store.Effect (store.linkPlanVersion access workspaceId graphId planVersionId).2 := by
  unfold linkPlanVersion
  rcases transact_cases access store (store.linkBody workspaceId graphId planVersionId) with
    ⟨fault, h⟩ | ⟨-, number, store', hbody, h⟩
  · rw [h]
    exact .same
  · rw [h]
    obtain ⟨current, -, hbody⟩ := of_bind hbody
    obtain ⟨_, -, hbody⟩ := of_bind hbody
    cases hbody
    refine .link _ fun record => ?_
    split_ifs <;> rfl

theorem effect_appendMigrated (store : RevisionStore) (access : Access)
    (parent : GraphRevisionRecord) (toFormatVersion : UInt16) (json digest : String)
    (migration : Value) (revisionId : Uuid) (now : Instant) :
    store.Effect (store.appendMigrated access parent toFormatVersion json digest migration
      revisionId now).2 := by
  unfold appendMigrated
  rcases transact_cases access store (store.migrateBody parent toFormatVersion json digest
    migration revisionId now) with ⟨fault, h⟩ | ⟨-, number, store', hbody, h⟩
  · rw [h]
    exact .same
  · rw [h]
    obtain ⟨record, hfollows, rfl⟩ := migrateBody_eq_ok hbody
    exact .append record hfollows

theorem effect_call (store : RevisionStore) (call : RevisionCall) :
    store.Effect (revisionMachine.next store call) := by
  cases call with
  | save access workspaceId graphId expected draft revisionId now =>
    exact store.effect_save access workspaceId graphId expected draft revisionId now
  | linkPlanVersion access workspaceId graphId planVersionId =>
    exact store.effect_linkPlanVersion access workspaceId graphId planVersionId
  | appendMigrated access parent toFormatVersion json digest migration revisionId now =>
    exact store.effect_appendMigrated access parent toFormatVersion json digest migration
      revisionId now

theorem revisionsOf_append (store : RevisionStore) (record : GraphRevisionRecord)
    (workspaceId graphId : Uuid) :
    (store.append record).revisionsOf workspaceId graphId =
      store.revisionsOf workspaceId graphId ++
        if record.InGraph workspaceId graphId then [record] else [] := by
  rw [revisionsOf, append, filter_append]
  split_ifs with h <;> simp [h, revisionsOf]

theorem revisionsOf_map (store : RevisionStore) {f : GraphRevisionRecord → GraphRevisionRecord}
    (h : ∀ r, (f r).content = r.content) (workspaceId graphId : Uuid) :
    revisionsOf { store with revisions := store.revisions.map f } workspaceId graphId =
      (store.revisionsOf workspaceId graphId).map f := by
  have hin : ∀ r, (f r).InGraph workspaceId graphId ↔ r.InGraph workspaceId graphId := by
    intro r
    have hworkspace := congrArg GraphRevisionRecord.workspaceId (h r)
    have hgraph := congrArg GraphRevisionRecord.graphId (h r)
    exact and_congr (Eq.congr_left hworkspace) (Eq.congr_left hgraph)
  rw [revisionsOf, revisionsOf, filter_map]
  congr 1
  exact filter_congr fun r _ => by simp [hin r]

theorem Chained.currentRevision_eq (h : store.Chained) (workspaceId graphId : Uuid) :
    store.currentRevision workspaceId graphId =
      (store.revisionsOf workspaceId graphId).getLast? := by
  rw [← (h workspaceId graphId).argmax_eq, currentRevision, fetchFull]
  simp

theorem Chained.nextNumber_eq (h : store.Chained) (workspaceId graphId : Uuid) :
    nextNumber (store.currentRevision workspaceId graphId) =
      (store.revisionsOf workspaceId graphId).length + 1 := by
  rw [h.currentRevision_eq]
  cases hlast : (store.revisionsOf workspaceId graphId).getLast? with
  | none =>
    rw [getLast?_eq_none_iff.mp hlast]
    rfl
  | some last =>
    rw [nextNumber, Option.map_some, Option.getD_some,
      (h workspaceId graphId).getLast?_number hlast]

def contents (store : RevisionStore) (workspaceId graphId : Uuid) : List GraphRevisionRecord :=
  (store.revisionsOf workspaceId graphId).map GraphRevisionRecord.content

theorem Effect.contents_grow (h : store.Effect store') (workspaceId graphId : Uuid) :
    store.contents workspaceId graphId <+: store'.contents workspaceId graphId := by
  cases h with
  | same => exact prefix_rfl
  | append record _ =>
    rw [contents, contents, revisionsOf_append, map_append]
    exact prefix_append _ _
  | link f hf =>
    rw [contents, contents, revisionsOf_map store hf, map_map]
    rw [show content ∘ f = content from funext hf]

theorem Effect.chained (h : store.Effect store') (hchained : store.Chained) : store'.Chained := by
  intro workspaceId graphId
  cases h with
  | same => exact hchained workspaceId graphId
  | append record hfollows =>
    rw [revisionsOf_append]
    split_ifs with hin
    · obtain ⟨rfl, rfl⟩ := hin
      refine (hchained _ _).snoc ?_ ?_
      · rw [hfollows.number, hchained.nextNumber_eq]
      · rw [hfollows.parent, hchained.currentRevision_eq]
    · rw [append_nil]
      exact hchained workspaceId graphId
  | link f hf =>
    rw [revisionsOf_map store hf]
    refine (hchained workspaceId graphId).of_content ?_
    rw [map_map]
    exact map_congr_left fun r _ => hf r

theorem chained_next (store : RevisionStore) (call : RevisionCall) (h : store.Chained) :
    (revisionMachine.next store call).Chained :=
  (store.effect_call call).chained h

theorem contents_run (store : RevisionStore) (calls : List RevisionCall)
    (workspaceId graphId : Uuid) :
    store.contents workspaceId graphId <+:
      (revisionMachine.run store calls).contents workspaceId graphId := by
  induction calls generalizing store with
  | nil => exact prefix_rfl
  | cons call calls ih =>
    exact ((store.effect_call call).contents_grow workspaceId graphId).trans (ih _)

theorem chained_empty (workspaces : List Uuid) : Chained ⟨workspaces, []⟩ :=
  fun _ _ => chain_nil

end RevisionStore

end Stillflow.Storage
