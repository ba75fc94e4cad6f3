import Stillflow.Storage.RevisionChain

/-! Editors of one graph. -/

namespace Stillflow.Storage

open Stillflow.Core Lib.Fallible Lib.Machine List

variable {access : Access} {current record : GraphRevisionRecord} {draft : RevisionDraft}
  {e : ExpectedRevision} {graphId revisionId workspaceId : Uuid} {now : Instant}
  {store : RevisionStore}

/-- The call appended this row. -/
def RevisionStore.Appended (store : RevisionStore) (call : RevisionCall)
    (record : GraphRevisionRecord) : Prop :=
  (revisionMachine.next store call).revisions = store.revisions ++ [record]

/-- A save that appends a revision after a first one names the revision before it and, where it
gives one, its digest. -/
def KeepsEdits (store : RevisionStore) : RevisionCall → Prop
  | .save access workspaceId graphId expected draft revisionId now =>
    ∀ record k, store.Appended (.save access workspaceId graphId expected draft revisionId now)
        record → record.revisionNumber = k + 1 → 1 ≤ k →
      ∃ e, expected = some e ∧ e.number = k ∧ ∀ digest, e.digest = some digest →
        ∃ before ∈ store.revisionsOf workspaceId graphId, before.revisionNumber = k ∧
          before.graphDigest = digest
  | _ => True

/-- The table takes the row that follows the current revision. -/
def RevisionStore.Takes (store : RevisionStore) (record : GraphRevisionRecord) : Prop :=
  record.revisionNumber ≤ i64Max ∧ store.Allows record

/-- A save without an expectation meets no revision with other content, or is refused. -/
def Guarded (store : RevisionStore) : RevisionCall → Prop
  | .save access workspaceId graphId none draft revisionId now =>
    ∀ current, store.currentRevision workspaceId graphId = some current →
      current.SameContent draft ∨ ¬access.Granted ∨
        ¬store.Takes (draft.record workspaceId graphId (some current) revisionId now)
  | _ => True

namespace RevisionStore

theorem append_revisions_ne (store : RevisionStore) (record : GraphRevisionRecord) :
    store.revisions ≠ store.revisions ++ [record] := by
  intro h
  have := congrArg List.length h
  simp at this

theorem save_next (store : RevisionStore) (access : Access) (workspaceId graphId : Uuid)
    (expected : Option ExpectedRevision) (draft : RevisionDraft) (revisionId : Uuid)
    (now : Instant) :
    revisionMachine.next store
        (.save access workspaceId graphId expected draft revisionId now) =
      (transact access store
        (store.saveBody workspaceId graphId expected draft revisionId now)).2 := by
  change (store.save access workspaceId graphId expected draft revisionId now).2 = _
  unfold save
  split <;> rename_i h <;> rw [h]

theorem appended_save_iff {expected : Option ExpectedRevision} :
    store.Appended (.save access workspaceId graphId expected draft revisionId now) record ↔
      access.Granted ∧
      (∀ current, store.currentRevision workspaceId graphId = some current →
        ¬current.SameContent draft) ∧
      (∀ e, expected = some e →
        checkExpected graphId (store.currentRevision workspaceId graphId) e = .ok ()) ∧
      record = draft.record workspaceId graphId
        (store.currentRevision workspaceId graphId) revisionId now ∧ store.Takes record := by
  rw [Appended, save_next]
  constructor
  · intro h
    rcases transact_cases access store
      (store.saveBody workspaceId graphId expected draft revisionId now) with
      ⟨fault, hrun⟩ | ⟨hgranted, result, store', hbody, hrun⟩
    · rw [hrun] at h
      exact absurd h (store.append_revisions_ne record)
    · rw [hrun] at h
      rcases saveBody_eq_ok.mp hbody with ⟨current, -, -, -, rfl⟩ | ⟨hother, hcheck, -, hinsert⟩
      · exact absurd h (store'.append_revisions_ne record)
      · obtain ⟨hbounded, hallowed, rfl⟩ := insert_eq_ok.mp hinsert
        have hrecord := singleton_inj.mp (append_cancel_left h)
        rw [← hrecord]
        exact ⟨hgranted, hother, hcheck, rfl, hbounded, hallowed⟩
  · rintro ⟨hgranted, hother, hcheck, rfl, htakes⟩
    have hinsert := insert_eq_ok.mpr ⟨htakes.1, htakes.2, rfl⟩
    have hbody := saveBody_eq_ok.mpr (.inr ⟨hother, hcheck, rfl, hinsert⟩)
    rw [hbody, transact_granted hgranted]
    rfl

theorem checkExpected_eq_ok (h : checkExpected graphId (some current) e = .ok ()) :
    current.revisionNumber = e.number ∧
      ∀ digest, e.digest = some digest → current.graphDigest = digest := by
  simp only [checkExpected] at h
  split_ifs at h with hnumber
  refine ⟨hnumber, fun digest hdigest => ?_⟩
  rw [require_eq_ok, hdigest] at h
  simpa using h

theorem Chained.current_mem (hchained : store.Chained)
    (h : store.currentRevision workspaceId graphId = some current) :
    current ∈ store.revisionsOf workspaceId graphId ∧
      current.revisionNumber = (store.revisionsOf workspaceId graphId).length := by
  rw [hchained.currentRevision_eq] at h
  exact ⟨mem_of_getLast? h, (hchained workspaceId graphId).getLast?_number h⟩

/-- A save keeps earlier edits exactly when it is guarded. -/
theorem keepsEdits_iff (hchained : store.Chained) (call : RevisionCall) :
    KeepsEdits store call ↔ Guarded store call := by
  cases call with
  | save access workspaceId graphId expected draft revisionId now =>
    constructor
    · intro hkeeps
      cases expected with
      | some e => trivial
      | none =>
        intro current hcurrent
        by_contra hopen
        push Not at hopen
        obtain ⟨hother, hgranted, htakes⟩ := hopen
        have hnumber := (hchained.current_mem hcurrent).2
        have hpos := (number_le_of_numbers (hchained workspaceId graphId).numbers
          (hchained.current_mem hcurrent).1).1
        have happended : store.Appended
            (.save access workspaceId graphId none draft revisionId now)
            (draft.record workspaceId graphId (some current) revisionId now) := by
          refine appended_save_iff.mpr ⟨hgranted, ?_, fun e he => (by cases he), ?_, htakes⟩
          · intro other hsome
            cases hcurrent.symm.trans hsome
            exact hother
          · rw [hcurrent]
        obtain ⟨e, he, -⟩ := hkeeps _ current.revisionNumber happended rfl hpos
        cases he
    · intro hguarded record k happended hnumber hk
      obtain ⟨hgranted, hother, hcheck, rfl, htakes⟩ := appended_save_iff.mp happended
      cases hcurrent : store.currentRevision workspaceId graphId with
      | none =>
        rw [hcurrent] at hnumber
        have : 1 = k + 1 := hnumber
        omega
      | some current =>
        rw [hcurrent] at hnumber hcheck htakes
        have hk' : current.revisionNumber = k := Nat.succ_injective hnumber
        cases expected with
        | none =>
          rcases hguarded current hcurrent with hsame | hrefused | hnot
          · exact absurd hsame (hother current hcurrent)
          · exact absurd hgranted hrefused
          · exact absurd htakes hnot
        | some e =>
          obtain ⟨hexpected, hdigest⟩ := checkExpected_eq_ok (hcheck e rfl)
          refine ⟨e, rfl, hexpected.symm.trans hk', fun digest hsome => ?_⟩
          exact ⟨current, (hchained.current_mem hcurrent).1, hk', hdigest digest hsome⟩
  | linkPlanVersion access workspaceId graphId planVersionId => exact Iff.rfl
  | appendMigrated access parent toFormatVersion json digest migration revisionId now =>
    exact Iff.rfl

/-- What a save answers that names a revision older than the current one. -/
def Superseded (graphId : Uuid) (access : Access) (draft : RevisionDraft)
    (answer : RevisionAnswer) : Prop :=
  (∃ fault, answer = .save (.error fault) ∧ (fault = .alreadyExists graphId ∨
    access.refused = some fault ∨ access.commit = some fault)) ∨
  ∃ current, answer = .save (.ok (.current current)) ∧ current.SameContent draft

theorem transact_error_cases {σ α : Type} {db : σ} {fault : StorageError}
    {body : Except StorageError (α × σ)} (h : (transact access db body).1 = .error fault) :
    access.refused = some fault ∨ body = .error fault ∨ access.commit = some fault := by
  unfold transact at h
  cases hrefused : access.refused with
  | some other =>
    rw [hrefused] at h
    cases h
    exact .inl rfl
  | none =>
    rw [hrefused] at h
    cases body with
    | error other =>
      cases h
      exact .inr (.inl rfl)
    | ok result =>
      cases hcommit : access.commit with
      | some other =>
        rw [hcommit] at h
        cases h
        exact .inr (.inr rfl)
      | none =>
        rw [hcommit] at h
        cases h

theorem superseded_of_lt (hcurrent : store.currentRevision workspaceId graphId = some current)
    (hgraph : current.graphId = graphId) (hlt : e.number < current.revisionNumber) :
    revisionMachine.next store
        (.save access workspaceId graphId (some e) draft revisionId now) = store ∧
      Superseded graphId access draft (revisionMachine.answer store
        (.save access workspaceId graphId (some e) draft revisionId now)) := by
  have hbody : store.saveBody workspaceId graphId (some e) draft revisionId now =
      if current.SameContent draft then .ok (.inl current, store)
      else .error (.alreadyExists graphId) := by
    have hne : current.revisionNumber ≠ e.number := by omega
    unfold saveBody
    rw [hcurrent]
    simp only [Option.forM, checkExpected, hne, if_false, error_bind, conflict, hgraph]
  rw [save_next, hbody]
  change _ ∧ Superseded graphId access draft
    (.save (store.save access workspaceId graphId (some e) draft revisionId now).1)
  unfold save
  rw [hbody]
  split_ifs with hsame
  · rcases transact_cases access store
      (.ok (Sum.inl current, store) : Except StorageError ((GraphRevisionRecord ⊕ Nat) × _)) with
      ⟨fault, h⟩ | ⟨-, a, store', hok, h⟩
    · have hcases := transact_error_cases (congrArg Prod.fst h)
      rw [h]
      refine ⟨rfl, .inl ⟨fault, rfl, ?_⟩⟩
      rcases hcases with hrefused | hnever | hcommit
      · exact .inr (.inl hrefused)
      · cases hnever
      · exact .inr (.inr hcommit)
    · cases hok
      rw [h]
      exact ⟨rfl, .inr ⟨current, rfl, hsame⟩⟩
  · obtain ⟨fault, h⟩ := @transact_error RevisionStore (GraphRevisionRecord ⊕ Nat) access store
      (.alreadyExists graphId)
    have hcases := transact_error_cases (congrArg Prod.fst h)
    rw [h]
    refine ⟨rfl, .inl ⟨fault, rfl, ?_⟩⟩
    rcases hcases with hrefused | hconflict | hcommit
    · exact .inr (.inl hrefused)
    · cases hconflict
      exact .inl rfl
    · exact .inr (.inr hcommit)

theorem exists_current_ge (hchained : store.Chained) {call : RevisionCall}
    (happended : store.Appended call record) (calls : List RevisionCall) :
    ∃ current, (revisionMachine.run (revisionMachine.next store call) calls).currentRevision
        record.workspaceId record.graphId = some current ∧
      current.graphId = record.graphId ∧ record.revisionNumber ≤ current.revisionNumber := by
  have hnext := chained_next store call hchained
  have hfinal := run_invariant chained_next hnext calls
  have hmem : record.content ∈ (revisionMachine.next store call).contents record.workspaceId
      record.graphId := by
    refine mem_map_of_mem (mem_filter.mpr ⟨?_, by simp [GraphRevisionRecord.InGraph]⟩)
    rw [happended]
    exact mem_append_right _ mem_cons_self
  have hkept := (contents_run (revisionMachine.next store call) calls record.workspaceId
    record.graphId).subset hmem
  obtain ⟨kept, hkeptMem, hkeptEq⟩ := mem_map.mp hkept
  have hnumber : kept.revisionNumber = record.revisionNumber := by
    change kept.content.revisionNumber = record.content.revisionNumber
    rw [hkeptEq]
  have hle := (number_le_of_numbers (hfinal _ _).numbers hkeptMem).2
  cases hcurrent : (revisionMachine.run (revisionMachine.next store call) calls).currentRevision
      record.workspaceId record.graphId with
  | none =>
    rw [hfinal.currentRevision_eq, getLast?_eq_none_iff] at hcurrent
    rw [hcurrent] at hkeptMem
    cases hkeptMem
  | some current =>
    obtain ⟨hcurrentMem, hlength⟩ := hfinal.current_mem hcurrent
    have hin := of_decide_eq_true (mem_filter.mp hcurrentMem).2
    exact ⟨current, rfl, hin.2, by omega⟩

/-- Of two saves that name the same revision of a graph, the later one appends nothing if the
earlier one appended. -/
theorem superseded_of_appended {start : RevisionStore} (hchained : start.Chained)
    {calls : List RevisionCall} {before mid after : List (RevisionStore × RevisionCall)}
    {store store' : RevisionStore} {access access' : Access} {e e' : ExpectedRevision}
    {draft draft' : RevisionDraft} {revisionId revisionId' : Uuid} {now now' : Instant}
    (hbase : e.number = e'.number)
    (htrace : revisionMachine.trace start calls = before ++
      (store, .save access workspaceId graphId (some e) draft revisionId now) :: mid ++
      (store', .save access' workspaceId graphId (some e') draft' revisionId' now') :: after)
    (happended : store.Appended
      (.save access workspaceId graphId (some e) draft revisionId now) record) :
    revisionMachine.next store'
        (.save access' workspaceId graphId (some e') draft' revisionId' now') = store' ∧
      Superseded graphId access' draft' (revisionMachine.answer store'
        (.save access' workspaceId graphId (some e') draft' revisionId' now')) := by
  rw [append_assoc, cons_append] at htrace
  obtain ⟨xs, ys, -, -, hstore, hafter⟩ := revisionMachine.exists_of_trace_eq htrace
  obtain ⟨zs, _, -, -, hstore', -⟩ := revisionMachine.exists_of_trace_eq hafter.symm
  have hreached : store.Chained := by
    rw [show store = _ from hstore]
    exact run_invariant chained_next hchained xs
  obtain ⟨-, -, hcheck, hrecord, -⟩ := appended_save_iff.mp happended
  have hexpected := hcheck e rfl
  obtain ⟨current, hcurrent, hgraph, hge⟩ := exists_current_ge hreached happended zs
  rw [hrecord] at hcurrent hgraph hge
  cases hbefore : store.currentRevision workspaceId graphId with
  | none =>
    rw [hbefore] at hexpected
    cases hexpected
  | some base =>
    rw [hbefore] at hexpected hge
    have hnumber := (checkExpected_eq_ok hexpected).1
    have hlt : e'.number < current.revisionNumber := by
      have : base.revisionNumber + 1 ≤ current.revisionNumber := hge
      omega
    rw [show store' = _ from hstore']
    exact superseded_of_lt hcurrent hgraph hlt

end RevisionStore

/-- Over any calls, revisions form chains whose contents only grow, and of two saves based on the
same revision at most one appends. Every save names what it appends to exactly when every save
without an expectation finds no revision with other content or is refused. -/
theorem graph_revisions_chain (workspaces : List Uuid) (calls : List RevisionCall) :
    (∀ workspaceId graphId,
      Chain ((revisionMachine.run ⟨workspaces, []⟩ calls).revisionsOf workspaceId graphId)) ∧
    (∀ later workspaceId graphId,
      (revisionMachine.run ⟨workspaces, []⟩ calls).contents workspaceId graphId <+:
        (revisionMachine.run ⟨workspaces, []⟩ (calls ++ later)).contents workspaceId graphId) ∧
    (∀ before mid after store store' access access' workspaceId graphId e e' draft draft'
        revisionId revisionId' now now' record,
      revisionMachine.trace ⟨workspaces, []⟩ calls = before ++
        (store, .save access workspaceId graphId (some e) draft revisionId now) :: mid ++
        (store', .save access' workspaceId graphId (some e') draft' revisionId' now') :: after →
      e.number = e'.number →
      store.Appended (.save access workspaceId graphId (some e) draft revisionId now) record →
      revisionMachine.next store'
          (.save access' workspaceId graphId (some e') draft' revisionId' now') = store' ∧
        RevisionStore.Superseded graphId access' draft' (revisionMachine.answer store'
          (.save access' workspaceId graphId (some e') draft' revisionId' now'))) ∧
    ((∀ event ∈ revisionMachine.trace ⟨workspaces, []⟩ calls, KeepsEdits event.1 event.2) ↔
      ∀ event ∈ revisionMachine.trace ⟨workspaces, []⟩ calls, Guarded event.1 event.2) := by
  have hempty := RevisionStore.chained_empty workspaces
  refine ⟨run_invariant RevisionStore.chained_next hempty calls, ?_, ?_, ?_⟩
  · intro later workspaceId graphId
    rw [run_append]
    exact RevisionStore.contents_run _ later workspaceId graphId
  · intro before mid after store store' access access' workspaceId graphId e e' draft draft'
      revisionId revisionId' now now' record htrace hbase happended
    exact RevisionStore.superseded_of_appended hempty hbase htrace happended
  · refine forall₂_congr fun event hevent => ?_
    exact RevisionStore.keepsEdits_iff (trace_invariant RevisionStore.chained_next hempty hevent)
      event.2

def sampleDraft (letter : Char) : RevisionDraft :=
  ⟨1, String.ofList [letter], String.ofList (List.replicate 64 letter), none, none, none, "editor"⟩

def sampleSave (expected : Option Nat) (letter : Char) : RevisionCall :=
  .save {} 1 2 (expected.map (⟨·, none⟩)) (sampleDraft letter) (BitVec.ofNat 128 letter.toNat) 0

theorem graph_revisions_chain_twoEditors :
    revisionMachine.trace ⟨[1], []⟩ [sampleSave none 'a', sampleSave (some 1) 'b',
        sampleSave (some 1) 'c'] =
      [(⟨[1], []⟩, sampleSave none 'a')] ++
        (revisionMachine.run ⟨[1], []⟩ [sampleSave none 'a'], sampleSave (some 1) 'b') :: [] ++
        (revisionMachine.run ⟨[1], []⟩ [sampleSave none 'a', sampleSave (some 1) 'b'],
          sampleSave (some 1) 'c') :: [] ∧
    RevisionStore.Superseded 2 {} (sampleDraft 'c') (revisionMachine.answer
      (revisionMachine.run ⟨[1], []⟩ [sampleSave none 'a', sampleSave (some 1) 'b'])
      (sampleSave (some 1) 'c')) := by
  refine ⟨rfl, ?_⟩
  have happended : (revisionMachine.run ⟨[1], []⟩ [sampleSave none 'a']).Appended
      (sampleSave (some 1) 'b') ((sampleDraft 'b').record 1 2
        (RevisionStore.currentRevision (revisionMachine.run ⟨[1], []⟩ [sampleSave none 'a']) 1 2)
        98 0) := rfl
  exact ((graph_revisions_chain [1] [sampleSave none 'a', sampleSave (some 1) 'b',
    sampleSave (some 1) 'c']).2.2.1 [(⟨[1], []⟩, sampleSave none 'a')] [] [] _ _ _ _ _ _ _ _ _ _ _
    _ _ _ _ rfl rfl happended).2

/-- A save that names no revision appends over an edit it has not seen. -/
theorem save_without_expectation_overwrites :
    ¬KeepsEdits (revisionMachine.run ⟨[1], []⟩ [sampleSave none 'a', sampleSave (some 1) 'b'])
      (sampleSave none 'c') := by
  intro hkeeps
  obtain ⟨e, he, -⟩ := hkeeps _ 2 rfl rfl (by decide)
  cases he

end Stillflow.Storage
