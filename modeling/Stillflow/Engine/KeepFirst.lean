import Stillflow.Engine.RowRouting
import Stillflow.Engine.KeyEquality
import Stillflow.Lib.KeepFirst

/-! Deduplication over whole runs. -/

namespace Stillflow.Engine

open Stillflow.Core Stillflow.Plan Lib.Fallible Lib.Mask Lib.Visits Lib.KeepFirst List

variable {env : VerificationEnv} {ledger : Ledger} {origin : Origin} {past : List Visit}
  {state state' : Routing}

/-- A row that reaches a Deduplicate rule, with its typed key cells. -/
structure Arrival where
  nodeId : Uuid
  ruleOrdinal : Nat
  cells : List (LogicalType × AnyValue)
  ordinal : Nat

/-- Two arrivals at one rule with equal key tuples. -/
def Arrival.SameKey (a b : Arrival) : Prop :=
  a.nodeId = b.nodeId ∧ a.ruleOrdinal = b.ruleOrdinal ∧
    ∃ values values', keyTuple a.cells = .ok values ∧ keyTuple b.cells = .ok values' ∧
      List.Forall₂ KeyValue.Same values values'

def Visit.arrivals (v : Visit) : List Arrival :=
  match v.step with
  | .deduplicate nodeId ruleOrdinal keys keyTypes =>
    match keyColumns v.state.window keys with
    | .error _ => []
    | .ok columns => (v.state.window.frame.rows.zip v.state.window.sidecar).map fun row =>
      ⟨nodeId, ruleOrdinal,
        (DedupRule.cells ⟨nodeId, ruleOrdinal, columns, keyTypes, 0⟩ row.1).getD [], row.2.2⟩
  | _ => []

/-- Everything that reaches a Deduplicate rule in a run. -/
def VerificationEnv.arrivals (env : VerificationEnv) (envelopes : List BatchEnvelope) :
    List Arrival :=
  (env.runVisits envelopes).flatMap Visit.arrivals

def Arrival.keyBytes (a : Arrival) : KeyBytes :=
  match encodeKey a.cells [] with
  | .ok bytes => bytes
  | .error _ => []

/-- What the index is asked for an arrival. -/
def Arrival.entry (a : Arrival) : DedupKey × Nat :=
  (⟨a.nodeId, a.ruleOrdinal, a.keyBytes⟩, a.ordinal)

def DupFindingRow.reported (f : DupFindingRow) : (Uuid × Nat) × Nat × Nat :=
  ((f.nodeId, f.ruleOrdinal), f.ordinal, f.firstOrdinal)

def RejectedEntry.rejection (e : RejectedEntry) : (Uuid × Nat) × Nat :=
  ((e.nodeId, e.ruleOrdinal), e.ordinal)

def duplicateRejections (ledger : Ledger) : List RejectedEntry :=
  ledger.rejected.filter fun entry => entry.kind == "duplicate"

/-- What the repeated ones among some index entries are reported as. -/
def reportedOf (entries : List (DedupKey × Nat)) (firsts : List (Option Nat)) :
    List ((Uuid × Nat) × Nat × Nat) :=
  (entries.zip firsts).filterMap fun p => p.2.map fun first =>
    ((p.1.1.nodeId, p.1.1.ruleOrdinal), p.1.2, first)

def rejectedOf (entries : List (DedupKey × Nat)) (firsts : List (Option Nat)) :
    List ((Uuid × Nat) × Nat) :=
  (entries.zip firsts).filterMap fun p => p.2.map fun _ =>
    ((p.1.1.nodeId, p.1.1.ruleOrdinal), p.1.2)

/-- The index answers like the history, and its answers are reported and rejected. -/
structure KeptFirst (past : List (DedupKey × Nat)) (ledger : Ledger) : Prop where
  index : Answers ledger.index past
  findings : ledger.dupFindings.map DupFindingRow.reported = reportedOf past (repeats [] past)
  rejected : (duplicateRejections ledger).map RejectedEntry.rejection =
    rejectedOf past (repeats [] past)

theorem keptFirst_start (env : VerificationEnv) : KeptFirst [] env.start.ledger where
  index _ := rfl
  findings := rfl
  rejected := rfl

theorem reportedOf_append (past more : List (DedupKey × Nat)) :
    reportedOf (past ++ more) (repeats [] (past ++ more)) =
      reportedOf past (repeats [] past) ++ reportedOf more (repeats past more) := by
  rw [repeats_append, reportedOf, zip_append (length_repeats [] past).symm,
    filterMap_append]
  rfl

theorem rejectedOf_append (past more : List (DedupKey × Nat)) :
    rejectedOf (past ++ more) (repeats [] (past ++ more)) =
      rejectedOf past (repeats [] past) ++ rejectedOf more (repeats past more) := by
  rw [repeats_append, rejectedOf, zip_append (length_repeats [] past).symm,
    filterMap_append]
  rfl

theorem dedupKeys_repeats (rule : DedupRule) {entries past : List (DedupKey × Nat)}
    (hrule : ∀ e ∈ entries, e.1.nodeId = rule.nodeId ∧ e.1.ruleOrdinal = rule.ruleOrdinal)
    (h : Answers ledger.index past) :
    Answers (ledger.dedupKeys rule entries).1.index (past ++ entries) ∧
      (ledger.dedupKeys rule entries).2 = (repeats past entries).map Option.isSome ∧
      (ledger.dedupKeys rule entries).1.dupFindings.map DupFindingRow.reported =
        ledger.dupFindings.map DupFindingRow.reported ++
          reportedOf entries (repeats past entries) := by
  induction entries generalizing past ledger with
  | nil => exact ⟨by simpa [Ledger.dedupKeys] using h, rfl, by simp [Ledger.dedupKeys, reportedOf]⟩
  | cons entry rest ih =>
    have hrest : ∀ e ∈ rest, e.1.nodeId = rule.nodeId ∧ e.1.ruleOrdinal = rule.ruleOrdinal :=
      fun e he => hrule e (mem_cons_of_mem _ he)
    have hentry := hrule entry mem_cons_self
    have hcons : ledger.dedupKeys rule (entry :: rest) =
        (((ledger.dedupKey rule entry).1.dedupKeys rule rest).1,
          (ledger.dedupKey rule entry).2 ::
            ((ledger.dedupKey rule entry).1.dedupKeys rule rest).2) := rfl
    have hlookup := h entry.1
    rw [hcons, repeats]
    cases hfound : past.lookup entry.1 with
    | none =>
      rw [hfound] at hlookup
      have hkey : ledger.dedupKey rule entry =
          ({ ledger.countKeys rule.slot 1 0 with index := ledger.index ++ [entry] }, false) := by
        rw [Ledger.dedupKey, hlookup]
      obtain ⟨hindex, hmask, hfindings⟩ := @ih (ledger.dedupKey rule entry).1 (past ++ [entry]) hrest
        (by rw [hkey]; exact h.insert entry)
      refine ⟨by simpa using hindex, by rw [hmask, hkey]; rfl, ?_⟩
      rw [hfindings, hkey]
      rfl
    | some first =>
      rw [hfound] at hlookup
      have hkey : ledger.dedupKey rule entry =
          ({ ledger.countKeys rule.slot 0 1 with
            dupFindings := ledger.dupFindings ++ [rule.finding entry.1 entry.2 first] }, true) := by
        rw [Ledger.dedupKey, hlookup]
      obtain ⟨hindex, hmask, hfindings⟩ := @ih (ledger.dedupKey rule entry).1 (past ++ [entry]) hrest
        (by rw [hkey]; exact h.skip hlookup)
      refine ⟨by simpa using hindex, by rw [hmask, hkey]; rfl, ?_⟩
      rw [hfindings, hkey]
      simp [reportedOf, DupFindingRow.reported, DedupRule.finding, hentry.1, hentry.2]

theorem duplicateRejections_reject (env : VerificationEnv) (origin : Origin) (cause : Rejection)
    (ledger : Ledger) (ended : List (Nat × Nat)) :
    duplicateRejections (ledger.reject (ended.map (rejectionEntry env origin cause))) =
      duplicateRejections ledger ++
        if cause.kind = "duplicate" then ended.map (rejectionEntry env origin cause) else [] := by
  simp only [duplicateRejections, Ledger.reject, filter_append]
  congr 1
  split_ifs with hkind
  · refine filter_eq_self.mpr fun entry hentry => ?_
    obtain ⟨e, -, rfl⟩ := mem_map.mp hentry
    exact beq_iff_eq.mpr hkind
  · refine filter_eq_nil_iff.mpr fun entry hentry => ?_
    obtain ⟨e, -, rfl⟩ := mem_map.mp hentry
    exact fun heq => hkind (beq_iff_eq.mp heq)

theorem KeptFirst.of_eq {past : List (DedupKey × Nat)} {ledger ledger' : Ledger}
    (h : KeptFirst past ledger) (hindex : ledger'.index = ledger.index)
    (hfindings : ledger'.dupFindings = ledger.dupFindings)
    (hrejected : duplicateRejections ledger' = duplicateRejections ledger) :
    KeptFirst past ledger' where
  index := by
    rw [hindex]
    exact h.index
  findings := by rw [hfindings, h.findings]
  rejected := by rw [hrejected, h.rejected]

theorem KeptFirst.step_other {step : VStep} {past : List (DedupKey × Nat)}
    (hk : KeptFirst past state.run.ledger)
    (hstep : ∀ nodeId ruleOrdinal keys types, step ≠ .deduplicate nodeId ruleOrdinal keys types)
    (h : runStep env origin state step = .ok state') : KeptFirst past state'.run.ledger := by
  cases step with
  | validate nodeId ruleOrdinal predicate severity message =>
    obtain ⟨outcomes, -, h⟩ := of_bind h
    obtain ⟨slot, -, h⟩ := of_bind h
    obtain ⟨result, hresult, h⟩ := of_bind h
    obtain ⟨hvalidated, -⟩ := validateRows_ledger hresult
    have hledger := endRows_ledger h
    rw [show Routing.run ⟨result.1, _⟩ = result.1 from rfl, hvalidated] at hledger
    refine hk.of_eq (by rw [hledger]; rfl) (by rw [hledger]; rfl) ?_
    have hkind : ¬"validation_error" = "duplicate" := by decide
    rw [hledger, duplicateRejections_reject, if_neg hkind, append_nil]
    rfl
  | deduplicate nodeId ruleOrdinal keys types => exact absurd rfl (hstep _ _ _ _)
  | _ =>
    rw [runStep_run rfl h]
    exact hk

/-- What is known of an arrival: its rule, its key types, and that its key was encoded. -/
def Arrival.Known (env : VerificationEnv) (a : Arrival) : Prop :=
  ∃ keys keyTypes, VStep.deduplicate a.nodeId a.ruleOrdinal keys keyTypes ∈ env.routingSteps ∧
    a.cells.map (·.1) = keyTypes.take keys.length ∧ encodeKey a.cells [] = .ok a.keyBytes

theorem cells_types {rule : DedupRule} {row : Row} {cells : List (LogicalType × AnyValue)}
    (h : rule.cells row = some cells) :
    cells.map (·.1) = rule.keyTypes.take rule.columns.length := by
  have hcells : Forall₂ (fun (cell : LogicalType × AnyValue) (column : String × LogicalType) =>
      column.2 = cell.1) cells (rule.columns.zip rule.keyTypes) := by
    refine ((forall₂_of_mapM_some h).imp fun column cell hcell => ?_).flip
    obtain ⟨value, -, rfl⟩ := Option.map_eq_some_iff.mp hcell
    rfl
  have htypes : cells.map (·.1) = (rule.columns.zip rule.keyTypes).map (·.2) := by
    rw [← forall₂_eq_eq_eq, forall₂_map_left_iff, forall₂_map_right_iff]
    exact hcells.imp fun _ _ heq => heq.symm
  rw [htypes, zip_eq_zip_take_min, map_snd_zip (by simp)]
  simp

theorem arrivals_entries {nodeId : Uuid} {ruleOrdinal slot : Nat} {keyIds : List ColumnId}
    {keyTypes : List LogicalType} {columns : List String} {keys : List DedupKey}
    (hcolumns : keyColumns state.window keyIds = .ok columns)
    (he : DedupEffect env origin ⟨nodeId, ruleOrdinal, columns, keyTypes, slot⟩ keys state state') :
    (Visit.arrivals ⟨origin, state, .deduplicate nodeId ruleOrdinal keyIds keyTypes⟩).map
        Arrival.entry = state.window.arrivals keys ∧
      ∀ a ∈ Visit.arrivals ⟨origin, state, .deduplicate nodeId ruleOrdinal keyIds keyTypes⟩,
        a.nodeId = nodeId ∧ a.ruleOrdinal = ruleOrdinal ∧
          a.cells.map (·.1) = keyTypes.take keyIds.length ∧
          encodeKey a.cells [] = .ok a.keyBytes := by
  have harrivals : Visit.arrivals ⟨origin, state,
      .deduplicate nodeId ruleOrdinal keyIds keyTypes⟩ =
      (state.window.frame.rows.zip state.window.sidecar).map fun row =>
        ⟨nodeId, ruleOrdinal,
          (DedupRule.cells ⟨nodeId, ruleOrdinal, columns, keyTypes, 0⟩ row.1).getD [], row.2.2⟩ := by
    simp only [Visit.arrivals, hcolumns]
  have hlength : columns.length = keyIds.length := length_of_mapM_ok hcolumns
  have hrow : ∀ row key, DedupRule.key ⟨nodeId, ruleOrdinal, columns, keyTypes, slot⟩ row = .ok key →
      ∃ cells, DedupRule.cells ⟨nodeId, ruleOrdinal, columns, keyTypes, 0⟩ row = some cells ∧
        encodeKey cells [] = .ok key.keyBytes ∧ key = ⟨nodeId, ruleOrdinal, key.keyBytes⟩ := by
    intro row key hkey
    obtain ⟨cells, hcells, hkey⟩ := of_bind hkey
    obtain ⟨bytes, hbytes, hkey⟩ := of_bind hkey
    cases hkey
    exact ⟨cells, ofOption_eq_ok hcells, hbytes, rfl⟩
  have hkeys := forall₂_of_mapM_ok he.encoded
  rw [harrivals]
  constructor
  · have hmap : keys = state.window.frame.rows.map fun row => (Arrival.entry ⟨nodeId, ruleOrdinal,
        (DedupRule.cells ⟨nodeId, ruleOrdinal, columns, keyTypes, 0⟩ row).getD [], 0⟩).1 := by
      apply eq_map_of_forall₂
      refine hkeys.imp fun row key hkey => ?_
      obtain ⟨cells, hcells, hbytes, hkeyEq⟩ := hrow row key hkey
      simp only [Arrival.entry, Arrival.keyBytes, hcells, Option.getD_some, hbytes]
      exact hkeyEq.symm
    rw [Window.arrivals, hmap, zip_map, map_map]
    rfl
  · intro a ha
    obtain ⟨⟨row, entry⟩, hmem, rfl⟩ := mem_map.mp ha
    obtain ⟨key, -, hkey⟩ := exists_of_forall₂_right hkeys.flip (of_mem_zip hmem).1
    obtain ⟨cells, hcells, hbytes, -⟩ := hrow row key hkey
    refine ⟨rfl, rfl, ?_, ?_⟩
    · simp only [hcells, Option.getD_some]
      rw [cells_types hcells]
      simp only [hlength]
    · simp only [Arrival.keyBytes, hcells, Option.getD_some, hbytes]

theorem KeptFirst.step_dedup {nodeId : Uuid} {ruleOrdinal : Nat} {keyIds : List ColumnId}
    {keyTypes : List LogicalType} {past : List (DedupKey × Nat)}
    (hk : KeptFirst past state.run.ledger) (ha : state.window.Aligned)
    (h : runStep env origin state (.deduplicate nodeId ruleOrdinal keyIds keyTypes) = .ok state') :
    KeptFirst (past ++ (Visit.arrivals ⟨origin, state,
        .deduplicate nodeId ruleOrdinal keyIds keyTypes⟩).map Arrival.entry) state'.run.ledger := by
  obtain ⟨slot, columns, keys, -, hcolumns, he⟩ := runStep_deduplicate ha h
  obtain ⟨hentries, hknown⟩ := arrivals_entries hcolumns he
  have hrule : ∀ e ∈ state.window.arrivals keys, e.1.nodeId = nodeId ∧
      e.1.ruleOrdinal = ruleOrdinal := by
    intro e hmem
    rw [← hentries] at hmem
    obtain ⟨a, harrival, rfl⟩ := mem_map.mp hmem
    exact ⟨(hknown a harrival).1, (hknown a harrival).2.1⟩
  have hcounted : Answers
      (state.run.countEvaluated slot state.window.frame.height).ledger.index past := hk.index
  obtain ⟨hindex, hmask, hfindings⟩ := dedupKeys_repeats
    ⟨nodeId, ruleOrdinal, columns, keyTypes, slot⟩ hrule hcounted
  have hfields := dedupKeys_fields ⟨nodeId, ruleOrdinal, columns, keyTypes, slot⟩
    (state.window.arrivals keys) (state.run.countEvaluated slot state.window.frame.height).ledger
  rw [hentries]
  refine ⟨?_, ?_, ?_⟩
  · rw [he.ledger]
    exact hindex
  · rw [he.ledger, reportedOf_append, ← hk.findings]
    exact hfindings
  · rw [he.ledger, duplicateRejections_reject, if_pos rfl, map_append, rejectedOf_append,
      ← hk.rejected, hmask]
    have hsame : duplicateRejections ((state.run.countEvaluated slot
        state.window.frame.height).ledger.dedupKeys ⟨nodeId, ruleOrdinal, columns, keyTypes, slot⟩
          (state.window.arrivals keys)).1 = duplicateRejections state.run.ledger := by
      rw [duplicateRejections, hfields.2.2.2.1]
      rfl
    have hlength : keys.length = (state.window.sidecar.map (·.2)).length := by
      rw [length_of_mapM_ok he.encoded, length_map]
      exact ha.sidecar.symm
    have hordinals : (state.window.arrivals keys).map (·.2) = state.window.sidecar.map (·.2) :=
      map_snd_zip hlength.ge
    have hrejected : rejectedOf (state.window.arrivals keys)
        (repeats past (state.window.arrivals keys)) =
        (keep ((repeats past (state.window.arrivals keys)).map Option.isSome)
          (state.window.arrivals keys)).map fun e => ((nodeId, ruleOrdinal), e.2) := by
      rw [rejectedOf, ← map_keep_isSome fun e : DedupKey × Nat =>
        ((e.1.nodeId, e.1.ruleOrdinal), e.2)]
      refine map_congr_left fun e hmem => ?_
      have heq := hrule e ((keep_sublist _ _).mem hmem)
      rw [heq.1, heq.2]
    rw [hsame, hrejected]
    congr 1
    have hleft : (state.window.arrivals keys).map
        (fun e : DedupKey × Nat => ((nodeId, ruleOrdinal), e.2)) =
        state.window.sidecar.map fun entry => ((nodeId, ruleOrdinal), entry.2) := by
      have htagged :=
        congrArg (List.map fun ordinal : Nat => ((nodeId, ruleOrdinal), ordinal)) hordinals
      rw [map_map, map_map] at htagged
      exact htagged
    rw [map_map, ← keep_map, ← keep_map, hleft]
    rfl

/-- The ledger keeps the first of the arrivals of some visits. -/
structure Traced (env : VerificationEnv) (past : List Visit) (ledger : Ledger) : Prop where
  kept : KeptFirst ((past.flatMap Visit.arrivals).map Arrival.entry) ledger
  known : ∀ a ∈ past.flatMap Visit.arrivals, a.Known env

theorem traced_start (env : VerificationEnv) : Traced env [] env.start.ledger where
  kept := keptFirst_start env
  known a ha := by cases ha

theorem Traced.step {step : VStep} (ht : Traced env past state.run.ledger)
    (ha : state.window.Aligned) (hmem : step ∈ env.routingSteps)
    (h : runStep env origin state step = .ok state') :
    Traced env (past ++ [⟨origin, state, step⟩]) state'.run.ledger := by
  have hother : (∀ nodeId ruleOrdinal keys types,
      step ≠ .deduplicate nodeId ruleOrdinal keys types) →
      Visit.arrivals ⟨origin, state, step⟩ = [] →
      Traced env (past ++ [⟨origin, state, step⟩]) state'.run.ledger := by
    intro hstep hnone
    have hpast : (past ++ [Visit.mk origin state step]).flatMap Visit.arrivals =
        past.flatMap Visit.arrivals := by
      rw [flatMap_append, flatMap_singleton, hnone, append_nil]
    refine ⟨?_, ?_⟩
    · rw [hpast]
      exact ht.kept.step_other hstep h
    · rw [hpast]
      exact ht.known
  cases step with
  | deduplicate nodeId ruleOrdinal keyIds keyTypes =>
    obtain ⟨slot, columns, keys, -, hcolumns, he⟩ := runStep_deduplicate ha h
    obtain ⟨-, hknown⟩ := arrivals_entries hcolumns he
    refine ⟨?_, fun a harrival => ?_⟩
    · rw [flatMap_append, flatMap_singleton, map_append]
      exact ht.kept.step_dedup ha h
    · rw [flatMap_append, flatMap_singleton] at harrival
      rcases mem_append.mp harrival with hold | hnew
      · exact ht.known a hold
      · obtain ⟨hnode, hordinal, htypes, hbytes⟩ := hknown a hnew
        refine ⟨keyIds, keyTypes, ?_, htypes, hbytes⟩
        rw [hnode, hordinal]
        exact hmem
  | _ => exact hother (fun _ _ _ _ => by simp) rfl

theorem streamVerification_traced {envelopes : List BatchEnvelope} {run : VerificationRun}
    (hproduct : ∀ step ∈ env.routingSteps, step.IsProduct)
    (h : streamVerification env envelopes env.start = .ok run) :
    Traced env (env.runVisits envelopes) run.ledger := by
  refine streamVerification_history (Traced env) (fun v => Sound env v.origin v.state)
    (fun _ _ ht => ⟨ht.kept.of_eq rfl rfl rfl, ht.known⟩) ?_ (traced_start env)
    (fun v hv => (sound_of_mem_runVisits hproduct hv).1) h
  intro past origin state state' step hmem hsound ha ht hrun
  exact ⟨(hsound.step (hproduct step hmem) hrun).aligned, ht.step ha hmem hrun⟩

end Stillflow.Engine
