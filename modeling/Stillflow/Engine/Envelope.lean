import Stillflow.Engine.NoPanic

/-!
One envelope before and after its routing steps: the scan output with its ordinals fits one window,
and the survivors of that window join the accepted rows.
-/

namespace Stillflow.Engine

open Stillflow.Core Stillflow.Plan Lib.Fallible Lib.Mask List VerificationRun

variable {env : VerificationEnv} {envelope : BatchEnvelope} {frame : Frame}
  {opened : OpenedEnvelope} {run run' : VerificationRun}

theorem transform_single {polars : Polars} {schema : LogicalSchema} {step : CompiledStep}
    {deferred : Deferred} {result : Frame × Deferred}
    (h : transform polars frame schema [step] deferred = .ok result) :
    ∃ working, transformStep polars ⟨frame, schema, deferred⟩ step = .ok working ∧
      result = (working.frame, working.deferred) := by
  obtain ⟨working, hworking, h⟩ := of_bind h
  rw [foldlM_cons] at hworking
  obtain ⟨working', hstep, hworking⟩ := of_bind hworking
  cases hworking
  cases h
  exact ⟨working, hstep, rfl⟩

theorem length_keep_le {α : Type} (mask : List Bool) (list : List α) :
    (keep mask list).length ≤ list.length :=
  (keep_sublist mask list).length_le

theorem takeSurviving_height {frame frame' : Frame} {mask : List Bool}
    (h : takeSurviving env frame mask = .ok frame') : frame'.height ≤ frame.height := by
  obtain ⟨column, -, h⟩ := of_bind h
  cases h
  rw [dropMask_filterMask, Frame.dropMask, Frame.height, length_map]
  exact length_keep_le _ _

theorem leadingStep_height {working working' : Working} {step : VStep}
    (h : leadingStep env working step = .ok working') :
    working'.frame.height ≤ working.frame.height := by
  cases step with
  | project columns =>
    obtain ⟨result, hresult, h⟩ := of_bind h
    obtain ⟨schema, -, h⟩ := of_bind h
    cases h
    obtain ⟨last, hlast, rfl⟩ := transform_single hresult
    obtain ⟨names, -, hlast⟩ := of_bind hlast
    obtain ⟨frame, hframe, hlast⟩ := of_bind hlast
    obtain ⟨_, -, hlast⟩ := of_bind hlast
    cases hlast
    obtain ⟨_, -, hselect⟩ := Option.bind_eq_some_iff.mp (ofOption_eq_ok hframe)
    obtain ⟨rows, hrows, hselect⟩ := Option.bind_eq_some_iff.mp hselect
    cases hselect
    exact (forall₂_of_mapM_some hrows).length_eq.ge
  | filter predicate =>
    obtain ⟨mask, -, h⟩ := of_bind h
    split_ifs at h
    · cases h
      exact le_rfl
    · obtain ⟨frame, hframe, h⟩ := of_bind h
      cases h
      exact takeSurviving_height hframe
  | filterRows predicate => cases h
  | transformRules rules => cases h
  | validate nodeId ruleOrdinal predicate severity message => cases h
  | deduplicate nodeId ruleOrdinal keys keyTypes => cases h

theorem scanFrame_height {working : Working} (h : scanFrame env envelope = .ok working) :
    working.frame.height ≤ maxBatchRows := by
  refine foldlM_invariant (fun w : Working => w.frame.height ≤ maxBatchRows) ?_ ?_ h
  · intro mid step mid' _ hmid hstep
    exact (leadingStep_height hstep).trans hmid
  · exact envelope.rows_le

theorem dataframeToRecordBatch_eq_ok {schema : LogicalSchema} {deferred : Deferred}
    {batch : RecordBatch} (h : dataframeToRecordBatch frame schema deferred = .ok batch) :
    ∃ columns, schema.fields.mapM (exportColumn frame deferred) = .ok columns ∧
      Forall₂ (fun row exported => exportRow columns row = .ok exported) frame.rows
        batch.rows := by
  obtain ⟨_, -, h⟩ := of_bind h
  obtain ⟨columns, hcolumns, h⟩ := of_bind h
  obtain ⟨rows, hrows, h⟩ := of_bind h
  cases h
  exact ⟨columns, hcolumns, forall₂_of_mapM_ok hrows⟩

theorem assignOrdinals_eq_ok {count : Nat} {ordinals : List Nat}
    (h : assignOrdinals count run = .ok (ordinals, run')) :
    ordinals = range' run.nextOrdinal count ∧
      run' = { run with nextOrdinal := run.nextOrdinal + count } := by
  induction count generalizing run run' ordinals with
  | zero =>
    cases h
    exact ⟨rfl, rfl⟩
  | succ count ih =>
    obtain ⟨first, hfirst, h⟩ := of_bind h
    obtain ⟨⟨others, last⟩, hothers, h⟩ := of_bind h
    obtain ⟨_, -, hfirst⟩ := of_bind hfirst
    cases hfirst
    cases h
    obtain ⟨rfl, rfl⟩ := ih hothers
    refine ⟨rfl, ?_⟩
    rw [show run.nextOrdinal + (count + 1) = run.nextOrdinal + 1 + count by omega]

theorem zip_range_range' (start count : Nat) :
    (range count).zip (range' start count) =
      (range count).map fun i => (i, start + i) := by
  apply ext_getElem
  · simp
  · intro i h₁ h₂
    simp

/-- The retained scan output of an envelope: at most one window of rows, with consecutive
ordinals. -/
structure Opened (run : VerificationRun) (opened : OpenedEnvelope) : Prop where
  height_le : opened.batch.height ≤ maxBatchRows
  sidecar : opened.sidecar =
    (range opened.batch.height).map fun i => (i, run.nextOrdinal + i)
  ledger : opened.run.ledger =
    { run.ledger with nextOrdinal := run.nextOrdinal + opened.batch.height }
  packs : opened.run.packs = run.packs

theorem openEnvelope_eq_ok (h : openEnvelope env run envelope = .ok opened) :
    Opened run opened := by
  obtain ⟨_, -, h⟩ := of_bind h
  obtain ⟨held, hheld, h⟩ := of_bind h
  obtain ⟨framed, hframed, h⟩ := of_bind h
  obtain ⟨working, hworking, h⟩ := of_bind h
  obtain ⟨⟨ordinals, counted⟩, hassigned, h⟩ := of_bind h
  obtain ⟨batch, hbatch, h⟩ := of_bind h
  obtain ⟨memory, -, h⟩ := of_bind h
  cases h
  obtain ⟨_, -, rfl⟩ := hold_eq_ok hheld
  obtain ⟨_, -, rfl⟩ := hold_eq_ok hframed
  obtain ⟨rfl, rfl⟩ := assignOrdinals_eq_ok hassigned
  obtain ⟨columns, -, hrows⟩ := dataframeToRecordBatch_eq_ok hbatch
  have hheight : batch.height = working.frame.height := hrows.length_eq.symm
  refine ⟨?_, ?_, ?_, rfl⟩
  · rw [hheight]
    exact scanFrame_height hworking
  · rw [length_range', hheight]
    exact zip_range_range' _ _
  · rw [hheight]
    rfl

def onlyWindow (env : VerificationEnv) (opened : OpenedEnvelope) : Window :=
  openWindow env ⟨opened.batch, 0⟩ opened.sidecar opened.deferred

theorem onlyWindow_eq (h : Opened run opened) :
    onlyWindow env opened = ⟨opened.batch, env.prepared.scanOutput, opened.deferred,
      opened.sidecar, replicate opened.batch.height 0⟩ := by
  have hle := h.height_le
  have hwidth : min (opened.batch.height - 0) maxBatchRows = opened.batch.height := by omega
  have hsidecar : opened.sidecar.length = opened.batch.height := by simp [h.sidecar]
  have hrows : opened.batch.rows.take opened.batch.height = opened.batch.rows := take_length
  have hentries : opened.sidecar.take opened.batch.height = opened.sidecar := by
    rw [← hsidecar, take_length]
  unfold onlyWindow openWindow recordBatchToDataframe
  simp only [hwidth, drop_zero, hrows, hentries]

theorem onlyWindow_aligned (h : Opened run opened) : (onlyWindow env opened).Aligned := by
  rw [onlyWindow_eq h]
  exact ⟨by simp [h.sidecar], by simp⟩

theorem onlyWindow_inBounds (h : Opened run opened) :
    (onlyWindow env opened).InBounds ⟨opened.batch, 0⟩ := by
  rw [onlyWindow_eq h]
  intro entry hentry
  rw [h.sidecar] at hentry
  obtain ⟨i, hi, rfl⟩ := mem_map.mp hentry
  simpa using hi

theorem routeWindows_eq (h : Opened run opened) :
    routeWindows env opened.batch opened.sidecar opened.batch.height 0 opened.run opened.deferred =
      if 0 < opened.batch.height then
        routeWindow env ⟨opened.batch, 0⟩ (onlyWindow env opened) opened.run >>= fun routed =>
          .ok routed.1
      else .ok opened.run := by
  have hwidth : min (opened.batch.height - 0) maxBatchRows = opened.batch.height := by
    have hle := h.height_le
    omega
  cases hheight : opened.batch.height with
  | zero => rfl
  | succ fuel =>
    rw [if_pos (Nat.succ_pos fuel), routeWindows, if_pos (by omega)]
    refine congrArg _ (funext fun routed => ?_)
    rw [hwidth, Nat.zero_add]
    cases fuel with
    | zero => rfl
    | succ fuel => rw [routeWindows, if_neg (lt_irrefl _)]

theorem takePack_rows {needed : Nat} {batches : List HeldBatch} {taken : PackParts}
    (h : takePack needed batches = some taken) :
    taken.parts.flatMap (·.rows) ++ taken.rest.flatMap (·.rows) = batches.flatMap (·.rows) := by
  induction batches generalizing needed taken with
  | nil =>
    cases needed with
    | zero =>
      cases h
      rfl
    | succ needed => cases h
  | cons front rest ih =>
    cases needed with
    | zero =>
      cases h
      rfl
    | succ needed =>
      unfold takePack at h
      split_ifs at h
      · obtain ⟨others, hothers, h⟩ := Option.bind_eq_some_iff.mp h
        cases h
        simp [ih hothers]
      · cases h
        simp only [flatMap_cons, flatMap_nil, append_nil]
        rw [← append_assoc, take_append_drop]

theorem joinParts_rows (schema : LogicalSchema) (parts : List RecordBatch) :
    (joinParts schema parts).rows = parts.flatMap (·.rows) := by
  unfold joinParts
  split
  · simp
  · rfl

/-- The accepted rows of a run after some were handed over; with an existing Snapshot as the
accepted child the handed rows are not kept. -/
structure AcceptedTail (env : VerificationEnv) (ledger ledger' : Ledger) : Prop where
  others : ledger' = { ledger with accepted := ledger'.accepted }
  sublist : ledger'.accepted.Sublist ledger.accepted
  written : env.reuseAcceptedSnapshot = false → ledger'.accepted = ledger.accepted

theorem AcceptedTail.refl (env : VerificationEnv) (ledger : Ledger) :
    AcceptedTail env ledger ledger :=
  ⟨rfl, Sublist.refl _, fun _ => rfl⟩

theorem AcceptedTail.trans {a b c : Ledger} (hab : AcceptedTail env a b)
    (hbc : AcceptedTail env b c) : AcceptedTail env a c where
  others := by
    rw [hbc.others, hab.others]
  sublist := hbc.sublist.trans hab.sublist
  written hreuse := (hbc.written hreuse).trans (hab.written hreuse)

/-- The ledger of a run whose next accepted payload has these rows. -/
def VerificationRun.emitting (run : VerificationRun) (rows : List Row) : Ledger :=
  { run.ledger with
    accepted := run.packs.flatMap Pack.acceptedRows ++
      (rows ++ run.acceptedBatches.flatMap (·.rows)) }

theorem releaseAccepted_emitting (used : List Nat) (run : VerificationRun) (rows : List Row) :
    (used.foldl releaseAccepted run).emitting rows = run.emitting rows := by
  induction used generalizing run with
  | nil => rfl
  | cons batch used ih => exact ih _

theorem emitAccepted_tail {payload : RecordBatch} (h : emitAccepted env run payload = .ok run') :
    AcceptedTail env (run.emitting payload.rows) run'.ledger := by
  unfold emitAccepted at h
  split_ifs at h with hreuse
  · cases h
    refine ⟨rfl, ?_, fun hfalse => absurd (hreuse.symm.trans hfalse) (by decide)⟩
    exact (Sublist.refl _).append (sublist_append_right _ _)
  · obtain ⟨emitted, hemitted, h⟩ := of_bind h
    cases h
    rw [emit_eq_ok hemitted]
    have hledger : ledger { run with
        packs := run.packs ++ [.accepted run.acceptedEmittedSequences payload]
        acceptedEmittedSequences := run.acceptedEmittedSequences + 1 } =
        run.emitting payload.rows := by
      simp [ledger, emitting, Pack.acceptedRows,
        Pack.rejectedEntries]
    rw [hledger]
    exact .refl env _

theorem flushAcceptedLoop_tail {fuel : Nat} (h : flushAcceptedLoop env fuel run = .ok run') :
    AcceptedTail env run.ledger run'.ledger := by
  induction fuel generalizing run with
  | zero =>
    cases h
    exact .refl env _
  | succ fuel ih =>
    unfold flushAcceptedLoop at h
    split at h
    · cases h
      exact .refl env _
    · cases htaken : takePack env.batchSize run.acceptedBatches with
      | none =>
        rw [htaken] at h
        cases h
      | some taken =>
        rw [htaken] at h
        obtain ⟨emitted, hemitted, h⟩ := of_bind h
        have htail := emitAccepted_tail hemitted
        rw [releaseAccepted_emitting, joinParts_rows] at htail
        have hledger : run.ledger = emitting
            { run with
              acceptedBatches := taken.rest
              acceptedPendingRows := run.acceptedPendingRows - env.batchSize }
            (taken.parts.flatMap (·.rows)) := by
          rw [emitting, takePack_rows htaken]
          rfl
        rw [hledger]
        exact htail.trans (ih h)

theorem acceptSurvivors_eq_ok {state : Routing} (h : acceptSurvivors env state = .ok run') :
    ∃ columns exported, (0 < state.window.frame.height →
        env.prepared.materializeSchema.fields.mapM
          (exportColumn state.window.frame state.window.deferred) = .ok columns) ∧
      Forall₂ (fun row row' => exportRow columns row = .ok row') state.window.frame.rows
        exported ∧
      AcceptedTail env
        { state.run.ledger with accepted := state.run.ledger.accepted ++ exported } run'.ledger := by
  unfold acceptSurvivors at h
  split_ifs at h with hheight
  · obtain ⟨survivors, hsurvivors, h⟩ := of_bind h
    obtain ⟨held, hheld, h⟩ := of_bind h
    obtain ⟨columns, hcolumns, hrows⟩ := dataframeToRecordBatch_eq_ok hsurvivors
    obtain ⟨memory, -, rfl⟩ := hold_eq_ok hheld
    refine ⟨columns, survivors.rows, fun _ => hcolumns, hrows, ?_⟩
    have htail := flushAcceptedLoop_tail h
    simpa [ledger] using htail
  · cases h
    have hempty : state.window.frame.rows = [] := by
      rw [← length_eq_zero_iff]
      simpa [Frame.height] using hheight
    refine ⟨[], [], fun hpos => absurd hpos hheight, ?_, ?_⟩
    · rw [hempty]
      exact .nil
    · rw [append_nil]
      exact .refl env _

theorem drop_ledger (run : VerificationRun) (slot : Slot) : (run.drop slot).ledger = run.ledger :=
  rfl

theorem processEnvelope_eq_ok (h : processEnvelope env run envelope = .ok run') :
    ∃ opened, openEnvelope env run envelope = .ok opened ∧
      (opened.batch.height = 0 ∧ run' = opened.run.drop .envelope ∨
        0 < opened.batch.height ∧ ∃ held state routed,
          opened.run.hold env.law .polars
            (env.polars.estimatedSize (onlyWindow env opened).frame) = .ok held ∧
          env.routingSteps.foldlM (runStep env ⟨opened.batch, 0⟩)
            ⟨held, onlyWindow env opened⟩ = .ok state ∧
          acceptSurvivors env state = .ok routed ∧ run' = routed.drop .envelope) := by
  obtain ⟨opened, hopened, h⟩ := of_bind h
  have hopened := checked_eq_ok hopened
  rw [routeWindows_eq (openEnvelope_eq_ok hopened)] at h
  refine ⟨opened, hopened, ?_⟩
  split_ifs at h with hheight
  · obtain ⟨routed, hrouted, h⟩ := of_bind h
    cases h
    obtain ⟨⟨last, deferred⟩, hlast, hrouted⟩ := of_bind hrouted
    cases hrouted
    obtain ⟨held, hheld, hlast⟩ := of_bind hlast
    obtain ⟨state, hstate, hlast⟩ := of_bind hlast
    obtain ⟨accepted, haccepted, hlast⟩ := of_bind hlast
    cases hlast
    exact .inr ⟨hheight, held, state, last, checked_eq_ok hheld, hstate, checked_eq_ok haccepted,
      rfl⟩
  · cases h
    exact .inl ⟨by omega, rfl⟩

end Stillflow.Engine
