import Stillflow.Engine.ReportMeter

/-! Verification runs under the law of the source and under ample report slots, step by step. -/

namespace Stillflow.Engine

open Stillflow.Core Stillflow.Plan Lib Lib.Fallible Lib.Mask

variable {run run' : VerificationRun} {env : VerificationEnv}

theorem isPayload_rejected : Slot.rejected.IsPayload := isPayload_of_cap (by decide) (by decide)

theorem isPayload_accepted : Slot.accepted.IsPayload := isPayload_of_cap (by decide) (by decide)

theorem isPayload_polars : Slot.polars.IsPayload := isPayload_of_cap (by decide) (by decide)

theorem isPayload_envelope : Slot.envelope.IsPayload := isPayload_of_cap (by decide) (by decide)

theorem untouched_drop (run : VerificationRun) {slot : Slot} (hslot : slot.IsPayload) :
    Untouched run (run.drop slot) :=
  untouched_release run hslot _

theorem checked_bind {α β : Type} (x : Except EngineError α) (f : α → Except EngineError β) :
    checked (x >>= f) = checked x >>= fun a => checked (f a) := by
  cases x <;> rfl

/-- A pack of accepted or of rejected rows. -/
def Pack.IsPayload : Pack → Prop
  | .accepted _ _ | .rejectedRows _ _ _ => True
  | _ => False

/-- What packing accepted and rejected rows does to a run: it edits its records, releases what the
rows were charged and writes payloads. -/
inductive Delivers (env : VerificationEnv) : VerificationRun → VerificationRun → Prop
  | edit {before after : VerificationRun} (hmemory : after.memory = before.memory)
    (hval : after.valFindings = before.valFindings) (hdup : after.dupFindings = before.dupFindings)
    (hpacks : after.packs = before.packs) : Delivers env before after
  | release (run : VerificationRun) {slot : Slot} (hslot : slot = .accepted ∨ slot = .rejected)
    (bytes : Nat) : Delivers env run (run.release slot bytes)
  | emit {before after : VerificationRun} {pack : Pack} {message : String}
    (hpack : pack.IsPayload) (h : before.emit env pack message = .ok after) :
    Delivers env before after
  | trans {a b c : VerificationRun} (hab : Delivers env a b) (hbc : Delivers env b c) :
    Delivers env a c

theorem Delivers.refl (env : VerificationEnv) (run : VerificationRun) : Delivers env run run :=
  .edit rfl rfl rfl rfl

theorem Delivers.untouched (h : Delivers env run run') : Untouched run run' := by
  induction h with
  | edit hmemory hval hdup hpacks => exact .of_eq hmemory hval hdup hpacks
  | release run hslot bytes =>
    rcases hslot with rfl | rfl
    · exact untouched_release run isPayload_accepted bytes
    · exact untouched_release run isPayload_rejected bytes
  | @emit _ _ pack _ hpack h =>
    have hrows : pack.valFindingRows = [] ∧ pack.dupFindingRows = [] := by
      cases pack <;> first | exact ⟨rfl, rfl⟩ | exact hpack.elim
    exact untouched_emit hrows.1 hrows.2 h
  | trans _ _ ihab ihbc => exact ihab.trans ihbc

theorem delivers_flushRejectedLoop {fuel : Nat} (h : flushRejectedLoop env fuel run = .ok run') :
    Delivers env run run' := by
  induction fuel generalizing run with
  | zero =>
    cases h
    exact .refl env _
  | succ fuel ih =>
    unfold flushRejectedLoop at h
    split_ifs at h
    · cases h
      exact .refl env _
    · obtain ⟨flushed, hflushed, h⟩ := of_bind h
      obtain ⟨emitted, hemitted, hflushed⟩ := of_bind hflushed
      cases hflushed
      have htaken : Delivers env run { run with rejected := run.rejected.drop reportPackRows } :=
        .edit rfl rfl rfl rfl
      have hemitted := htaken.trans (.emit (by exact trivial) hemitted)
      have hsinks : Delivers env emitted { emitted with
          sinks.rejected := run.sinks.rejected + 1 } := .edit rfl rfl rfl rfl
      have hreleased := (hemitted.trans hsinks).trans (.release _ (.inr rfl)
        ((run.rejected.take reportPackRows).map RejectedEntry.bytes).sum)
      exact hreleased.trans (ih h)

theorem flushRejectedLoop_ample (env : VerificationEnv) (fuel : Nat) (run : VerificationRun) :
    flushRejectedLoop env.ample fuel run = flushRejectedLoop env fuel run := by
  induction fuel generalizing run with
  | zero => rfl
  | succ fuel ih =>
    have hpack : flushRejectedPack env.ample run = flushRejectedPack env run := rfl
    simp only [flushRejectedLoop, hpack, ih]

theorem delivers_addRejected {entry : RejectedEntry} (h : addRejected env run entry = .ok run') :
    Delivers env run run' := by
  have hadded : Delivers env run { run with rejected := run.rejected ++ [entry] } :=
    .edit rfl rfl rfl rfl
  unfold addRejected at h
  split_ifs at h
  · exact hadded.trans (delivers_flushRejectedLoop h)
  · cases h
    exact hadded

theorem addRejected_ample (env : VerificationEnv) (run : VerificationRun) (entry : RejectedEntry) :
    addRejected env.ample run entry = addRejected env run entry := by
  simp only [addRejected, flushRejectedRows, flushRejectedLoop_ample]

theorem delivers_releaseAccepted (env : VerificationEnv) (run : VerificationRun) (bytes : Nat) :
    Delivers env run (releaseAccepted run bytes) := by
  have hreleased : Delivers env run (run.release .accepted bytes) := .release run (.inl rfl) _
  exact hreleased.trans (.edit rfl rfl rfl rfl)

theorem delivers_releaseAll (env : VerificationEnv) (used : List Nat) (run : VerificationRun) :
    Delivers env run (used.foldl releaseAccepted run) := by
  induction used generalizing run with
  | nil => exact .refl env run
  | cons bytes used ih => exact (delivers_releaseAccepted env run bytes).trans (ih _)

theorem delivers_emitAccepted {payload : RecordBatch}
    (h : emitAccepted env run payload = .ok run') : Delivers env run run' := by
  unfold emitAccepted at h
  split_ifs at h
  · cases h
    exact .refl env run
  · obtain ⟨emitted, hemitted, h⟩ := of_bind h
    cases h
    exact (Delivers.emit (by exact trivial) hemitted).trans (.edit rfl rfl rfl rfl)

theorem delivers_flushAcceptedLoop {fuel : Nat} (h : flushAcceptedLoop env fuel run = .ok run') :
    Delivers env run run' := by
  induction fuel generalizing run with
  | zero =>
    cases h
    exact .refl env _
  | succ fuel ih =>
    unfold flushAcceptedLoop at h
    split_ifs at h
    · cases h
      exact .refl env _
    · split at h
      · cases h
      · rename_i taken _
        obtain ⟨emitted, hemitted, h⟩ := of_bind h
        have htaken : Delivers env run { run with
            acceptedBatches := taken.rest
            acceptedPendingRows := run.acceptedPendingRows - env.batchSize } :=
          .edit rfl rfl rfl rfl
        have hreleased := htaken.trans (delivers_releaseAll env taken.used _)
        exact (hreleased.trans (delivers_emitAccepted hemitted)).trans (ih h)

theorem delivers_finishAccepted (h : finishAccepted env run = .ok run') :
    Delivers env run run' := by
  obtain ⟨flushed, hflushed, h⟩ := of_bind h
  have hloop := delivers_flushAcceptedLoop hflushed
  split_ifs at h
  · cases h
    exact hloop
  · have hcleared : Delivers env flushed
        { flushed with acceptedBatches := [], acceptedPendingRows := 0 } := .edit rfl rfl rfl rfl
    have hreleased := (delivers_releaseAccepted env _ _).trans (delivers_emitAccepted h)
    exact hloop.trans (hcleared.trans hreleased)

theorem flushAcceptedLoop_ample (env : VerificationEnv) (fuel : Nat) (run : VerificationRun) :
    flushAcceptedLoop env.ample fuel run = flushAcceptedLoop env fuel run := by
  induction fuel generalizing run with
  | zero => rfl
  | succ fuel ih =>
    simp only [flushAcceptedLoop, ih]
    rfl

theorem metered_reading {α : Type} (run : VerificationRun) (x : Except Fault α) :
    reportMeter.Metered (fun _ => run) run x x :=
  Untouched.metered fun _ _ => .refl run

theorem metered_return {α : Type} {runOf : α → VerificationRun} {run : VerificationRun} {a : α}
    (h : runOf a = run) : reportMeter.Metered runOf run (.ok a) (.ok a) :=
  Untouched.metered fun _ ha => by cases ha; exact h ▸ .refl run

theorem metered_swap (run : VerificationRun) (bytes : Nat) :
    reportMeter.Metered (fun memory => { run with memory := memory })
      ((run.drop .polars).drop .envelope)
      (checked ((run.drop .polars).memory.swapEnvelope verificationLaw bytes))
      (checked ((run.drop .polars).memory.swapEnvelope ampleLaw bytes)) := by
  intro hc memory hmemory
  have hheld : ∀ law, checked (((run.drop .polars).drop .envelope).hold law .envelope bytes) =
      checked ((run.drop .polars).memory.swapEnvelope law bytes) >>= fun memory =>
        .ok { run with memory := memory } := by
    intro law
    unfold VerificationMemory.swapEnvelope VerificationRun.hold VerificationRun.drop
    rw [checked_bind]
    rfl
  have hample := hheld ampleLaw
  rw [hmemory, ok_bind] at hample
  have hresult := metered_hold _ isPayload_envelope bytes hc _ hample
  refine ⟨hresult.inv, hresult.fits_before, fun hfits => ?_, fun hbefore hnot => ?_⟩
  · have htight := hresult.ok hfits
    rw [hheld] at htight
    obtain ⟨memory', hmemory', heq⟩ := of_bind htight
    rw [hmemory']
    cases heq
    rfl
  · have htight := hresult.fault hbefore hnot
    rw [hheld] at htight
    rcases bind_eq_error.mp htight with hfault | ⟨memory', -, hfault⟩
    · exact hfault
    · cases hfault

section

variable {env : VerificationEnv} (hlaw : env.law = verificationLaw)

include hlaw

theorem metered_rejectRow (origin : Origin) (cause : Rejection) (entry : Nat × Nat)
    (run : VerificationRun) :
    reportMeter.Metered id run (rejectRow env origin cause entry run)
      (rejectRow env.ample origin cause entry run) := by
  refine (metered_reading run _).bind fun _ _ => ?_
  cases hrow : origin.batch.rows[origin.offset + entry.1]? with
  | none => exact fun _ a ha => by cases ha
  | some row =>
    have hcounted : Untouched run run.countRejection :=
      .of_eq rfl rfl rfl rfl
    simp only [checked_bind, addRejected_ample, hlaw]
    refine hcounted.before ((metered_hold _ isPayload_rejected _).bind fun held _ => ?_)
    exact Untouched.metered fun run' hrun' => (delivers_addRejected (checked_eq_ok hrun')).untouched

theorem metered_rejectDead (origin : Origin) (cause : Rejection) (dead : List Bool)
    (sidecar : List (Nat × Nat)) (run : VerificationRun) :
    reportMeter.Metered id run (rejectDead env origin cause dead sidecar run)
      (rejectDead env.ample origin cause dead sidecar run) := by
  induction dead generalizing sidecar run with
  | nil => exact metered_return rfl
  | cons flag dead ih =>
    cases flag with
    | false => exact ih sidecar.tail run
    | true =>
      cases sidecar with
      | nil => exact fun _ a ha => by cases ha
      | cons entry sidecar =>
        exact (metered_rejectRow hlaw origin cause entry run).bind fun run' _ => ih sidecar run'

theorem metered_endRows (origin : Origin) (cause : Rejection) (dead : List Bool)
    (state : Routing) :
    reportMeter.Metered Routing.run state.run (endRows env origin cause dead state)
      (endRows env.ample origin cause dead state) := by
  unfold endRows
  split_ifs
  · refine (metered_rejectDead hlaw origin cause dead state.window.sidecar state.run).bind
      fun run _ => ?_
    have hsame : compactAlive env.ample state.window (dead.map not) =
        compactAlive env state.window (dead.map not) := rfl
    rw [hsame]
    refine Untouched.metered fun a ha => ?_
    obtain ⟨window, -, ha⟩ := of_bind ha
    cases ha
    exact .refl run
  · exact metered_return rfl

theorem metered_validateRows (rule : ValidateRule) (outcomes : List (Option Bool))
    (sidecar : List (Nat × Nat)) (counts : List Nat) (run : VerificationRun) :
    reportMeter.Metered Prod.fst run (validateRows env rule outcomes sidecar counts run)
      (validateRows env.ample rule outcomes sidecar counts run) := by
  induction outcomes generalizing sidecar counts run with
  | nil => exact metered_return rfl
  | cons outcome outcomes ih =>
    have htally : Untouched run (run.tally rule outcome) :=
      .of_eq rfl rfl rfl rfl
    have hreturn : ∀ (result : VerificationRun × List Nat) (more : List Nat),
        reportMeter.Metered Prod.fst result.1 (pure (result.1, more)) (pure (result.1, more)) :=
      fun result more => metered_return rfl
    by_cases hpass : outcome = some true
    · subst hpass
      exact htally.before ((ih _ _ _).bind fun result _ => hreturn result _)
    · cases sidecar with
      | nil =>
        match outcome, hpass with
        | none, _ => exact fun _ a ha => by cases ha
        | some false, _ => exact fun _ a ha => by cases ha
      | cons entry sidecar =>
        cases counts with
        | nil =>
          match outcome, hpass with
          | none, _ => exact fun _ a ha => by cases ha
          | some false, _ => exact fun _ a ha => by cases ha
        | cons count counts =>
          rw [validateRows_fail hpass, validateRows_fail hpass, hlaw]
          refine (metered_reading run _).bind fun _ _ => htally.before ?_
          have hfinding := metered_finding (run.tally rule outcome)
            (records_addFinding (rule.finding entry.2 outcome))
          have hrest := hfinding.bind fun recorded _ => (ih sidecar counts recorded).bind
            fun result _ => hreturn result ((count + 1) :: result.2)
          simp only [bind_assoc, ok_bind] at hrest
          exact hrest

theorem metered_dedupRow (rule : DedupRule) (row : Row) (ordinal : Nat) (run : VerificationRun) :
    reportMeter.Metered Prod.fst run (checked (dedupRow env rule row ordinal run))
      (checked (dedupRow env.ample rule row ordinal run)) := by
  unfold dedupRow
  simp only [checked_bind, hlaw]
  refine (metered_reading run _).bind fun key _ => (metered_reading run _).bind
    fun inserted _ => ?_
  obtain ⟨index, outcome⟩ := inserted
  cases outcome with
  | inserted ordinal =>
    refine Untouched.metered fun a ha => ?_
    cases ha
    exact .of_eq rfl rfl rfl rfl
  | duplicate first =>
    have hcounted : Untouched run ({ run with index := index }.countDuplicate rule.slot) :=
      .of_eq rfl rfl rfl rfl
    refine hcounted.before ?_
    have hfinding := metered_finding ({ run with index := index }.countDuplicate rule.slot)
      (records_addDuplicate (rule.finding key ordinal first))
    have hrest := hfinding.bind fun recorded _ =>
      @metered_return _ Prod.fst recorded (recorded, true) rfl
    simp only [bind_assoc, ok_bind] at hrest
    simp only [checked_bind]
    exact hrest

theorem metered_dedupRows (rule : DedupRule) (rows : List Row) (sidecar : List (Nat × Nat))
    (run : VerificationRun) :
    reportMeter.Metered Prod.fst run (dedupRows env rule rows sidecar run)
      (dedupRows env.ample rule rows sidecar run) := by
  induction rows generalizing sidecar run with
  | nil => exact metered_return rfl
  | cons row rows ih =>
    cases sidecar with
    | nil => exact fun _ a ha => by cases ha
    | cons entry sidecar =>
      refine (metered_dedupRow hlaw rule row entry.2 run).bind fun result _ =>
        (ih sidecar result.1).bind fun rest _ => ?_
      exact metered_return rfl

theorem metered_runStep (origin : Origin) (state : Routing) (step : VStep) :
    reportMeter.Metered Routing.run state.run (runStep env origin state step)
      (runStep env.ample origin state step) := by
  cases step with
  | project | transformRules | filter | filterRows =>
    refine (metered_reading state.run _).bind fun _ _ => (metered_reading state.run _).bind
      fun _ _ => ?_
    exact metered_return rfl
  | validate nodeId ruleOrdinal predicate severity message =>
    refine (metered_reading state.run _).bind fun outcomes _ => (metered_reading state.run _).bind
      fun slot _ => (metered_validateRows hlaw _ outcomes _ _ state.run).bind fun result _ => ?_
    exact metered_endRows hlaw origin _ _ ⟨result.1, _⟩
  | deduplicate nodeId ruleOrdinal keys keyTypes =>
    have hcounted : ∀ slot rows, Untouched state.run (state.run.countEvaluated slot rows) :=
      fun slot rows => .of_eq rfl rfl rfl rfl
    refine (metered_reading state.run _).bind fun slot _ => (metered_reading state.run _).bind
      fun columns _ => (hcounted slot state.window.frame.height).before ?_
    refine (metered_dedupRows hlaw _ _ _ _).bind fun result _ => ?_
    exact metered_endRows hlaw origin _ _ ⟨result.1, state.window⟩

theorem metered_acceptSurvivors (state : Routing) :
    reportMeter.Metered id state.run (checked (acceptSurvivors env state))
      (checked (acceptSurvivors env.ample state)) := by
  unfold acceptSurvivors
  split_ifs
  · simp only [checked_bind, hlaw, flushAcceptedPacks, flushAcceptedLoop_ample]
    refine (metered_reading state.run _).bind fun survivors _ =>
      (metered_hold state.run isPayload_accepted _).bind fun held _ => ?_
    refine Untouched.metered fun run' hrun' => ?_
    refine Untouched.trans ?_ (delivers_flushAcceptedLoop (checked_eq_ok hrun')).untouched
    exact .of_eq rfl rfl rfl rfl
  · refine Untouched.metered fun run' hrun' => ?_
    cases hrun'
    exact untouched_drop state.run isPayload_polars

theorem metered_routeWindow (origin : Origin) (window : Window) (run : VerificationRun) :
    reportMeter.Metered Prod.fst run (routeWindow env origin window run)
      (routeWindow env.ample origin window run) := by
  unfold routeWindow
  rw [hlaw]
  refine (metered_hold run isPayload_polars _).bind fun held _ => ?_
  have hsteps : reportMeter.Metered Routing.run held
      (env.routingSteps.foldlM (runStep env origin) ⟨held, window⟩)
      (env.ample.routingSteps.foldlM (runStep env.ample origin) ⟨held, window⟩) :=
    Meter.Metered.foldlM (a := ⟨held, window⟩) fun state step _ =>
      metered_runStep hlaw origin state step
  refine hsteps.bind fun state _ => (metered_acceptSurvivors hlaw state).bind fun run' _ => ?_
  exact metered_return rfl

theorem metered_routeWindows (batch : RecordBatch) (sidecar : List (Nat × Nat)) (fuel offset : Nat)
    (run : VerificationRun) (deferred : Deferred) :
    reportMeter.Metered id run (routeWindows env batch sidecar fuel offset run deferred)
      (routeWindows env.ample batch sidecar fuel offset run deferred) := by
  induction fuel generalizing offset run deferred with
  | zero => exact metered_return rfl
  | succ fuel ih =>
    unfold routeWindows
    split_ifs
    · exact (metered_routeWindow hlaw _ _ run).bind fun result _ => ih _ result.1 result.2
    · exact metered_return rfl

theorem metered_openEnvelope (run : VerificationRun) (envelope : BatchEnvelope) :
    reportMeter.Metered OpenedEnvelope.run run (checked (openEnvelope env run envelope))
      (checked (openEnvelope env.ample run envelope)) := by
  unfold openEnvelope
  simp only [checked_bind, hlaw]
  refine (metered_reading run _).bind fun _ _ => (metered_hold run isPayload_envelope _).bind
    fun held _ => (metered_hold held isPayload_polars _).bind fun framed _ =>
    (metered_reading framed _).bind fun working _ => ?_
  have hassign : reportMeter.Metered Prod.snd framed
      (checked (assignOrdinals working.frame.height framed))
      (checked (assignOrdinals working.frame.height framed)) := by
    refine Untouched.metered fun assigned hassigned => ?_
    obtain ⟨-, hrun⟩ := assignOrdinals_eq_ok (checked_eq_ok hassigned)
    rw [hrun]
    exact .of_eq rfl rfl rfl rfl
  refine hassign.bind fun assigned _ => (metered_reading assigned.2 _).bind fun batch _ => ?_
  have hdropped := (untouched_drop assigned.2 isPayload_polars).trans
    (untouched_drop (assigned.2.drop .polars) isPayload_envelope)
  refine hdropped.before ((metered_swap assigned.2 (env.polars.arrayMemorySize batch)).bind
    fun held _ => ?_)
  exact metered_return rfl

theorem metered_processEnvelope (run : VerificationRun) (envelope : BatchEnvelope) :
    reportMeter.Metered id run (processEnvelope env run envelope)
      (processEnvelope env.ample run envelope) := by
  refine (metered_openEnvelope hlaw run envelope).bind fun opened _ =>
    (metered_routeWindows hlaw _ _ _ _ opened.run _).bind fun routed _ => ?_
  refine Untouched.metered fun a ha => ?_
  cases ha
  exact untouched_drop routed isPayload_envelope

theorem metered_streamVerification (envelopes : List BatchEnvelope) (run : VerificationRun) :
    reportMeter.Metered id run (streamVerification env envelopes run)
      (streamVerification env.ample envelopes run) :=
  Meter.Metered.foldlM fun run envelope _ => metered_processEnvelope hlaw run envelope

end

end Stillflow.Engine
