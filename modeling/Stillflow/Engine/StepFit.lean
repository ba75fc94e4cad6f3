import Stillflow.Engine.RuleCounts

/-! Steps that fit their window and steps that do not. -/

namespace Stillflow.Engine

open Stillflow.Core Stillflow.Plan Lib.Fallible Lib.Mask Lib.Visits List

variable {env : VerificationEnv} {origin : Origin} {run : VerificationRun} {state state' : Routing}
  {envelopes : List BatchEnvelope}

/-- What holds of every window a step is executed on, whether or not the step fits it. -/
structure Sound (env : VerificationEnv) (origin : Origin) (state : Routing) : Prop where
  aligned : state.window.Aligned
  inBounds : state.window.InBounds origin
  slots : state.run.valSummaries.length = (validationSummaries env.vplan.vsteps).length

theorem Sound.of_compacts {mask : List Bool} (hs : Sound env origin state)
    (hcompact : CompactsTo mask state.window state'.window)
    (hslots : state'.run.valSummaries.length = state.run.valSummaries.length) :
    Sound env origin state' where
  aligned := hcompact.aligned hs.aligned
  inBounds := by
    intro entry hentry
    rw [hcompact.sidecar] at hentry
    exact hs.inBounds entry ((keep_sublist _ _).subset hentry)
  slots := hslots.trans hs.slots

/-- Rows end as a mask says, also when the mask is the single outcome of a longer window. -/
theorem endRows_compacts {cause : Rejection} {dead : List Bool}
    (h : endRows env origin cause dead state = .ok state') (ha : state.window.Aligned)
    (hlen : dead.length = state.window.frame.height ∨ dead.length = 1) :
    ∃ mask, CompactsTo mask state.window state'.window := by
  rcases hlen with hlen | hlen
  · exact ⟨_, endRows_window h ha hlen⟩
  · obtain ⟨flag, rfl⟩ := length_eq_one_iff.mp hlen
    cases flag with
    | false =>
      cases h
      exact ⟨List.replicate state.window.frame.height true, .refl ha (by simp) (by simp)⟩
    | true =>
      obtain ⟨run, -, h⟩ := of_bind h
      obtain ⟨window, hwindow, h⟩ := of_bind h
      cases h
      exact ⟨_, compactAlive_single hwindow⟩

theorem runStep_validate_outcomes {nodeId : Uuid} {ruleOrdinal : Nat} {predicate : Expr}
    {severity : ValidationSeverity} {message : String} (ha : state.window.Aligned)
    (h : runStep env origin state (.validate nodeId ruleOrdinal predicate severity message) =
      .ok state') :
    ∃ outcomes slot mask, evaluatePredicate env state.window.frame state.window.schema predicate =
        .ok outcomes ∧ env.valSummaryIndex (nodeId, ruleOrdinal) = some slot ∧
      CompactsTo mask state.window state'.window ∧
      state'.run.valSummaries = state.run.valSummaries.modify slot fun row =>
        { row with tally := outcomes.foldl (fun t => t.add severity) row.tally } := by
  obtain ⟨outcomes, houtcomes, h⟩ := of_bind h
  obtain ⟨slot, hslot, h⟩ := of_bind h
  obtain ⟨result, hresult, h⟩ := of_bind h
  have houtcomes := checked_eq_ok houtcomes
  obtain ⟨hledger, hcounts⟩ := validateRows_ledger hresult
  obtain ⟨hfree, hcolumns⟩ := evaluatePredicate_eq_ok houtcomes
  have hdead : (deadOutcomes severity outcomes).length = state.window.frame.height ∨
      (deadOutcomes severity outcomes).length = 1 := by
    by_cases hcase : columnFree predicate
    · obtain ⟨outcome, rfl, -⟩ := hfree hcase
      exact .inr (by simp [deadOutcomes])
    · rw [hcolumns hcase]
      exact .inl (by simp [deadOutcomes, Frame.height])
  have ha' : ({ state.window with findingsPerRow := result.2 } : Window).Aligned :=
    ⟨ha.sidecar, hcounts.trans ha.counts⟩
  obtain ⟨mask, hcompact⟩ := endRows_compacts h ha' hdead
  refine ⟨outcomes, slot, mask, houtcomes, ofOption_eq_ok (checked_eq_ok hslot),
    ⟨hcompact.rows, hcompact.sidecar, hcompact.counts⟩, ?_⟩
  have hsummaries := congrArg Ledger.valSummaries (endRows_ledger h)
  exact hsummaries.trans (congrArg Ledger.valSummaries hledger)

theorem Sound.step {step : VStep} (hproduct : step.IsProduct) (hs : Sound env origin state)
    (h : runStep env origin state step = .ok state') : Sound env origin state' := by
  have hplain : step.Fits state.window → state'.run.valSummaries.length =
      state.run.valSummaries.length → Sound env origin state' := by
    intro hfits hslots
    obtain ⟨mask, he⟩ := runStep_effect hproduct hs.aligned hfits h
    refine ⟨he.aligned hs.aligned, ?_, hslots.trans hs.slots⟩
    intro entry hentry
    rw [he.sidecar] at hentry
    exact hs.inBounds entry ((keep_sublist _ _).subset hentry)
  cases step with
  | validate nodeId ruleOrdinal predicate severity message =>
    obtain ⟨_, slot, mask, -, -, hcompact, hsummaries⟩ := runStep_validate_outcomes hs.aligned h
    exact hs.of_compacts hcompact (by rw [hsummaries, length_modify])
  | deduplicate nodeId ruleOrdinal keyIds keyTypes =>
    refine hplain trivial ?_
    obtain ⟨slot, columns, keys, -, -, heffect⟩ := runStep_deduplicate hs.aligned h
    rw [heffect.reports.1]
  | _ => exact hplain trivial (by rw [runStep_run rfl h])

theorem sound_onlyWindow {run held : VerificationRun} {opened : OpenedEnvelope}
    (hslots : run.valSummaries.length = (validationSummaries env.vplan.vsteps).length)
    (ho : Opened run opened)
    (hheld : opened.run.hold env.law .polars
      (env.polars.estimatedSize (onlyWindow env opened).frame) = .ok held) :
    Sound env ⟨opened.batch, 0⟩ ⟨held, onlyWindow env opened⟩ where
  aligned := onlyWindow_aligned ho
  inBounds := onlyWindow_inBounds ho
  slots := by
    have hval := congrArg Ledger.valSummaries ((hold_ledger hheld).trans ho.ledger)
    rw [show held.valSummaries = _ from hval]
    exact hslots

theorem processEnvelope_slots {run run' : VerificationRun} {envelope : BatchEnvelope}
    (hproduct : ∀ step ∈ env.routingSteps, step.IsProduct)
    (hslots : run.valSummaries.length = (validationSummaries env.vplan.vsteps).length)
    (h : processEnvelope env run envelope = .ok run') :
    run'.valSummaries.length = (validationSummaries env.vplan.vsteps).length := by
  obtain ⟨opened, hopened, hcase⟩ := processEnvelope_eq_ok h
  have ho := openEnvelope_eq_ok hopened
  rcases hcase with ⟨-, rfl⟩ | ⟨-, held, state, routed, hheld, hsteps, haccept, rfl⟩
  · rw [show (opened.run.drop .envelope).valSummaries = _ from congrArg Ledger.valSummaries ho.ledger]
    exact hslots
  · obtain ⟨_, _, -, -, htail⟩ := acceptSurvivors_eq_ok haccept
    have hsound : Sound env ⟨opened.batch, 0⟩ state := by
      refine foldlM_invariant (Sound env ⟨opened.batch, 0⟩) ?_ (sound_onlyWindow hslots ho hheld)
        hsteps
      intro current step next hstep hcurrent hnext
      exact hcurrent.step (hproduct step hstep) hnext
    rw [show (routed.drop .envelope).valSummaries = _ from
      congrArg Ledger.valSummaries htail.others]
    exact hsound.slots

/-- Every visit of a run is to a sound window. -/
theorem sound_of_mem_runVisits (hproduct : ∀ step ∈ env.routingSteps, step.IsProduct) {v : Visit}
    (hv : v ∈ env.runVisits envelopes) :
    Sound env v.origin v.state ∧ v.step ∈ env.routingSteps := by
  obtain ⟨⟨run, envelope⟩, hrun, hv⟩ := mem_flatMap.mp hv
  have hslots : run.valSummaries.length = (validationSummaries env.vplan.vsteps).length :=
    visits_invariant (fun run : VerificationRun => run.valSummaries.length =
      (validationSummaries env.vplan.vsteps).length) rfl
      (fun _ _ _ _ hrun hnext => processEnvelope_slots hproduct hrun hnext) _ hrun
  simp only [envelopeVisits] at hv
  split at hv
  · cases hv
  · rename_i opened hopened
    split_ifs at hv
    · split at hv
      · cases hv
      · rename_i held hheld
        obtain ⟨w, hw, rfl⟩ := mem_map.mp hv
        refine ⟨?_, mem_of_visits hw⟩
        refine visits_invariant (Sound env ⟨opened.batch, 0⟩)
          (sound_onlyWindow hslots (openEnvelope_eq_ok hopened) hheld) ?_ w hw
        intro current step next hstep hcurrent hnext
        exact hcurrent.step (hproduct step hstep) hnext
    · cases hv

theorem only_step {v : Visit} {step : VStep} (hv : v ∈ env.runVisits envelopes)
    (hsteps : env.routingSteps = [step]) (hproduct : step.IsProduct) : v.step = step := by
  have hall : ∀ other ∈ env.routingSteps, other.IsProduct := by
    simpa [hsteps] using hproduct
  have hmem := (sound_of_mem_runVisits hall hv).2
  rwa [hsteps, mem_singleton] at hmem

theorem processEnvelope_ne_panic {envelope : BatchEnvelope}
    (hproduct : ∀ step ∈ env.routingSteps, step.IsProduct)
    (hslots : run.valSummaries.length = (validationSummaries env.vplan.vsteps).length)
    (hfits : ∀ v ∈ envelopeVisits env run envelope, v.Fits) :
    processEnvelope env run envelope ≠ .error .panic := by
  apply bind_ne_error (checked_ne_panic _)
  intro opened hopened
  have hopened := checked_eq_ok hopened
  have ho := openEnvelope_eq_ok hopened
  refine bind_ne_error ?_ fun routed _ => ok_ne_panic _
  rw [routeWindows_eq ho]
  split_ifs with hheight
  · refine bind_ne_error ?_ fun routed _ => ok_ne_panic _
    apply bind_ne_error (checked_ne_panic _)
    intro held hheld
    have hheld := checked_eq_ok hheld
    rw [mem_envelopeVisits hopened hheight hheld] at hfits
    refine bind_ne_error ?_ fun state _ => bind_ne_error (checked_ne_panic _) fun _ _ =>
      ok_ne_panic _
    refine foldlM_ne_error (Sound env ⟨opened.batch, 0⟩)
      (fun v => v.2.IsProduct ∧ v.2.Fits v.1.window) (sound_onlyWindow hslots ho hheld) ?_ ?_ ?_
    · exact fun current step next hcurrent hvisit hnext => hcurrent.step hvisit.1 hnext
    · exact fun current step hcurrent hvisit =>
        runStep_ne_panic hcurrent.aligned hcurrent.inBounds hvisit.2
    · exact fun v hv => ⟨hproduct _ (mem_of_visits hv), hfits _ (mem_map_of_mem hv)⟩
  · exact ok_ne_panic _

theorem streamVerification_ne_panic (hproduct : ∀ step ∈ env.routingSteps, step.IsProduct)
    (hfits : ∀ v ∈ env.runVisits envelopes, v.Fits) :
    streamVerification env envelopes env.start ≠ .error .panic := by
  refine foldlM_ne_error
    (fun run : VerificationRun => run.valSummaries.length =
      (validationSummaries env.vplan.vsteps).length)
    (fun v => ∀ visit ∈ envelopeVisits env v.1 v.2, visit.Fits) rfl ?_ ?_ ?_
  · exact fun run envelope next hrun _ hnext => processEnvelope_slots hproduct hrun hnext
  · exact fun run envelope hrun hvisit => processEnvelope_ne_panic hproduct hrun hvisit
  · exact fun v hv visit hvisit => hfits visit (mem_flatMap.mpr ⟨v, hv, hvisit⟩)

theorem summaryIndex_lt {keys : List (Uuid × Nat)} {key : Uuid × Nat} {slot : Nat}
    (h : summaryIndex keys key = some slot) : slot < keys.length := by
  obtain ⟨entry, hentry, rfl⟩ := Option.map_eq_some_iff.mp h
  have hmem := mem_of_find?_eq_some hentry
  have hindex := mem_zipIdx (mem_reverse.mp hmem)
  omega

/-- The step counts every row of its window. -/
def Visit.Counts (env : VerificationEnv) (v : Visit) (state' : Routing) : Prop :=
  ∀ slot, v.valSlot env = some slot → ∃ row row', v.state.run.valSummaries[slot]? = some row ∧
    state'.run.valSummaries[slot]? = some row' ∧
    row'.tally.evaluated = row.tally.evaluated + v.state.window.frame.height

theorem runStep_evaluated {nodeId : Uuid} {ruleOrdinal : Nat} {predicate : Expr}
    {severity : ValidationSeverity} {message : String} (hs : Sound env origin state)
    (h : runStep env origin state (.validate nodeId ruleOrdinal predicate severity message) =
      .ok state') :
    ∃ outcomes slot row row',
      evaluatePredicate env state.window.frame state.window.schema predicate = .ok outcomes ∧
      env.valSummaryIndex (nodeId, ruleOrdinal) = some slot ∧
      state.run.valSummaries[slot]? = some row ∧ state'.run.valSummaries[slot]? = some row' ∧
      row'.tally.evaluated = row.tally.evaluated + outcomes.length := by
  obtain ⟨outcomes, slot, _, houtcomes, hslot, -, hsummaries⟩ :=
    runStep_validate_outcomes hs.aligned h
  have hlt : slot < state.run.valSummaries.length := by
    have hlt := summaryIndex_lt hslot
    rw [length_map] at hlt
    rw [hs.slots]
    exact hlt
  obtain ⟨row, hrow⟩ : ∃ row, state.run.valSummaries[slot]? = some row :=
    ⟨_, getElem?_eq_getElem hlt⟩
  refine ⟨outcomes, slot, row,
    { row with tally := outcomes.foldl (fun t => t.add severity) row.tally }, houtcomes, hslot,
    hrow, ?_, (row.tally.foldl_add severity outcomes).1⟩
  rw [hsummaries, getElem?_modify, hrow]
  simp

/-- A step that returns or panics counts every row and does not panic exactly when it fits. -/
theorem counts_iff_fits {v : Visit} (hs : Sound env v.origin v.state)
    (herror : ∀ e, runStep env v.origin v.state v.step ≠ .error (.error e)) :
    (∃ state', runStep env v.origin v.state v.step = .ok state' ∧ v.Counts env state') ↔
      v.Fits := by
  obtain ⟨origin, state, step⟩ := v
  constructor
  · rintro ⟨state', h, hcounts⟩
    cases step with
    | validate nodeId ruleOrdinal predicate severity message =>
      intro hfree
      obtain ⟨outcomes, slot, row, row', houtcomes, hslot, hrow, hrow', hevaluated⟩ :=
        runStep_evaluated hs h
      obtain ⟨outcome, rfl, -⟩ := (evaluatePredicate_eq_ok houtcomes).1 hfree
      obtain ⟨before, after, hbefore, hafter, hcount⟩ := hcounts slot hslot
      cases hrow.symm.trans hbefore
      cases hrow'.symm.trans hafter
      simp only [length_singleton] at hevaluated
      omega
    | _ => exact trivial
  · intro hfits
    cases hstep : runStep env origin state step with
    | error fault =>
      cases fault with
      | error e => exact absurd hstep (herror e)
      | panic => exact absurd hstep (runStep_ne_panic hs.aligned hs.inBounds hfits)
    | ok state' =>
      refine ⟨state', rfl, fun slot hslot => ?_⟩
      cases step with
      | validate nodeId ruleOrdinal predicate severity message =>
        obtain ⟨outcomes, slot', row, row', houtcomes, hslot', hrow, hrow', hevaluated⟩ :=
          runStep_evaluated hs hstep
        cases hslot'.symm.trans hslot
        have hrows := evaluatePredicate_rows hfits houtcomes
        refine ⟨row, row', hrow, hrow', ?_⟩
        rw [hevaluated, hrows, length_map]
        rfl
      | _ => cases hslot

end Stillflow.Engine
