import Stillflow.Engine.ReportEmission

/-! What reaches the report sections. -/

namespace Stillflow.Engine

open Stillflow.Core Stillflow.Plan Lib Lib.Fallible Lib.Mask List

variable {cause : Rejection} {env : VerificationEnv} {fuel : Nat} {origin : Origin}
  {run run' : VerificationRun} {state state' : Routing} {sidecar : List (Nat × Nat)}

def Pack.valSummaryRows : Pack → List ValSummaryRow
  | .validationRuleSummary _ _ rows => rows
  | _ => []

/-- A slot for what outlives its envelope: accepted or rejected rows, or report rows. -/
def Slot.IsRetained (slot : Slot) : Prop := slot ≠ .envelope ∧ slot ≠ .polars

instance (slot : Slot) : Decidable slot.IsRetained := inferInstanceAs (Decidable (_ ∧ _))

/-- What the routing of rows does to a run: it edits its records, charges and releases the retained
slots and writes payloads. -/
inductive Routes (env : VerificationEnv) : VerificationRun → VerificationRun → Prop
  | edit {before after : VerificationRun} (hmemory : after.memory = before.memory)
    (hpacks : after.packs = before.packs) : Routes env before after
  | hold {before after : VerificationRun} {slot : Slot} {bytes : Nat} (hslot : slot.IsRetained)
    (h : before.hold env.law slot bytes = .ok after) : Routes env before after
  | release (run : VerificationRun) {slot : Slot} (hslot : slot.IsRetained) (bytes : Nat) :
    Routes env run (run.release slot bytes)
  | emit {before after : VerificationRun} {pack : Pack} {message : String}
    (hpack : pack.IsPayload) (h : before.emit env pack message = .ok after) :
    Routes env before after
  | trans {a b c : VerificationRun} (hab : Routes env a b) (hbc : Routes env b c) : Routes env a c

theorem Routes.refl (env : VerificationEnv) (run : VerificationRun) : Routes env run run :=
  .edit rfl rfl

theorem isRetained_accepted : Slot.accepted.IsRetained := by decide

theorem isRetained_rejected : Slot.rejected.IsRetained := by decide

theorem isRetained_validation : Slot.validation.IsRetained := by decide

theorem isRetained_dedup : Slot.dedup.IsRetained := by decide

/-- Between two states only payloads are written. -/
def Streams (before after : VerificationRun) : Prop :=
  ∃ more, after.packs = before.packs ++ more ∧ ∀ pack ∈ more, pack.IsPayload

theorem Streams.of_eq {before after : VerificationRun} (h : after.packs = before.packs) :
    Streams before after :=
  ⟨[], by rw [h, append_nil], by simp⟩

theorem Streams.trans {a b c : VerificationRun} (hab : Streams a b) (hbc : Streams b c) :
    Streams a c := by
  obtain ⟨xs, hxs, hx⟩ := hab
  obtain ⟨ys, hys, hy⟩ := hbc
  exact ⟨xs ++ ys, by rw [hys, hxs, append_assoc], forall_mem_append.mpr ⟨hx, hy⟩⟩

theorem streams_hold {law : MemoryLaw} {slot : Slot} {bytes : Nat}
    (h : run.hold law slot bytes = .ok run') : Streams run run' := by
  obtain ⟨_, -, rfl⟩ := hold_eq_ok h
  exact .of_eq rfl

theorem Routes.streams {before after : VerificationRun} (h : Routes env before after) :
    Streams before after := by
  induction h with
  | edit hmemory hpacks => exact .of_eq hpacks
  | hold hslot h => exact streams_hold h
  | release run hslot bytes => exact .of_eq rfl
  | emit hpack h =>
    rw [emit_eq_ok h]
    refine ⟨[_], rfl, fun other hother => ?_⟩
    rw [mem_singleton.mp hother]
    exact hpack
  | trans _ _ ihab ihbc => exact ihab.trans ihbc

theorem Delivers.routes (h : Delivers env run run') : Routes env run run' := by
  induction h with
  | edit hmemory _ _ hpacks => exact .edit hmemory hpacks
  | release run hslot bytes =>
    rcases hslot with rfl | rfl
    · exact .release run isRetained_accepted bytes
    · exact .release run isRetained_rejected bytes
  | emit hpack h => exact .emit hpack h
  | trans _ _ ihab ihbc => exact ihab.trans ihbc

theorem routes_rejectRow {entry : Nat × Nat} (h : rejectRow env origin cause entry run = .ok run') :
    Routes env run run' := by
  obtain ⟨_, -, h⟩ := of_bind h
  cases hrow : origin.batch.rows[origin.offset + entry.1]? with
  | none =>
    rw [hrow] at h
    cases h
  | some row =>
    rw [hrow] at h
    obtain ⟨held, hheld, h⟩ := of_bind (checked_eq_ok h)
    have hcounted : Routes env run run.countRejection := .edit rfl rfl
    have hcounted := hcounted.trans (.hold isRetained_rejected hheld)
    exact hcounted.trans (delivers_addRejected h).routes

theorem routes_rejectDead {dead : List Bool}
    (h : rejectDead env origin cause dead sidecar run = .ok run') : Routes env run run' := by
  induction dead generalizing sidecar run with
  | nil =>
    cases h
    exact .refl env _
  | cons flag dead ih =>
    cases flag with
    | false => exact ih h
    | true =>
      cases sidecar with
      | nil => cases h
      | cons entry sidecar =>
        obtain ⟨rejected, hrejected, h⟩ := of_bind h
        exact (routes_rejectRow hrejected).trans (ih h)

theorem routes_acceptSurvivors (hheight : 0 < state.window.frame.height)
    (h : acceptSurvivors env state = .ok run) : Routes env state.run run := by
  unfold acceptSurvivors at h
  rw [if_pos hheight] at h
  obtain ⟨survivors, -, h⟩ := of_bind h
  obtain ⟨held, hheld, h⟩ := of_bind h
  have hheld : Routes env state.run held := .hold isRetained_accepted hheld
  refine hheld.trans (.trans ?_ (delivers_flushAcceptedLoop h).routes)
  exact .edit rfl rfl

theorem streams_acceptSurvivors (h : acceptSurvivors env state = .ok run) :
    Streams state.run run := by
  by_cases hheight : 0 < state.window.frame.height
  · exact (routes_acceptSurvivors hheight h).streams
  · unfold acceptSurvivors at h
    rw [if_neg hheight] at h
    cases h
    exact .of_eq rfl

theorem routes_validateRows {rule : ValidateRule} {outcomes : List (Option Bool)}
    {counts : List Nat} {result : VerificationRun × List Nat}
    (h : validateRows env rule outcomes sidecar counts run = .ok result) :
    Routes env run result.1 := by
  induction outcomes generalizing sidecar counts run result with
  | nil =>
    cases h
    exact .refl env _
  | cons outcome outcomes ih =>
    have htally : Routes env run (run.tally rule outcome) := .edit rfl rfl
    by_cases hpass : outcome = some true
    · subst hpass
      obtain ⟨rest, hrest, h⟩ := of_bind h
      cases h
      have hrest := ih hrest
      exact htally.trans hrest
    · obtain ⟨entry, _, _, _, held, next, -, -, hheld, hnext, rfl⟩ :=
        validateRows_fail_eq_ok hpass h
      have hheld := htally.trans (.hold isRetained_validation hheld)
      have hfound : Routes env held (held.addFinding (rule.finding entry.2 outcome)) :=
        .edit rfl rfl
      have hnext := ih hnext
      exact (hheld.trans hfound).trans hnext

theorem routes_dedupRow {rule : DedupRule} {row : Row} {ordinal : Nat}
    {result : VerificationRun × Bool} (h : dedupRow env rule row ordinal run = .ok result) :
    Routes env run result.1 := by
  obtain ⟨key, -, h⟩ := of_bind h
  obtain ⟨⟨index, inserted⟩, -, h⟩ := of_bind h
  cases inserted with
  | inserted first =>
    cases h
    exact .edit rfl rfl
  | duplicate first =>
    obtain ⟨held, hheld, h⟩ := of_bind h
    cases h
    have hcounted : Routes env run ({ run with index := index }.countDuplicate rule.slot) :=
      .edit rfl rfl
    have hheld := hcounted.trans (.hold isRetained_dedup hheld)
    exact hheld.trans (.edit rfl rfl)

theorem routes_dedupRows {rule : DedupRule} {rows : List Row} {result : VerificationRun × List Bool}
    (h : dedupRows env rule rows sidecar run = .ok result) : Routes env run result.1 := by
  induction rows generalizing sidecar run result with
  | nil =>
    cases h
    exact .refl env _
  | cons row rows ih =>
    cases sidecar with
    | nil => cases h
    | cons entry sidecar =>
      obtain ⟨first, hfirst, h⟩ := of_bind h
      obtain ⟨rest, hrest, h⟩ := of_bind h
      cases h
      have hrest := ih hrest
      exact (routes_dedupRow (checked_eq_ok hfirst)).trans hrest

theorem routes_endRows {dead : List Bool} (h : endRows env origin cause dead state = .ok state') :
    Routes env state.run state'.run := by
  unfold endRows at h
  split_ifs at h
  · obtain ⟨run, hrun, h⟩ := of_bind h
    obtain ⟨window, -, h⟩ := of_bind h
    cases h
    exact routes_rejectDead hrun
  · cases h
    exact .refl env _

theorem routes_runStep {step : VStep} (h : runStep env origin state step = .ok state') :
    Routes env state.run state'.run := by
  cases step with
  | validate nodeId ruleOrdinal predicate severity message =>
    obtain ⟨outcomes, -, h⟩ := of_bind h
    obtain ⟨slot, -, h⟩ := of_bind h
    obtain ⟨result, hresult, h⟩ := of_bind h
    exact (routes_validateRows hresult).trans (routes_endRows h)
  | deduplicate nodeId ruleOrdinal keys keyTypes =>
    obtain ⟨slot, -, h⟩ := of_bind h
    obtain ⟨columns, -, h⟩ := of_bind h
    obtain ⟨result, hresult, h⟩ := of_bind h
    have hcounted : Routes env state.run
        (state.run.countEvaluated slot state.window.frame.height) := .edit rfl rfl
    exact (hcounted.trans (routes_dedupRows hresult)).trans (routes_endRows h)
  | _ =>
    rw [runStep_run rfl h]
    exact .refl env _

theorem routes_steps {steps : List VStep} (h : steps.foldlM (runStep env origin) state = .ok state') :
    Routes env state.run state'.run :=
  foldlM_invariant (fun current : Routing => Routes env state.run current.run)
    (fun _ hcurrent hnext => hcurrent.trans (routes_runStep hnext)) (.refl env _) h

theorem streams_processEnvelope {envelope : BatchEnvelope}
    (h : processEnvelope env run envelope = .ok run') : Streams run run' := by
  obtain ⟨opened, hopened, hcase⟩ := processEnvelope_eq_ok h
  have hopening : Streams run opened.run := .of_eq ((openEnvelope_eq_ok hopened).packs)
  rcases hcase with ⟨-, rfl⟩ | ⟨-, held, state, routed, hheld, hstate, haccepted, rfl⟩
  · exact hopening.trans (.of_eq rfl)
  · have hheld := streams_hold hheld
    have hsurvivors := streams_acceptSurvivors haccepted
    exact ((hopening.trans hheld).trans (routes_steps hstate).streams).trans
      (hsurvivors.trans (.of_eq rfl))

theorem streams_streamVerification {envelopes : List BatchEnvelope}
    (h : streamVerification env envelopes env.start = .ok run) : Streams env.start run :=
  foldlM_invariant (fun current => Streams env.start current)
    (fun _ hcurrent hnext => hcurrent.trans (streams_processEnvelope hnext)) (.of_eq rfl) h

theorem payload_reports {packs : List Pack} (h : ∀ pack ∈ packs, pack.IsPayload) :
    packs.flatMap Pack.valFindingRows = [] ∧ packs.flatMap Pack.valSummaryRows = [] := by
  refine ⟨flatMap_eq_nil_iff.mpr fun pack hpack => ?_,
    flatMap_eq_nil_iff.mpr fun pack hpack => ?_⟩ <;>
  · have hpayload := h pack hpack
    cases pack <;> first | rfl | exact hpayload.elim

theorem flushSummaries_eq_ok {α : Type} {pack : Nat → List α → Pack} {rows : List α}
    {sequence : Nat} {result : VerificationRun × Nat} (hfuel : rows.length ≤ fuel)
    (h : flushSummaries env pack fuel rows sequence run = .ok result) :
    ∃ more, result.1 = { run with packs := run.packs ++ more } ∧
      ∃ parts : List (Nat × List α), more = parts.map (fun part => pack part.1 part.2) ∧
        parts.flatMap (·.2) = rows := by
  induction fuel generalizing rows sequence run with
  | zero =>
    cases h
    have hrows : rows = [] := length_eq_zero_iff.mp (by omega)
    exact ⟨[], by simp, [], rfl, by simp [hrows]⟩
  | succ fuel ih =>
    unfold flushSummaries at h
    split_ifs at h with hempty
    · cases h
      exact ⟨[], by simp, [], rfl, by simp [hempty]⟩
    · obtain ⟨emitted, hemitted, h⟩ := of_bind h
      have hpos : 0 < rows.length := length_pos_iff.mpr hempty
      have hshorter : (rows.drop reportPackRows).length ≤ fuel := by
        rw [length_drop, reportPackRows]
        omega
      obtain ⟨more, hmore, parts, hparts, hrows⟩ := ih hshorter h
      rw [emit_eq_ok hemitted] at hmore
      refine ⟨pack sequence (rows.take reportPackRows) :: more, ?_,
        (sequence, rows.take reportPackRows) :: parts, by rw [hparts, map_cons], ?_⟩
      · rw [hmore]
        simp
      · rw [flatMap_cons, hrows]
        exact take_append_drop _ _

theorem flushValidationRuleSummaries_eq_ok (h : flushValidationRuleSummaries env run = .ok run') :
    ∃ more, run'.packs = run.packs ++ more ∧ more.flatMap Pack.valFindingRows = [] ∧
      more.flatMap Pack.valSummaryRows = run.valSummaries := by
  obtain ⟨result, hresult, h⟩ := of_bind h
  cases h
  obtain ⟨more, hmore, parts, rfl, hrows⟩ := flushSummaries_eq_ok (le_refl _) hresult
  refine ⟨_, by rw [hmore], ?_, ?_⟩
  · rw [flatMap_map]
    exact flatMap_eq_nil_iff.mpr fun _ _ => rfl
  · rw [flatMap_map]
    exact hrows

theorem flushDedupRuleSummaries_eq_ok (h : flushDedupRuleSummaries env run = .ok run') :
    ∃ more, run'.packs = run.packs ++ more ∧ more.flatMap Pack.valFindingRows = [] ∧
      more.flatMap Pack.valSummaryRows = [] := by
  obtain ⟨result, hresult, h⟩ := of_bind h
  cases h
  obtain ⟨more, hmore, parts, rfl, -⟩ := flushSummaries_eq_ok (le_refl _) hresult
  refine ⟨_, by rw [hmore], ?_, ?_⟩ <;>
  · rw [flatMap_map]
    exact flatMap_eq_nil_iff.mpr fun _ _ => rfl

theorem finishAccepted_valSummaries (h : finishAccepted env run = .ok run') :
    run'.valSummaries = run.valSummaries := by
  obtain ⟨flushed, hflushed, h⟩ := of_bind h
  have hloop : flushed.valSummaries = run.valSummaries :=
    congrArg Ledger.valSummaries (flushAcceptedLoop_tail hflushed).others
  split_ifs at h
  · cases h
    exact hloop
  · have htail := emitAccepted_tail h
    have hkept : run'.valSummaries = flushed.valSummaries :=
      congrArg Ledger.valSummaries htail.others
    exact hkept.trans hloop

theorem finishRun_reports {run final : VerificationRun} (h : finishRun env run = .ok final) :
    ∃ more, final.packs = run.packs ++ more ∧
      more.flatMap Pack.valFindingRows = run.valFindings ∧
      more.flatMap Pack.valSummaryRows = run.valSummaries := by
  obtain ⟨accepted, haccepted, h⟩ := of_bind h
  obtain ⟨summarized, hsummarized, h⟩ := of_bind h
  obtain ⟨counted, hcounted, h⟩ := of_bind h
  obtain ⟨validated, hvalidated, h⟩ := of_bind h
  obtain ⟨deduplicated, hdeduplicated, h⟩ := of_bind h
  obtain ⟨tail, htail, htailPayload⟩ := (delivers_finishAccepted haccepted).routes.streams
  obtain ⟨rejected, hrejected, hrejectedPayload⟩ := (delivers_flushRejectedLoop h).routes.streams
  obtain ⟨summaries, hsummaries, hsummaryRows⟩ := flushValidationRuleSummaries_eq_ok hsummarized
  obtain ⟨dedups, hdedups, hdedupRows⟩ := flushDedupRuleSummaries_eq_ok hcounted
  obtain ⟨⟨findings, hfindings, hfindingRows, hfinding⟩, -⟩ :=
    flushFindings_eq_ok hvalidated Pack.valFindingRows rfl
  obtain ⟨⟨duplicates, hduplicates, -, hduplicate⟩, -⟩ :=
    flushFindings_eq_ok hdeduplicated Pack.dupFindingRows rfl
  have hval := (untouched_before_findings haccepted hsummarized hcounted).valFindings
  refine ⟨tail ++ summaries ++ dedups ++ findings ++ duplicates ++ rejected, ?_, ?_, ?_⟩
  · rw [hrejected, hduplicates, hfindings, hdedups, hsummaries, htail]
    simp only [append_assoc]
  · simp only [flatMap_append, payload_reports htailPayload, payload_reports hrejectedPayload,
      hsummaryRows, hdedupRows, hfindingRows, flatMap_pack Pack.valFindingRows hduplicate rfl,
      hval, nil_append, append_nil]
  · simp only [flatMap_append, payload_reports htailPayload, payload_reports hrejectedPayload,
      hsummaryRows, hdedupRows, flatMap_pack Pack.valSummaryRows hfinding rfl,
      flatMap_pack Pack.valSummaryRows hduplicate rfl, finishAccepted_valSummaries haccepted,
      nil_append, append_nil]

end Stillflow.Engine
