import Stillflow.Engine.MeteredRun
import Stillflow.Engine.RowRouting

/-! Emission of the findings. -/

namespace Stillflow.Engine

open Stillflow.Core Stillflow.Plan Lib Lib.Fallible Lib.Mask List

variable {env : VerificationEnv} {run run' : VerificationRun}

theorem flushSummaries_untouched {α : Type} {pack : Nat → List α → Pack}
    (hpack : ∀ sequence rows, (pack sequence rows).valFindingRows = [] ∧
      (pack sequence rows).dupFindingRows = []) {fuel : Nat} {rows : List α} {sequence : Nat}
    {result : VerificationRun × Nat}
    (h : flushSummaries env pack fuel rows sequence run = .ok result) : Untouched run result.1 := by
  induction fuel generalizing rows sequence run with
  | zero =>
    cases h
    exact .refl _
  | succ fuel ih =>
    unfold flushSummaries at h
    split_ifs at h
    · cases h
      exact .refl _
    · obtain ⟨emitted, hemitted, h⟩ := of_bind h
      have hrows := hpack sequence (rows.take reportPackRows)
      exact (untouched_emit hrows.1 hrows.2 hemitted).trans (ih h)

theorem flushRuleSummaries_untouched {α : Type} {pack : Nat → List α → Pack} {fuel sequence : Nat}
    {rows : List α} {cleared : VerificationRun} {sinks : VerificationRun × Nat → ReportSinks}
    (h : (flushSummaries env pack fuel rows sequence cleared >>= fun result =>
      return { result.1 with sinks := sinks result }) = .ok run') (hcleared : Untouched run cleared)
    (hpack : ∀ sequence rows, (pack sequence rows).valFindingRows = [] ∧
      (pack sequence rows).dupFindingRows = []) : Untouched run run' := by
  obtain ⟨result, hresult, h⟩ := of_bind h
  cases h
  have hflushed := flushSummaries_untouched hpack hresult
  exact (hcleared.trans hflushed).trans (.of_eq rfl rfl rfl rfl)

/-- The findings wait until the accepted rows and the summaries are written. -/
theorem untouched_before_findings {accepted summarized counted : VerificationRun}
    (haccepted : finishAccepted env run = .ok accepted)
    (hsummarized : flushValidationRuleSummaries env accepted = .ok summarized)
    (hcounted : flushDedupRuleSummaries env summarized = .ok counted) : Untouched run counted :=
  ((delivers_finishAccepted haccepted).untouched.trans
    (flushRuleSummaries_untouched hsummarized (.of_eq rfl rfl rfl rfl) fun _ _ => ⟨rfl, rfl⟩)).trans
    (flushRuleSummaries_untouched hcounted (.of_eq rfl rfl rfl rfl) fun _ _ => ⟨rfl, rfl⟩)

theorem releaseRows_eq (run : VerificationRun) (slot : Slot) (count : Nat) :
    ∃ memory, run.releaseRows slot count = { run with memory := memory } ∧
      ∀ other, memory.bytes other =
        if other = slot then run.memory.bytes slot - reportRowEstimateBytes * count
        else run.memory.bytes other := by
  induction count with
  | zero =>
    refine ⟨run.memory, rfl, fun other => ?_⟩
    rw [Nat.mul_zero, Nat.sub_zero]
    split_ifs with h
    · rw [h]
    · rfl
  | succ count ih =>
    obtain ⟨memory, hrun, hbytes⟩ := ih
    have hstep : run.releaseRows slot (count + 1) =
        (run.releaseRows slot count).release slot reportRowEstimateBytes := by
      simp [VerificationRun.releaseRows, range_succ]
    refine ⟨memory.release slot reportRowEstimateBytes, ?_, fun other => ?_⟩
    · rw [hstep, hrun]
      rfl
    · rw [VerificationMemory.bytes_release, hbytes, hbytes, if_pos rfl, Nat.mul_succ]
      split_ifs <;> omega

/-- The findings of a run are in the writer's sections, once and in order, in packs of bounded
size, and nothing of them is held. -/
structure Emitted (run final : VerificationRun) : Prop where
  validation : final.packs.flatMap Pack.valFindingRows = run.valFindings
  duplicate : final.packs.flatMap Pack.dupFindingRows = run.dupFindings
  bounded : ∀ pack ∈ final.packs, pack.valFindingRows.length ≤ reportPackRows ∧
    pack.dupFindingRows.length ≤ reportPackRows
  released : ∀ report : Report, final.memory.bytes report.slot = 0

theorem flatMap_unsent {packs : List Pack} (h : Unsent packs) :
    packs.flatMap Pack.valFindingRows = [] ∧ packs.flatMap Pack.dupFindingRows = [] :=
  ⟨flatMap_eq_nil_iff.mpr fun pack hpack => (h pack hpack).1,
    flatMap_eq_nil_iff.mpr fun pack hpack => (h pack hpack).2⟩

theorem flatMap_pack {α : Type} {pack : Pack} {more : List Pack} (field : Pack → List α)
    (hmore : ∀ other ∈ more, other = pack) (hfield : field pack = []) : more.flatMap field = [] :=
  flatMap_eq_nil_iff.mpr fun other hother => by rw [hmore other hother, hfield]

/-- The findings of a kind are written in one pack, if there are any, and their charge is given
back. -/
theorem flushFindings_eq_ok {α : Type} {rows : List α} [Decidable (rows = [])] {pack : Pack}
    {message : String} {sinks : VerificationRun → ReportSinks} {slot : Slot}
    (h : (if rows = [] then .ok run else do
      let emitted ← (run.releaseRows slot rows.length).emit env pack message
      return { emitted with sinks := sinks emitted }) = .ok run')
    (field : Pack → List α) (hfield : field pack = rows) :
    (∃ more, run'.packs = run.packs ++ more ∧ more.flatMap field = rows ∧
      ∀ other ∈ more, other = pack) ∧ run'.dupFindings = run.dupFindings ∧
    (run.memory.bytes slot = reportRowEstimateBytes * rows.length → run'.memory.bytes slot = 0) ∧
    ∀ other, other ≠ slot → run'.memory.bytes other = run.memory.bytes other := by
  split_ifs at h with hempty
  · cases h
    refine ⟨⟨[], (append_nil _).symm, hempty.symm, by simp⟩, rfl, fun hbytes => ?_, fun _ _ => rfl⟩
    rw [hbytes, hempty, length_nil, Nat.mul_zero]
  · obtain ⟨emitted, hemitted, h⟩ := of_bind h
    cases h
    obtain ⟨memory, hrun, hreleased⟩ := releaseRows_eq run slot rows.length
    rw [hrun] at hemitted
    rw [emit_eq_ok hemitted]
    refine ⟨⟨[pack], rfl, by simp [hfield], by simp⟩, rfl, fun hbytes => ?_, fun other hother => ?_⟩
    · rw [hreleased, if_pos rfl, hbytes, Nat.sub_self]
    · rw [hreleased, if_neg hother]

theorem finishRun_emitted {run final : VerificationRun} (hc : Charged run) (hfits : FitsPack run)
    (h : finishRun env run = .ok final) : Emitted run final := by
  obtain ⟨accepted, haccepted, h⟩ := of_bind h
  obtain ⟨summarized, hsummarized, h⟩ := of_bind h
  obtain ⟨counted, hcounted, h⟩ := of_bind h
  obtain ⟨validated, hvalidated, h⟩ := of_bind h
  obtain ⟨deduplicated, hdeduplicated, h⟩ := of_bind h
  have hbefore := untouched_before_findings haccepted hsummarized hcounted
  have hcharged := hbefore.charged hc
  have hval : counted.valFindings = run.valFindings := hbefore.valFindings
  have hdup : counted.dupFindings = run.dupFindings := hbefore.dupFindings
  obtain ⟨⟨valPacks, hvalPacks, hvalRows, hvalPack⟩, hkept, hvalBytes, hvalOthers⟩ :=
    flushFindings_eq_ok hvalidated Pack.valFindingRows rfl
  obtain ⟨⟨dupPacks, hdupPacks, hdupRows, hdupPack⟩, -, hdupBytes, hdupOthers⟩ :=
    flushFindings_eq_ok hdeduplicated Pack.dupFindingRows rfl
  have hcharge : validated.memory.bytes .dedup =
      reportRowEstimateBytes * validated.dupFindings.length := by
    rw [hvalOthers .dedup (by decide), hkept]
    exact hcharged.bytes .duplicate
  have hrejected := (delivers_flushRejectedLoop h).untouched
  obtain ⟨more, hmore, hunsent⟩ := hrejected.packs
  have hpacks : final.packs = counted.packs ++ valPacks ++ dupPacks ++ more := by
    rw [hmore, hdupPacks, hvalPacks]
  have hstart := flatMap_unsent hcharged.unsent
  have hend := flatMap_unsent hunsent
  have hvalNone := flatMap_pack Pack.valFindingRows hdupPack rfl
  have hdupNone := flatMap_pack Pack.dupFindingRows hvalPack rfl
  refine ⟨?_, ?_, ?_, ?_⟩
  · simp only [hpacks, flatMap_append, hstart, hvalRows, hvalNone, hend, hval,
      nil_append, append_nil]
  · simp only [hpacks, flatMap_append, hstart, hdupNone, hdupRows, hend, hkept, hdup,
      nil_append, append_nil]
  · have hvalFits : run.valFindings.length ≤ reportPackRows := hfits .validation
    have hdupFits : run.dupFindings.length ≤ reportPackRows := hfits .duplicate
    intro pack hpack
    simp only [hpacks, mem_append] at hpack
    rcases hpack with ((hpack | hpack) | hpack) | hpack
    · rw [(hcharged.unsent pack hpack).1, (hcharged.unsent pack hpack).2]
      exact ⟨Nat.zero_le _, Nat.zero_le _⟩
    · rw [hvalPack pack hpack]
      exact ⟨hval ▸ hvalFits, Nat.zero_le _⟩
    · rw [hdupPack pack hpack]
      exact ⟨Nat.zero_le _, (hkept.trans hdup) ▸ hdupFits⟩
    · rw [(hunsent pack hpack).1, (hunsent pack hpack).2]
      exact ⟨Nat.zero_le _, Nat.zero_le _⟩
  · intro report
    rw [hrejected.bytes]
    cases report with
    | validation =>
      exact (hdupOthers .validation (by decide)).trans (hvalBytes (hcharged.bytes .validation))
    | duplicate => exact hdupBytes hcharge

theorem charged_start (env : VerificationEnv) : Charged env.start where
  within := VerificationMemory.withinLaw_default ampleLaw
  bytes report := by cases report <;> rfl
  unsent := unsent_nil

/-- Let a run complete its stream when the report slots have room for `MAX_REPORT_ROWS` rows. Under
the law of the source it completes the stream and emits its findings in bounded packs exactly when
neither kind of finding is more than one pack; otherwise a report slot refuses a finding. -/
theorem report_emission_iff {env : VerificationEnv} (hlaw : env.law = verificationLaw)
    {envelopes : List BatchEnvelope} {run : VerificationRun}
    (hrun : streamVerification env.ample envelopes env.start = .ok run) :
    ((streamVerification env envelopes env.start = .ok run ∧
        ∀ final, finishRun env run = .ok final → Emitted run final) ↔
      run.valFindings.length ≤ reportPackRows ∧ run.dupFindings.length ≤ reportPackRows) ∧
    (¬ (run.valFindings.length ≤ reportPackRows ∧ run.dupFindings.length ≤ reportPackRows) →
      streamVerification env envelopes env.start =
        .error (.error VerificationMemory.slotExceeded)) := by
  have hmetered := metered_streamVerification hlaw envelopes env.start
  have hcharged := charged_start env
  have hstart : FitsPack env.start := by
    intro report
    cases report <;> exact Nat.zero_le _
  have hfits : FitsPack run ↔
      run.valFindings.length ≤ reportPackRows ∧ run.dupFindings.length ≤ reportPackRows := by
    refine ⟨fun h => ⟨h .validation, h .duplicate⟩, fun h report => ?_⟩
    cases report with
    | validation => exact h.1
    | duplicate => exact h.2
  have hresult := hmetered hcharged run hrun
  rw [← hfits]
  refine ⟨⟨fun h => ?_, fun h => ⟨hresult.ok h, fun final hfinal => ?_⟩⟩, hresult.fault hstart⟩
  · exact (hmetered.ok_iff hcharged hstart hrun).mp h.1
  · exact finishRun_emitted hresult.inv h hfinal

/-- Two envelopes with three NULL ids. -/
def nullEnvelopes : List BatchEnvelope :=
  [twoRows, idEnvelope [.null, .int64 11, .null] (by decide)]

theorem report_emission_notNull :
    ∃ run, streamVerification notNullEnv nullEnvelopes notNullEnv.start = .ok run ∧
      run.valFindings.length = 3 ∧ ∀ final, finishRun notNullEnv run = .ok final →
        Emitted run final := by
  have hample : (streamVerification notNullEnv.ample nullEnvelopes
      notNullEnv.start).toOption.map
      (fun run => (run.valFindings.length, run.dupFindings.length)) = some (3, 0) := by
    decide +kernel
  obtain ⟨run, hrun, hlengths⟩ := exists_of_map_toOption hample
  obtain ⟨hval, hdup⟩ := Prod.mk.inj hlengths
  have hfits : run.valFindings.length ≤ reportPackRows ∧
      run.dupFindings.length ≤ reportPackRows := by
    rw [hval, hdup]
    decide
  obtain ⟨hstream, hfinal⟩ := (report_emission_iff rfl hrun).1.mpr hfits
  exact ⟨run, hstream, hval, hfinal⟩

def flaggedEnv : VerificationEnv :=
  { sampleEnv [.validate 2 0 notNull .warning "id is required"] with
    polars := ⟨fun _ => true, sampleEval, true, fun _ => 0, fun _ => 0⟩ }

def manyNulls : BatchEnvelope :=
  idEnvelope (List.replicate 1025 .null) (by rw [List.length_replicate]; decide)

/-- One rule and 1025 rows make at most 1025 findings, and the run fails on the report slot. -/
theorem report_slot_refuses_finding :
    buildVerificationPlan (rulesPlan [.validate notNull .warning "id is required"])
      flaggedEnv.prepared = .ok flaggedEnv.vplan ∧
    flaggedEnv.law = verificationLaw ∧
    manyNulls.payload.height * (validationSummaries flaggedEnv.vplan.vsteps).length ≤
      maxReportRows ∧
    streamVerification flaggedEnv [manyNulls] flaggedEnv.start =
      .error (.error VerificationMemory.slotExceeded) := by
  refine ⟨rfl, rfl, by decide +kernel, ?_⟩
  have hrefused : (match streamVerification flaggedEnv [manyNulls] flaggedEnv.start with
      | .error fault => some fault
      | .ok _ => none) = some (.error VerificationMemory.slotExceeded) := by
    decide +kernel
  split at hrefused
  · rename_i fault hstream
    rw [hstream, Option.some.inj hrefused]
  · cases hrefused

end Stillflow.Engine
