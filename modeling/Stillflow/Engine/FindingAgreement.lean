import Stillflow.Engine.FindingOutcomes

/-!
Whole runs: the findings of a rule in the report are those its visits recorded, its counters are
those of the outcomes its visits read, and the two agree exactly when every visit is truthful.
-/

namespace Stillflow.Engine

open Stillflow.Core Stillflow.Plan Lib Lib.Fallible Lib.Mask Lib.Visits List Option Visit

variable {env : VerificationEnv} {origin : Origin} {past : List Visit} {run : VerificationRun}
  {slot : Nat} {state state' : Routing} {v : Visit} {key : Uuid × Nat}

/-- How often an outcome was read for the rule with a slot. -/
def readings (env : VerificationEnv) (past : List Visit) (slot : Nat) (outcome : Option Bool) :
    Nat :=
  (past.map fun v => if v.valSlot env = some slot then (v.outcomes env).count outcome else 0).sum

theorem readings_snoc (env : VerificationEnv) (past : List Visit) (v : Visit) (slot : Nat)
    (outcome : Option Bool) : readings env (past ++ [v]) slot outcome =
      readings env past slot outcome +
        if v.valSlot env = some slot then (v.outcomes env).count outcome else 0 := by
  simp [readings]

theorem ValidationTally.foldl_outcomes (tally : ValidationTally) (severity : ValidationSeverity)
    (outcomes : List (Option Bool)) :
    (outcomes.foldl (fun t => t.add severity) tally).falseOutcomes =
        tally.falseOutcomes + outcomes.count (some false) ∧
      (outcomes.foldl (fun t => t.add severity) tally).nullOutcomes =
        tally.nullOutcomes + outcomes.count none := by
  induction outcomes generalizing tally with
  | nil => exact ⟨rfl, rfl⟩
  | cons outcome outcomes ih =>
    rw [foldl_cons, (ih _).1, (ih _).2]
    match outcome with
    | some true => simp [ValidationTally.add]
    | some false =>
      simp only [ValidationTally.add, count_cons]
      exact ⟨by simp; omega, by simp⟩
    | none =>
      simp only [ValidationTally.add, count_cons]
      exact ⟨by simp, by simp; omega⟩

theorem endRows_reports {cause : Rejection} {dead : List Bool}
    (h : endRows env origin cause dead state = .ok state') :
    state'.run.valFindings = state.run.valFindings ∧
      state'.run.valSummaries = state.run.valSummaries :=
  ⟨congrArg Ledger.valFindings (endRows_ledger h), congrArg Ledger.valSummaries (endRows_ledger h)⟩

/-- What a run has recorded, visit by visit. -/
structure Reported (env : VerificationEnv) (past : List Visit) (findings : List ValFindingRow)
    (summaries : List ValSummaryRow) : Prop where
  findings : findings = past.flatMap (Visit.recorded env)
  counters : ∀ slot row, summaries[slot]? = some row →
    row.tally.falseOutcomes = readings env past slot (some false) ∧
      row.tally.nullOutcomes = readings env past slot none
  returned : ∀ v ∈ past, v.Returned env

theorem reported_start (env : VerificationEnv) :
    Reported env [] env.start.valFindings env.start.valSummaries where
  findings := rfl
  counters slot row hrow := by
    obtain ⟨step, -, hstep⟩ := mem_filterMap.mp (mem_of_getElem? hrow)
    cases step <;> cases hstep
    exact ⟨rfl, rfl⟩
  returned v hv := by cases hv

theorem Reported.snoc_other {findings : List ValFindingRow} {summaries : List ValSummaryRow}
    (hr : Reported env past findings summaries) (hv : v.Returned env)
    (hrecorded : v.recorded env = []) (hslot : v.valSlot env = none) :
    Reported env (past ++ [v]) findings summaries where
  findings := by rw [flatMap_append, flatMap_singleton, hrecorded, append_nil, hr.findings]
  counters slot row hrow := by
    rw [readings_snoc, readings_snoc, hslot]
    exact hr.counters slot row hrow
  returned := forall_mem_append.mpr ⟨hr.returned, forall_mem_singleton.mpr hv⟩

theorem Reported.snoc_validate {findings : List ValFindingRow} {summaries : List ValSummaryRow}
    {severity : ValidationSeverity} (hr : Reported env past findings summaries)
    (hv : v.Returned env) (hslot : v.valSlot env = some slot) :
    Reported env (past ++ [v]) (findings ++ v.recorded env)
      (summaries.modify slot fun row => { row with
        tally := (v.outcomes env).foldl (fun t => t.add severity) row.tally }) where
  findings := by rw [flatMap_append, flatMap_singleton, hr.findings]
  counters := by
    refine forall_modify hr.counters (fun row hrow => ?_) fun index row hindex hrow => ?_
    · obtain ⟨hfalses, hnulls⟩ := row.tally.foldl_outcomes severity (v.outcomes env)
      rw [readings_snoc, readings_snoc, if_pos hslot, if_pos hslot, hfalses, hnulls, hrow.1, hrow.2]
      exact ⟨rfl, rfl⟩
    · rw [readings_snoc, readings_snoc, hslot, if_neg fun h => hindex (some.inj h),
        if_neg fun h => hindex (some.inj h)]
      exact hrow
  returned := forall_mem_append.mpr ⟨hr.returned, forall_mem_singleton.mpr hv⟩

theorem Reported.step {step : VStep}
    (hr : Reported env past state.run.valFindings state.run.valSummaries)
    (ha : state.window.Aligned) (h : runStep env origin state step = .ok state') :
    Reported env (past ++ [⟨origin, state, step⟩]) state'.run.valFindings
      state'.run.valSummaries := by
  have hreturned : Returned env ⟨origin, state, step⟩ := ⟨state', h⟩
  cases step with
  | validate nodeId ruleOrdinal predicate severity message =>
    obtain ⟨outcomes, houtcomes, h⟩ := of_bind h
    obtain ⟨slot, hslot, h⟩ := of_bind h
    obtain ⟨result, hresult, h⟩ := of_bind h
    have hslot := ofOption_eq_ok (checked_eq_ok hslot)
    have hread := @Visit.outcomes_eq env origin state nodeId ruleOrdinal predicate severity message
      outcomes (checked_eq_ok houtcomes)
    obtain ⟨hledger, -⟩ := validateRows_ledger hresult
    have hended := endRows_reports h
    have hsnoc := @Reported.snoc_validate env past slot ⟨origin, state,
      .validate nodeId ruleOrdinal predicate severity message⟩ _ _ severity hr hreturned hslot
    rw [recorded, hread] at hsnoc
    rw [hended.1, hended.2, show result.1.valFindings = _ from congrArg Ledger.valFindings hledger,
      show result.1.valSummaries = _ from congrArg Ledger.valSummaries hledger]
    exact hsnoc
  | deduplicate nodeId ruleOrdinal keyIds keyTypes =>
    obtain ⟨slot, columns, keys, -, -, heffect⟩ := runStep_deduplicate ha h
    rw [heffect.reports.1, heffect.reports.2]
    exact hr.snoc_other hreturned rfl rfl
  | _ =>
    rw [runStep_run rfl h]
    exact hr.snoc_other hreturned rfl rfl

theorem streamVerification_reported {envelopes : List BatchEnvelope}
    (hproduct : ∀ step ∈ env.routingSteps, step.IsProduct)
    (h : streamVerification env envelopes env.start = .ok run) :
    Reported env (env.runVisits envelopes) run.valFindings run.valSummaries := by
  refine streamVerification_history
    (fun past ledger => Reported env past ledger.valFindings ledger.valSummaries)
    (fun v => Sound env v.origin v.state) (fun _ _ hr => hr) ?_ (reported_start env)
    (fun v hv => (sound_of_mem_runVisits hproduct hv).1) h
  intro past origin state state' step hmem hsound ha hr hrun
  exact ⟨(hsound.step (hproduct step hmem) hrun).aligned, hr.step ha hrun⟩

def ofRule (key : Uuid × Nat) (findings : List ValFindingRow) : List ValFindingRow :=
  findings.filter fun finding => (finding.nodeId, finding.ruleOrdinal) == key

/-- The report of a run on one rule: a finding for every failing row in row order with the row's
outcome, and as many findings of each outcome as the summary counts. -/
structure ReportAgrees (env : VerificationEnv) (visits : List Visit) (key : Uuid × Nat)
    (packs : List Pack) : Prop where
  findings : ofRule key (packs.flatMap Pack.valFindingRows) =
    (visits.filter fun v => v.ruleKey = some key).flatMap (Visit.owed env)
  falses : ∀ slot row, env.valSummaryIndex key = some slot →
    (packs.flatMap Pack.valSummaryRows)[slot]? = some row →
      (ofRule key (packs.flatMap Pack.valFindingRows)).countP (·.outcome == "false") =
        row.tally.falseOutcomes
  nulls : ∀ slot row, env.valSummaryIndex key = some slot →
    (packs.flatMap Pack.valSummaryRows)[slot]? = some row →
      (ofRule key (packs.flatMap Pack.valFindingRows)).countP (·.outcome == "null") =
        row.tally.nullOutcomes

theorem Visit.ofRule_recorded (env : VerificationEnv) (v : Visit) (key : Uuid × Nat) :
    ofRule key (v.recorded env) = if v.ruleKey = some key then v.recorded env else [] := by
  obtain ⟨origin, state, step⟩ := v
  cases step with
  | validate nodeId ruleOrdinal predicate severity message =>
    have hkeyed : ∀ finding ∈ recorded env ⟨origin, state,
        .validate nodeId ruleOrdinal predicate severity message⟩,
        (finding.nodeId, finding.ruleOrdinal) = (nodeId, ruleOrdinal) := by
      intro finding hfinding
      obtain ⟨entry, -, hentry⟩ := mem_filterMap.mp hfinding
      split_ifs at hentry
      rw [← some.inj hentry]
      rfl
    have hrule : ruleKey ⟨origin, state,
        .validate nodeId ruleOrdinal predicate severity message⟩ = some (nodeId, ruleOrdinal) := rfl
    rw [hrule, ofRule]
    by_cases hkey : (nodeId, ruleOrdinal) = key
    · rw [if_pos (congrArg some hkey), filter_eq_self]
      intro finding hfinding
      simpa [hkey] using hkeyed finding hfinding
    · rw [if_neg fun h => hkey (some.inj h), filter_eq_nil_iff]
      intro finding hfinding
      rw [hkeyed finding hfinding]
      simpa using hkey
  | _ => simp [recorded, ofRule]

theorem ofRule_flatMap (env : VerificationEnv) (past : List Visit) (key : Uuid × Nat) :
    ofRule key (past.flatMap (recorded env)) =
      (past.filter fun v => v.ruleKey = some key).flatMap (recorded env) := by
  induction past with
  | nil => rfl
  | cons v past ih =>
    have happend : ofRule key (v.recorded env ++ past.flatMap (recorded env)) =
        ofRule key (v.recorded env) ++ ofRule key (past.flatMap (recorded env)) :=
      filter_append ..
    rw [flatMap_cons, happend, ofRule_recorded, ih]
    by_cases hkey : v.ruleKey = some key
    · rw [if_pos hkey, filter_cons_of_pos (by simpa using hkey), flatMap_cons]
    · rw [if_neg hkey, filter_cons_of_neg (by simpa using hkey), nil_append]

theorem flatMap_eq_iff {α β : Type} {f g : α → List β} {l : List α}
    (hle : ∀ a ∈ l, (f a).length ≤ (g a).length) :
    l.flatMap f = l.flatMap g ↔ ∀ a ∈ l, f a = g a := by
  induction l with
  | nil => simp
  | cons a l ih =>
    rw [forall_mem_cons] at hle ⊢
    rw [flatMap_cons, flatMap_cons, ← ih hle.2]
    constructor
    · intro h
      have hrest : (l.flatMap f).length ≤ (l.flatMap g).length := by
        rw [length_flatMap, length_flatMap]
        exact sum_le_sum hle.2
      have htotal := congrArg List.length h
      rw [length_append, length_append] at htotal
      have hfirst := hle.1
      exact append_inj h (by omega)
    · intro h
      rw [h.1, h.2]

theorem summaryIndex_getElem {keys : List (Uuid × Nat)} (h : summaryIndex keys key = some slot) :
    keys[slot]? = some key := by
  obtain ⟨entry, hentry, rfl⟩ := map_eq_some_iff.mp h
  have hmem := mem_reverse.mp (mem_of_find?_eq_some hentry)
  have hkey : entry.1 = key := by simpa using find?_some hentry
  rw [← hkey]
  exact mem_zipIdx_iff_getElem?.mp hmem

theorem Visit.valSlot_eq_some_iff (hslot : env.valSummaryIndex key = some slot) (v : Visit) :
    v.valSlot env = some slot ↔ v.ruleKey = some key := by
  obtain ⟨origin, state, step⟩ := v
  cases step with
  | validate nodeId ruleOrdinal predicate severity message =>
    constructor
    · intro h
      exact (summaryIndex_getElem h).symm.trans (summaryIndex_getElem hslot)
    · intro h
      obtain rfl : (nodeId, ruleOrdinal) = key := some.inj h
      exact hslot
  | _ => simp [valSlot, ruleKey]

theorem readings_eq (hslot : env.valSummaryIndex key = some slot) (past : List Visit)
    (outcome : Option Bool) :
    readings env past slot outcome = ((past.filter fun v => v.ruleKey = some key).map fun v =>
      (v.outcomes env).count outcome).sum := by
  unfold readings
  induction past with
  | nil => rfl
  | cons v past ih =>
    rw [map_cons, sum_cons, ih]
    by_cases hkey : v.ruleKey = some key
    · rw [if_pos ((v.valSlot_eq_some_iff hslot).mpr hkey),
        filter_cons_of_pos (by simpa using hkey), map_cons, sum_cons]
    · rw [if_neg (mt (v.valSlot_eq_some_iff hslot).mp hkey),
        filter_cons_of_neg (by simpa using hkey), Nat.zero_add]

/-- A loop that returned left a finding for every outcome that failed. -/
theorem length_findingsOf {rule : ValidateRule} {outcomes : List (Option Bool)}
    {sidecar : List (Nat × Nat)} {counts : List Nat} {result : VerificationRun × List Nat}
    (h : validateRows env rule outcomes sidecar counts run = .ok result) :
    (findingsOf rule outcomes sidecar).length = outcomes.countP (· ≠ some true) := by
  induction outcomes generalizing sidecar counts run result with
  | nil => rfl
  | cons outcome outcomes ih =>
    by_cases hpass : outcome = some true
    · subst hpass
      obtain ⟨rest, hrest, -⟩ := of_bind h
      have hlength := ih hrest
      cases sidecar <;> simpa [findingsOf] using hlength
    · obtain ⟨entry, sidecar, _, _, held, next, rfl, -, -, hnext, -⟩ :=
        validateRows_fail_eq_ok hpass h
      have hlength := ih hnext
      simpa [findingsOf, hpass] using hlength

/-- What a truthful visit adds to the counters is what its findings say. -/
theorem Visit.Truthful.counts (htruth : v.Truthful env) (ha : v.state.window.Aligned)
    (hreturned : v.Returned env) :
    (v.recorded env).countP (·.outcome == "false") = (v.outcomes env).count (some false) ∧
      (v.recorded env).countP (·.outcome == "null") = (v.outcomes env).count none := by
  obtain ⟨origin, state, step⟩ := v
  cases step with
  | validate nodeId ruleOrdinal predicate severity message =>
    obtain ⟨state', h⟩ := hreturned
    obtain ⟨outcomes, houtcomes, h⟩ := of_bind h
    obtain ⟨slot, -, h⟩ := of_bind h
    obtain ⟨result, hresult, -⟩ := of_bind h
    have houtcomes := checked_eq_ok houtcomes
    have ha : state.window.Aligned := ha
    have hread := @Visit.outcomes_eq env origin state nodeId ruleOrdinal predicate severity message
      outcomes houtcomes
    have hfalse : some false ∉ outcomes := by
      intro hmem
      obtain ⟨row, hrow, houtcome⟩ : ∃ row ∈ state.window.frame.rows,
          rowOutcome env state.window.schema predicate row = some false := by
        obtain ⟨hfree, hcolumns⟩ := evaluatePredicate_eq_ok houtcomes
        by_cases hcase : columnFree predicate
        · obtain ⟨outcome, rfl, hsame⟩ := hfree hcase
          obtain rfl := mem_singleton.mp hmem
          cases hrows : state.window.frame.rows with
          | cons row rows => exact ⟨row, mem_cons_self, hsame row⟩
          | nil =>
            have hempty : state.window.sidecar = [] := by
              rw [← length_eq_zero_iff, ha.sidecar, Frame.height, hrows, length_nil]
            rw [hempty] at hresult
            exact absurd (validateRows_head hresult) (by decide)
        · rw [hcolumns hcase] at hmem
          exact mem_map.mp hmem
      exact htruth.1 row hrow houtcome
    have htext : ∀ finding ∈ findingsOf ⟨nodeId, ruleOrdinal, severity, 0⟩ outcomes
        state.window.sidecar, finding.outcome = "null" := by
      intro finding hfinding
      obtain ⟨entry, -, hentry⟩ := mem_filterMap.mp hfinding
      split_ifs at hentry with hpass
      rw [← some.inj hentry]
      exact outcomeLiteral_of_fail hpass
    have hlength : (findingsOf ⟨nodeId, ruleOrdinal, severity, 0⟩ outcomes
        state.window.sidecar).length = outcomes.countP (· ≠ some true) :=
      (length_findingsOf hresult :)
    simp only [recorded, hread]
    constructor
    · rw [count_eq_zero.mpr hfalse, countP_eq_zero]
      intro finding hfinding
      rw [htext finding hfinding]
      decide
    · rw [countP_eq_length.mpr fun finding hfinding => by rw [htext finding hfinding]; rfl,
        hlength, List.count]
      refine countP_congr fun outcome houtcome => ?_
      rcases outcome with _ | _ | _
      · decide
      · exact absurd houtcome hfalse
      · decide
  | _ => exact ⟨rfl, rfl⟩

/-- The report of a completed run agrees on a rule exactly when every visit of the rule is
truthful: no row is FALSE, and with more than one row a predicate without columns passes them
all. -/
theorem findings_agree_iff {plan : LogicalPlan} {env : VerificationEnv}
    (hplan : buildVerificationPlan plan env.prepared = .ok env.vplan)
    {envelopes : List BatchEnvelope} {final : VerificationRun}
    (hfinal : materializeVerification env envelopes = .ok final) (key : Uuid × Nat) :
    ReportAgrees env (env.runVisits envelopes) key final.packs ↔
      ∀ v ∈ env.runVisits envelopes, v.ruleKey = some key → v.Truthful env := by
  have hproduct := routingSteps_isProduct hplan
  obtain ⟨run, hrun, hfinish⟩ := of_bind hfinal
  have hreported := streamVerification_reported hproduct hrun
  have haligned : ∀ v ∈ env.runVisits envelopes, v.state.window.Aligned :=
    fun v hv => (sound_of_mem_runVisits hproduct hv).1.aligned
  obtain ⟨streamed, hstreamed, hpayload⟩ := streams_streamVerification hrun
  obtain ⟨more, hmore, hfindings, hsummaries⟩ := finishRun_reports (checked_eq_ok hfinish)
  have hpacks : final.packs = streamed ++ more := by
    rw [hmore, hstreamed]
    rfl
  have hsections : final.packs.flatMap Pack.valFindingRows = run.valFindings ∧
      final.packs.flatMap Pack.valSummaryRows = run.valSummaries := by
    rw [hpacks, flatMap_append, flatMap_append, hfindings, hsummaries,
      (payload_reports hpayload).1, (payload_reports hpayload).2]
    exact ⟨rfl, rfl⟩
  set ruled := (env.runVisits envelopes).filter fun v => v.ruleKey = some key with hruled
  have hmem : ∀ v ∈ ruled, v ∈ env.runVisits envelopes := fun v hv => mem_of_mem_filter hv
  have hrecorded : ofRule key (final.packs.flatMap Pack.valFindingRows) =
      ruled.flatMap (recorded env) := by
    rw [hsections.1, hreported.findings, ofRule_flatMap]
  have hparts : ruled.flatMap (recorded env) = ruled.flatMap (owed env) ↔
      ∀ v ∈ ruled, v.Truthful env := by
    rw [flatMap_eq_iff fun v hv =>
      (v.recorded_eq_owed_iff (haligned v (hmem v hv)) (hreported.returned v (hmem v hv))).2]
    exact forall₂_congr fun v hv =>
      (v.recorded_eq_owed_iff (haligned v (hmem v hv)) (hreported.returned v (hmem v hv))).1
  have htruthful : (∀ v ∈ ruled, v.Truthful env) ↔
      ∀ v ∈ env.runVisits envelopes, v.ruleKey = some key → v.Truthful env := by
    simp [hruled]
  rw [← htruthful]
  constructor
  · intro h
    exact hparts.mp (hrecorded.symm.trans h.findings)
  · intro h
    have hcounts : ∀ v ∈ ruled, _ := fun v hv => (h v hv).counts (haligned v (hmem v hv))
      (hreported.returned v (hmem v hv))
    refine ⟨hrecorded.trans (hparts.mpr h), fun slot row hslot hrow => ?_,
      fun slot row hslot hrow => ?_⟩
    · rw [hsections.2] at hrow
      rw [(hreported.counters slot row hrow).1, readings_eq hslot, hrecorded, countP_flatMap]
      exact congrArg List.sum (map_congr_left fun v hv => (hcounts v hv).1)
    · rw [hsections.2] at hrow
      rw [(hreported.counters slot row hrow).2, readings_eq hslot, hrecorded, countP_flatMap]
      exact congrArg List.sum (map_congr_left fun v hv => (hcounts v hv).2)

/-- A library that compares a column with an integer; NULL compares to NULL. -/
def greaterEval : PolarsExpr → List AnyValue → Option AnyValue
  | .binary (.col _) .greaterThan (.lit (.int64 bound)), [.int64 value] =>
    some (.boolean (bound < value))
  | .binary (.col _) .greaterThan (.lit (.int64 _)), [.null] => some .null
  | _, _ => none

def aboveOne : Expr := .binary (.column 1) .greaterThan (.literal (.int64 1))

def aboveOneEnv : VerificationEnv :=
  { sampleEnv [.validate 2 0 aboveOne .error "id is above one"] with
    polars := { samplePolars with eval := greaterEval } }

/-- The row with id 10 passes, the one without an id is NULL and is recorded as NULL. -/
theorem null_row_agrees :
    buildVerificationPlan (rulesPlan [.validate aboveOne .error "id is above one"])
      aboveOneEnv.prepared = .ok aboveOneEnv.vplan ∧
    ∃ final, materializeVerification aboveOneEnv [twoRows] = .ok final ∧
      ReportAgrees aboveOneEnv (aboveOneEnv.runVisits [twoRows]) (2, 0) final.packs ∧
      (final.packs.flatMap Pack.valFindingRows).map (fun f => (f.ordinal, f.outcome)) =
        [(1, "null")] := by
  have hplan : buildVerificationPlan (rulesPlan [.validate aboveOne .error "id is above one"])
      aboveOneEnv.prepared = .ok aboveOneEnv.vplan := rfl
  have hrun : (materializeVerification aboveOneEnv [twoRows]).toOption.map
      (fun final => (final.packs.flatMap Pack.valFindingRows).map
        (fun f => (f.ordinal, f.outcome))) = some [(1, "null")] := by
    decide +kernel
  have hrows : ∀ v ∈ aboveOneEnv.runVisits [twoRows], ∀ row ∈ v.state.window.frame.rows,
      rowOutcome aboveOneEnv v.state.window.schema aboveOne row ≠ some false := by
    decide +kernel
  obtain ⟨final, hfinal, houtcomes⟩ := exists_of_map_toOption hrun
  refine ⟨hplan, final, hfinal, (findings_agree_iff hplan hfinal (2, 0)).mpr fun v hv _ => ?_,
    houtcomes⟩
  rw [Truthful, only_step hv rfl trivial]
  exact ⟨hrows v hv, fun hfree => absurd hfree (by decide)⟩

/-- A row on which the predicate is FALSE is counted as FALSE and recorded as NULL. -/
theorem false_row_recorded_null :
    buildVerificationPlan (rulesPlan [.validate notNull .error "id is required"])
      notNullEnv.prepared = .ok notNullEnv.vplan ∧
    ∃ final, materializeVerification notNullEnv [twoRows] = .ok final ∧
      (final.packs.flatMap Pack.valFindingRows).map (fun f => (f.ordinal, f.outcome)) =
        [(1, "null")] ∧
      (final.packs.flatMap Pack.valSummaryRows).map
        (fun row => (row.tally.falseOutcomes, row.tally.nullOutcomes)) = [(1, 0)] ∧
      ¬ ReportAgrees notNullEnv (notNullEnv.runVisits [twoRows]) (2, 0) final.packs := by
  refine ⟨rfl, ?_⟩
  have hrun : (materializeVerification notNullEnv [twoRows]).toOption.map (fun final =>
      ((final.packs.flatMap Pack.valFindingRows).map (fun f => (f.ordinal, f.outcome)),
        (final.packs.flatMap Pack.valSummaryRows).map
          (fun row => (row.tally.falseOutcomes, row.tally.nullOutcomes)),
        (ofRule (2, 0) (final.packs.flatMap Pack.valFindingRows)).countP (·.outcome == "false"))) =
      some ([(1, "null")], [(1, 0)], 0) := by
    decide +kernel
  obtain ⟨final, hfinal, hresult⟩ := exists_of_map_toOption hrun
  simp only [Prod.mk.injEq] at hresult
  obtain ⟨hfindings, hsummaries, hcount⟩ := hresult
  refine ⟨final, hfinal, hfindings, hsummaries, fun h => ?_⟩
  obtain ⟨row, hrows, hrow⟩ := map_eq_singleton_iff.mp hsummaries
  have hfalses := h.falses 0 row (by decide) (by rw [hrows]; rfl)
  rw [hcount] at hfalses
  have hone : row.tally.falseOutcomes = 1 := congrArg Prod.fst hrow
  omega

end Stillflow.Engine
