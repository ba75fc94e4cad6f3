import Stillflow.Engine.StepFit

/-! Verification routing of whole runs. -/

namespace Stillflow.Engine

open Stillflow.Core Stillflow.Plan Lib.Fallible Lib.Mask Lib.Visits List

def VStep.dedupId : VStep → Option (Uuid × Nat)
  | .deduplicate nodeId ruleOrdinal _ _ => some (nodeId, ruleOrdinal)
  | _ => none

/-- The transform groups built so far, and the pending one, hold no routing rule. -/
def PlanBuilder.IsProduct (builder : PlanBuilder) : Prop :=
  (∀ step ∈ builder.vsteps, step.IsProduct) ∧ ∀ rule ∈ builder.group, rule.isProduct = true

variable {builder : PlanBuilder}

theorem PlanBuilder.IsProduct.flushTransform (h : builder.IsProduct) :
    builder.flushTransform.IsProduct := by
  unfold PlanBuilder.flushTransform
  split_ifs
  · exact h
  · exact ⟨forall_mem_append.mpr ⟨h.1, forall_mem_singleton.mpr h.2⟩, by simp⟩

theorem PlanBuilder.IsProduct.push (h : builder.IsProduct) {step : VStep} (hstep : step.IsProduct) :
    (builder.push step).IsProduct :=
  ⟨forall_mem_append.mpr ⟨h.1, forall_mem_singleton.mpr hstep⟩, h.2⟩

/-- A rule becomes a step of its own or joins the group of the next transform. -/
theorem buildRule_cases {nodeId : Uuid} {builder' : PlanBuilder} {entry : Rule × Nat}
    (h : buildRule nodeId builder entry = .ok builder') :
    (∃ step, step.IsProduct ∧ (step.dedupId = none ∨ step.dedupId = some (nodeId, entry.2)) ∧
      builder' = builder.flushTransform.push step) ∨
    ∃ working, entry.1.isProduct = true ∧
      builder' = { builder with group := builder.group ++ [entry.1], working := working } := by
  obtain ⟨rule, ordinal⟩ := entry
  cases rule with
  | validate predicate severity message =>
    obtain ⟨_, -, h⟩ := of_bind h
    obtain ⟨stored, -, h⟩ := of_bind h
    cases h
    exact .inl ⟨.validate nodeId ordinal predicate severity stored, trivial, .inl rfl, rfl⟩
  | deduplicate keys =>
    obtain ⟨_, -, h⟩ := of_bind h
    obtain ⟨types, -, h⟩ := of_bind h
    obtain ⟨_, -, h⟩ := of_bind h
    cases h
    exact .inl ⟨.deduplicate nodeId ordinal keys types.1, trivial, .inr rfl, rfl⟩
  | filterRows predicate =>
    obtain ⟨_, -, h⟩ := of_bind h
    cases h
    exact .inl ⟨.filterRows predicate, trivial, .inl rfl, rfl⟩
  | _ =>
    obtain ⟨working, -, h⟩ := of_bind h
    cases h
    exact .inr ⟨working, rfl, rfl⟩

theorem buildRule_isProduct {nodeId : Uuid} {builder' : PlanBuilder} {entry : Rule × Nat}
    (hb : builder.IsProduct) (h : buildRule nodeId builder entry = .ok builder') :
    builder'.IsProduct := by
  rcases buildRule_cases h with ⟨step, hstep, -, rfl⟩ | ⟨working, hrule, rfl⟩
  · exact hb.flushTransform.push hstep
  · exact ⟨hb.1, forall_mem_append.mpr ⟨hb.2, forall_mem_singleton.mpr hrule⟩⟩

theorem buildNode_isProduct {builder' : PlanBuilder} {entry : PlanNodeId × PlanNode}
    (hb : builder.IsProduct) (h : buildNode builder entry = .ok builder') : builder'.IsProduct := by
  unfold buildNode at h
  split at h
  · obtain ⟨working, -, h⟩ := of_bind h
    cases h
    exact hb.push trivial
  · obtain ⟨_, -, h⟩ := of_bind h
    cases h
    exact hb.push trivial
  · obtain ⟨last, hlast, h⟩ := of_bind h
    cases h
    have hrules := foldlM_invariant PlanBuilder.IsProduct
      (fun _ hcurrent hnext => buildRule_isProduct hcurrent hnext) hb hlast
    exact hrules.flushTransform
  · cases h

theorem routingSteps_isProduct {plan : LogicalPlan} {env : VerificationEnv}
    (h : buildVerificationPlan plan env.prepared = .ok env.vplan) :
    ∀ step ∈ env.routingSteps, step.IsProduct := by
  obtain ⟨linear, -, h⟩ := of_bind h
  split at h
  · obtain ⟨working, -, h⟩ := of_bind h
    obtain ⟨_, -, h⟩ := of_bind h
    obtain ⟨_, -, h⟩ := of_bind h
    obtain ⟨builder, hbuilder, h⟩ := of_bind h
    have hfinal := foldlM_invariant PlanBuilder.IsProduct
      (fun _ hcurrent hnext => buildNode_isProduct hcurrent hnext) ?_ hbuilder
    · intro step hstep
      have hmem := mem_of_mem_drop hstep
      rw [← Except.ok.inj h] at hmem
      exact hfinal.1 step hmem
    · refine ⟨fun step hstep => ?_, by simp⟩
      unfold leadingSteps at hstep
      cases step with
      | transformRules rules =>
        simp only [mem_append, Option.mem_toList, Option.map_eq_some_iff] at hstep
        split_ifs at hstep <;> simp at hstep
      | _ => trivial
  · cases h

/-- A run whose visited steps all fit never panics, routes every ordinal exactly once and counts
every row that reaches a rule. A visited step that returns or panics counts the rows of its window
without a panic exactly when it fits. -/
theorem verification_conserves_rows {plan : LogicalPlan} {env : VerificationEnv}
    (hplan : buildVerificationPlan plan env.prepared = .ok env.vplan)
    (envelopes : List BatchEnvelope) :
    ((∀ v ∈ env.runVisits envelopes, v.Fits) →
      streamVerification env envelopes env.start ≠ .error .panic ∧
      ∀ run, streamVerification env envelopes env.start = .ok run →
        (∃ accepted dropped rows, Conserved env (env.runVisits envelopes) (env.scanRows envelopes)
          run.ledger accepted dropped rows) ∧
        Counted env (env.runVisits envelopes) run.valSummaries run.dedupSummaries) ∧
    ∀ v ∈ env.runVisits envelopes,
      (∀ e, runStep env v.origin v.state v.step ≠ .error (.error e)) →
      ((∃ state', runStep env v.origin v.state v.step = .ok state' ∧ v.Counts env state') ↔
        v.Fits) := by
  have hproduct := routingSteps_isProduct hplan
  refine ⟨fun hfits => ⟨streamVerification_ne_panic hproduct hfits, fun run hrun => ?_⟩, ?_⟩
  · exact ⟨streamVerification_conserved hproduct hfits hrun,
      streamVerification_counted hproduct hfits hrun⟩
  · intro v hv herror
    exact counts_iff_fits (sound_of_mem_runVisits hproduct hv).1 herror

/-- A library that knows Boolean literals and the null test of one column. -/
def sampleEval : PolarsExpr → List AnyValue → Option AnyValue
  | .lit (.boolean value), _ => some (.boolean value)
  | .isNotNull (.col _), [value] => some (.boolean (value ≠ .null))
  | _, _ => none

def samplePolars : Polars := ⟨fun _ => true, sampleEval, true, fun _ => 1, fun _ => 1⟩

def idSchema : LogicalSchema := ⟨1, [⟨1, "id", .int64, true, ∅⟩], ∅⟩

def rulesPlan (rules : List Rule) : LogicalPlan :=
  ⟨1, 3, Std.ExtTreeMap.ofList [(1, ⟨[], .scan 9 [1] none⟩), (2, ⟨[1], .applyRules rules⟩),
    (3, ⟨[2], .materialize "out"⟩)] _⟩

def sampleEnv (steps : List VStep) : VerificationEnv where
  polars := samplePolars
  law := verificationLaw
  vplan := ⟨steps, 0⟩
  prepared := ⟨true, [1], idSchema, idSchema, idSchema⟩
  inputs := ⟨"asset", "9", "", "", ""⟩
  batchSize := 1024
  rejectedAuthorized := some 7
  reuseAcceptedSnapshot := false
  writerFault := fun _ _ => none
  indexFault := fun _ _ => none

def idEnvelope (values : List AnyValue) (h : values.length ≤ maxBatchRows) : BatchEnvelope :=
  ⟨0, idSchema, ⟨["id"], values.map fun value => [("id", value)]⟩, 1,
    by simpa [Frame.height] using h⟩

def notNull : Expr := .isNull (.column 1) true

def notNullEnv : VerificationEnv := sampleEnv [.validate 2 0 notNull .error "id is required"]

def neverEnv : VerificationEnv :=
  sampleEnv [.validate 2 0 (.literal (.boolean false)) .error "never"]

def filteredNeverEnv : VerificationEnv :=
  sampleEnv [.filterRows (.literal (.boolean false)),
    .validate 2 1 (.literal (.boolean false)) .error "never"]

def twoRows : BatchEnvelope := idEnvelope [.int64 10, .null] (by decide)

theorem verification_conserves_rows_notNull :
    buildVerificationPlan (rulesPlan [.validate notNull .error "id is required"])
      notNullEnv.prepared = .ok notNullEnv.vplan ∧
    ∃ run, streamVerification notNullEnv [twoRows] notNullEnv.start = .ok run ∧
      (∃ accepted dropped rows, Conserved notNullEnv (notNullEnv.runVisits [twoRows])
        (notNullEnv.scanRows [twoRows]) run.ledger accepted dropped rows) ∧
      Counted notNullEnv (notNullEnv.runVisits [twoRows]) run.valSummaries run.dedupSummaries := by
  have hplan : buildVerificationPlan (rulesPlan [.validate notNull .error "id is required"])
      notNullEnv.prepared = .ok notNullEnv.vplan := rfl
  have hok : (streamVerification notNullEnv [twoRows] notNullEnv.start).isOk = true := by
    decide +kernel
  obtain ⟨run, hrun⟩ := exists_of_isOk hok
  have hfits : ∀ v ∈ notNullEnv.runVisits [twoRows], v.Fits := by
    intro v hv
    rw [Visit.Fits, only_step hv rfl trivial]
    exact fun hfree => absurd hfree (by decide)
  exact ⟨hplan, run, hrun, ((verification_conserves_rows hplan [twoRows]).1 hfits).2 run hrun⟩

/-- A predicate that is the literal `false` rejects the first row only: the second one is neither
accepted nor rejected nor dropped by a filter. Over a window that a filter emptied it panics. -/
theorem column_free_validate_loses_row :
    buildVerificationPlan (rulesPlan [.validate (.literal (.boolean false)) .error "never"])
      neverEnv.prepared = .ok neverEnv.vplan ∧
    (∃ run, streamVerification neverEnv [twoRows] neverEnv.start = .ok run ∧
      run.ledger.nextOrdinal = 2 ∧ run.ledger.accepted = [] ∧
      run.ledger.rejected.map (·.ordinal) = [0] ∧
      run.valSummaries.map (·.tally.evaluated) = [1] ∧
      ∀ accepted dropped rows, ¬ Conserved neverEnv (neverEnv.runVisits [twoRows])
        (neverEnv.scanRows [twoRows]) run.ledger accepted dropped rows) ∧
    buildVerificationPlan (rulesPlan [.filterRows (.literal (.boolean false)),
        .validate (.literal (.boolean false)) .error "never"])
      filteredNeverEnv.prepared = .ok filteredNeverEnv.vplan ∧
    streamVerification filteredNeverEnv [twoRows] filteredNeverEnv.start = .error .panic := by
  refine ⟨rfl, ?_, rfl, rfl⟩
  have hledger : (streamVerification neverEnv [twoRows] neverEnv.start).toOption.map
      (fun run => (run.ledger.nextOrdinal, run.ledger.accepted,
        run.ledger.rejected.map (·.ordinal), run.valSummaries.map (·.tally.evaluated))) =
      some (2, [], [0], [1]) := by
    decide +kernel
  obtain ⟨run, hrun, hresult⟩ := exists_of_map_toOption hledger
  simp only [Prod.mk.injEq] at hresult
  obtain ⟨hnext, haccepted, hrejected, hevaluated⟩ := hresult
  refine ⟨run, hrun, hnext, haccepted, hrejected, hevaluated, fun accepted dropped rows hc => ?_⟩
  have hrows : rows = [] := (hc.written rfl).symm.trans haccepted
  have hnone : accepted = [] := by
    have himages := hc.images
    rw [hrows] at himages
    cases himages
    rfl
  have hdropped : dropped = [] := by
    refine eq_nil_iff_forall_not_mem.mpr fun ordinal hordinal => ?_
    obtain ⟨v, hv, _, _, -, predicate, hpredicate, -⟩ := hc.dropped ordinal hordinal
    rw [only_step hv rfl trivial] at hpredicate
    cases hpredicate
  have hlength := hc.routed.length_eq
  rw [hnone, hdropped, hrejected, ← hc.count, hnext] at hlength
  simp at hlength

end Stillflow.Engine
