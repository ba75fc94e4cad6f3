import Stillflow.Engine.Compaction

/-!
What one step does to an aligned window: which rows it passes on and what becomes of the others.
-/

namespace Stillflow.Engine

open Stillflow.Core Stillflow.Plan Lib.Fallible Lib.Mask List

def VStep.isRule : VStep → Bool
  | .validate .. | .deduplicate .. => true
  | _ => false

variable {env : VerificationEnv} {origin : Origin} {state state' : Routing} {step : VStep}
  {predicate : Expr} {dead : List Bool}

theorem runStep_run (hstep : step.isRule = false) (h : runStep env origin state step = .ok state') :
    state'.run = state.run := by
  cases step with
  | validate | deduplicate => cases hstep
  | _ =>
    obtain ⟨_, -, h⟩ := of_bind h
    obtain ⟨_, -, h⟩ := of_bind h
    cases h
    rfl

/-- A filter keeps the rows on which its predicate is true and drops the others; a predicate
without a column reference keeps all rows or none. -/
theorem filterStep_eq_ok (ha : state.window.Aligned)
    (h : filterStep env state predicate = .ok state') :
    state'.run = state.run ∧
      CompactsTo (state.window.frame.rows.map fun row =>
        rowOutcome env state.window.schema predicate row == some true)
        state.window state'.window := by
  obtain ⟨mask, hmask, h⟩ := of_bind h
  obtain ⟨window, hwindow, h⟩ := of_bind h
  cases h
  refine ⟨rfl, ?_⟩
  obtain ⟨outcomes, houtcomes, hmask⟩ := of_bind (checked_eq_ok hmask)
  cases hmask
  obtain ⟨hfree, hcolumns⟩ := evaluatePredicate_eq_ok houtcomes
  by_cases hcase : columnFree predicate
  · obtain ⟨outcome, rfl, houtcome⟩ := hfree hcase
    have hmask : (state.window.frame.rows.map fun row =>
        rowOutcome env state.window.schema predicate row == some true) =
        List.replicate state.window.frame.height (outcome == some true) := by
      simp only [houtcome, map_const', Frame.height]
    rw [hmask]
    by_cases hkeep : outcome = some true
    · subst hkeep
      cases hwindow
      exact .refl ha (by simp) (by simp)
    · have hflag : (outcome == some true) = false := beq_eq_false_iff_ne.mpr hkeep
      rw [map_cons, map_nil, hflag] at hwindow
      rw [hflag]
      exact compactAlive_single hwindow
  · rw [hcolumns hcase, map_map] at hwindow
    exact compactAlive_eq_ok ha (by simp [Frame.height]) hwindow

theorem eq_replicate_of_not_any (h : ¬dead.any id = true) :
    dead = List.replicate dead.length false := by
  rw [eq_replicate_iff]
  refine ⟨rfl, fun flag hflag => ?_⟩
  cases flag with
  | false => rfl
  | true => exact absurd (any_eq_true.mpr ⟨true, hflag, rfl⟩) h

theorem endRows_ledger {cause : Rejection} (h : endRows env origin cause dead state = .ok state') :
    state'.run.ledger = state.run.ledger.reject
      ((keep dead state.window.sidecar).map (rejectionEntry env origin cause)) := by
  unfold endRows at h
  split_ifs at h with hany
  · obtain ⟨run, hrun, h⟩ := of_bind h
    obtain ⟨window, -, h⟩ := of_bind h
    cases h
    exact rejectDead_ledger hrun
  · cases h
    rw [eq_replicate_of_not_any hany, keep_replicate_false, map_nil, Ledger.reject_nil]

theorem endRows_window {cause : Rejection} (h : endRows env origin cause dead state = .ok state')
    (ha : state.window.Aligned) (hlen : dead.length = state.window.frame.height) :
    CompactsTo (dead.map not) state.window state'.window := by
  unfold endRows at h
  split_ifs at h with hany
  · obtain ⟨run, -, h⟩ := of_bind h
    obtain ⟨window, hwindow, h⟩ := of_bind h
    cases h
    exact compactAlive_eq_ok ha (by simpa using hlen) hwindow
  · cases h
    refine .refl ha ?_ (by simpa using hlen)
    rw [eq_replicate_of_not_any hany]
    simp

/-- The effect of a Validate step on a window for which it has one outcome per row. -/
structure ValidateEffect (env : VerificationEnv) (origin : Origin) (rule : ValidateRule)
    (outcomes : List (Option Bool)) (state state' : Routing) : Prop where
  ledger : state'.run.ledger = ((state.run.ledger.tally rule outcomes).find
    (findingsOf rule outcomes state.window.sidecar)).reject
      ((keep (deadOutcomes rule.severity outcomes) state.window.sidecar).map
        (rejectionEntry env origin ⟨rule.nodeId, rule.ruleOrdinal, "validation_error"⟩))
  window : CompactsTo ((deadOutcomes rule.severity outcomes).map not) state.window state'.window

theorem runStep_validate
    {nodeId : Uuid} {ruleOrdinal : Nat} {severity : ValidationSeverity}
    {message : String} (ha : state.window.Aligned)
    (hfits : columnFree predicate → state.window.frame.height = 1)
    (h : runStep env origin state (.validate nodeId ruleOrdinal predicate severity message) =
      .ok state') :
    ∃ slot, env.valSummaryIndex (nodeId, ruleOrdinal) = some slot ∧
      ValidateEffect env origin ⟨nodeId, ruleOrdinal, severity, slot⟩
        (state.window.frame.rows.map (rowOutcome env state.window.schema predicate))
        state state' := by
  obtain ⟨outcomes, houtcomes, h⟩ := of_bind h
  obtain ⟨slot, hslot, h⟩ := of_bind h
  obtain ⟨result, hresult, h⟩ := of_bind h
  refine ⟨slot, ofOption_eq_ok (checked_eq_ok hslot), ?_⟩
  have hrows := evaluatePredicate_rows hfits (checked_eq_ok houtcomes)
  obtain ⟨hledger, hcounts⟩ := validateRows_ledger hresult
  have ha' : ({ state.window with findingsPerRow := result.2 } : Window).Aligned :=
    ⟨ha.sidecar, hcounts.trans ha.counts⟩
  have hdead : (deadOutcomes severity outcomes).length = state.window.frame.height := by
    simp [deadOutcomes, hrows, Frame.height]
  have hcompact := endRows_window h ha' hdead
  rw [← hrows]
  refine ⟨?_, hcompact.rows, hcompact.sidecar, hcompact.counts⟩
  rw [endRows_ledger h, hledger]

/-- The keys a Deduplicate step looks up, with the ordinals of their rows. -/
def Window.arrivals (window : Window) (keys : List DedupKey) : List (DedupKey × Nat) :=
  keys.zip (window.sidecar.map (·.2))

structure DedupEffect (env : VerificationEnv) (origin : Origin) (rule : DedupRule)
    (keys : List DedupKey) (state state' : Routing) : Prop where
  encoded : state.window.frame.rows.mapM rule.key = .ok keys
  ledger : state'.run.ledger =
    ((state.run.countEvaluated rule.slot state.window.frame.height).ledger.dedupKeys rule
      (state.window.arrivals keys)).1.reject
      ((keep ((state.run.countEvaluated rule.slot state.window.frame.height).ledger.dedupKeys rule
        (state.window.arrivals keys)).2 state.window.sidecar).map
        (rejectionEntry env origin ⟨rule.nodeId, rule.ruleOrdinal, "duplicate"⟩))
  window : CompactsTo (((state.run.countEvaluated rule.slot
      state.window.frame.height).ledger.dedupKeys rule
        (state.window.arrivals keys)).2.map not) state.window state'.window

theorem length_dedupKeys (rule : DedupRule) (arrivals : List (DedupKey × Nat)) (ledger : Ledger) :
    (ledger.dedupKeys rule arrivals).2.length = arrivals.length := by
  induction arrivals generalizing ledger with
  | nil => rfl
  | cons arrival rest ih => simp [Ledger.dedupKeys, ih]

theorem DedupEffect.arrivals_length {rule : DedupRule} {keys : List DedupKey}
    (ha : state.window.Aligned) (h : DedupEffect env origin rule keys state state') :
    (state.window.arrivals keys).length = state.window.frame.height := by
  rw [Window.arrivals, length_zip, length_map, ha.sidecar, length_of_mapM_ok h.encoded,
    Frame.height, Nat.min_self]

theorem runStep_deduplicate {nodeId : Uuid} {ruleOrdinal : Nat} {keyIds : List ColumnId}
    {keyTypes : List LogicalType} (ha : state.window.Aligned)
    (h : runStep env origin state (.deduplicate nodeId ruleOrdinal keyIds keyTypes) = .ok state') :
    ∃ slot columns keys, env.dedupSummaryIndex (nodeId, ruleOrdinal) = some slot ∧
      keyColumns state.window keyIds = .ok columns ∧
      DedupEffect env origin ⟨nodeId, ruleOrdinal, columns, keyTypes, slot⟩ keys state state' := by
  obtain ⟨slot, hslot, h⟩ := of_bind h
  obtain ⟨columns, hcolumns, h⟩ := of_bind h
  obtain ⟨⟨run, dead⟩, hresult, h⟩ := of_bind h
  obtain ⟨keys, hkeys, -, hledger⟩ := dedupRows_ledger hresult
  have hrun : run.ledger = ((state.run.countEvaluated slot state.window.frame.height).ledger.dedupKeys
      _ (state.window.arrivals keys)).1 := congrArg Prod.fst hledger
  have hdead : dead = ((state.run.countEvaluated slot state.window.frame.height).ledger.dedupKeys
      _ (state.window.arrivals keys)).2 := congrArg Prod.snd hledger
  have hlength : dead.length = state.window.frame.height := by
    have hkeyLength := length_of_mapM_ok hkeys
    rw [hdead, length_dedupKeys, Window.arrivals, length_zip, length_map, ha.sidecar,
      hkeyLength, Frame.height, Nat.min_self]
  have hcompact := endRows_window h ha hlength
  refine ⟨slot, columns, keys, ofOption_eq_ok (checked_eq_ok hslot), checked_eq_ok hcolumns, hkeys,
    ?_, ?_⟩
  · rw [endRows_ledger h, hrun, hdead]
  · rw [← hdead]
    exact hcompact

/-- A group of transform rules holds no routing rule. -/
def VStep.IsProduct : VStep → Prop
  | .transformRules rules => ∀ rule ∈ rules, rule.isProduct = true
  | _ => True

/-- A Validate predicate without a column reference meets a window of exactly one row. -/
def VStep.Fits (window : Window) : VStep → Prop
  | .validate _ _ predicate _ _ => columnFree predicate → window.frame.height = 1
  | _ => True

/-- The predicate of a step that drops rows. -/
def VStep.filterPredicate : VStep → Option Expr
  | .filter predicate | .filterRows predicate => some predicate
  | _ => none

def FailsFilter (env : VerificationEnv) (schema : LogicalSchema) (step : VStep) (row : Row) : Prop :=
  ∃ predicate, step.filterPredicate = some predicate ∧
    rowOutcome env schema predicate row ≠ some true

/-- The rows a step does not pass on: all of them fail its filter, or all of them are rejected. -/
def EndsRows (env : VerificationEnv) (origin : Origin) (step : VStep) (ended : List Bool)
    (state state' : Routing) : Prop :=
  (state'.run.ledger.rejected = state.run.ledger.rejected ∧
    ∀ row ∈ keep ended state.window.frame.rows,
      FailsFilter env state.window.schema step row) ∨
  ∃ cause, state'.run.ledger.rejected = state.run.ledger.rejected ++
    (keep ended state.window.sidecar).map (rejectionEntry env origin cause)

/-- What a step does to the rows of its window. -/
structure StepEffect (env : VerificationEnv) (origin : Origin) (step : VStep) (mask : List Bool)
    (state state' : Routing) : Prop where
  length : mask.length = state.window.frame.height
  rows : List.Forall₂ (StepImage env.polars state.window.schema step)
    (keep mask state.window.frame.rows) state'.window.frame.rows
  sidecar : state'.window.sidecar = keep mask state.window.sidecar
  counts : state'.window.findingsPerRow.length = state'.window.frame.height
  nextOrdinal : state'.run.ledger.nextOrdinal = state.run.ledger.nextOrdinal
  accepted : state'.run.ledger.accepted = state.run.ledger.accepted
  ends : EndsRows env origin step (mask.map not) state state'

theorem StepEffect.aligned {mask : List Bool} (ha : state.window.Aligned)
    (he : StepEffect env origin step mask state state') : state'.window.Aligned := by
  refine ⟨?_, he.counts⟩
  rw [he.sidecar, Frame.height, ← he.rows.length_eq]
  exact length_keep_eq mask ha.sidecar

theorem StepEffect.of_rows (ha : state.window.Aligned)
    (hrows : Forall₂ (StepImage env.polars state.window.schema step) state.window.frame.rows
      state'.window.frame.rows)
    (hrun : state'.run = state.run) (hsidecar : state'.window.sidecar = state.window.sidecar)
    (hcounts : state'.window.findingsPerRow = state.window.findingsPerRow) :
    StepEffect env origin step (List.replicate state.window.frame.height true) state state' where
  length := by simp
  rows := by
    rw [Frame.height, keep_replicate_true]
    exact hrows
  sidecar := by rw [← ha.sidecar, keep_replicate_true, hsidecar]
  counts := by rw [hcounts, ha.counts, Frame.height, Frame.height, hrows.length_eq]
  nextOrdinal := by rw [hrun]
  accepted := by rw [hrun]
  ends := .inl ⟨by rw [hrun], by simp⟩

theorem StepEffect.of_transform (hproduct : step.IsProduct) (ha : state.window.Aligned)
    (hstep : (∃ columns, step = .project columns) ∨ ∃ rules, step = .transformRules rules)
    (h : runStep env origin state step = .ok state') :
    StepEffect env origin step (List.replicate state.window.frame.height true) state state' := by
  obtain ⟨columns, rfl⟩ | ⟨rules, rfl⟩ := hstep
  all_goals
    obtain ⟨window, hwindow, h⟩ := of_bind h
    obtain ⟨schema, -, h⟩ := of_bind h
    obtain ⟨working, hworking, rfl⟩ := transformWindow_eq_ok (checked_eq_ok hwindow)
    cases h
  · exact .of_rows ha (project_rows hworking) rfl rfl rfl
  · exact .of_rows ha (rules_rows hproduct hworking) rfl rfl rfl

theorem StepEffect.of_filter (hstep : step = .filter predicate ∨ step = .filterRows predicate)
    (ha : state.window.Aligned) (h : filterStep env state predicate = .ok state') :
    StepEffect env origin step (state.window.frame.rows.map fun row =>
      rowOutcome env state.window.schema predicate row == some true) state state' := by
  obtain ⟨hrun, hcompact⟩ := filterStep_eq_ok ha h
  have hpredicate : step.filterPredicate = some predicate := by
    rcases hstep with rfl | rfl <;> rfl
  refine ⟨by simp [Frame.height], ?_, hcompact.sidecar, hcompact.counts, by rw [hrun],
    by rw [hrun], .inl ⟨by rw [hrun], fun row hrow => ⟨predicate, hpredicate, ?_⟩⟩⟩
  · rcases hstep with rfl | rfl <;> exact hcompact.rows
  · rw [map_map] at hrow
    have hfails := (mem_keep_map.mp hrow).2
    simpa using hfails

theorem dedupKeys_fields (rule : DedupRule) (arrivals : List (DedupKey × Nat)) (ledger : Ledger) :
    (ledger.dedupKeys rule arrivals).1.nextOrdinal = ledger.nextOrdinal ∧
      (ledger.dedupKeys rule arrivals).1.valSummaries = ledger.valSummaries ∧
      (ledger.dedupKeys rule arrivals).1.valFindings = ledger.valFindings ∧
      (ledger.dedupKeys rule arrivals).1.rejected = ledger.rejected ∧
      (ledger.dedupKeys rule arrivals).1.accepted = ledger.accepted := by
  induction arrivals generalizing ledger with
  | nil => exact ⟨rfl, rfl, rfl, rfl, rfl⟩
  | cons arrival rest ih =>
    have hfirst : (ledger.dedupKey rule arrival).1.nextOrdinal = ledger.nextOrdinal ∧
        (ledger.dedupKey rule arrival).1.valSummaries = ledger.valSummaries ∧
        (ledger.dedupKey rule arrival).1.valFindings = ledger.valFindings ∧
        (ledger.dedupKey rule arrival).1.rejected = ledger.rejected ∧
        (ledger.dedupKey rule arrival).1.accepted = ledger.accepted := by
      unfold Ledger.dedupKey
      split <;> exact ⟨rfl, rfl, rfl, rfl, rfl⟩
    have hrest := ih (ledger.dedupKey rule arrival).1
    simp only [Ledger.dedupKeys, hrest, hfirst, and_self]

/-- Deduplication leaves the reports of the validation rules alone. -/
theorem DedupEffect.reports {rule : DedupRule} {keys : List DedupKey}
    (h : DedupEffect env origin rule keys state state') :
    state'.run.valSummaries = state.run.valSummaries ∧
      state'.run.valFindings = state.run.valFindings := by
  have hfields := dedupKeys_fields rule (state.window.arrivals keys)
    (state.run.countEvaluated rule.slot state.window.frame.height).ledger
  exact ⟨(congrArg Ledger.valSummaries h.ledger).trans hfields.2.1,
    (congrArg Ledger.valFindings h.ledger).trans hfields.2.2.1⟩

/-- A step whose predicate fits its window passes some rows on and accounts for the others. -/
theorem runStep_effect (hproduct : step.IsProduct) (ha : state.window.Aligned)
    (hfits : step.Fits state.window) (h : runStep env origin state step = .ok state') :
    ∃ mask, StepEffect env origin step mask state state' := by
  cases step with
  | project columns => exact ⟨_, .of_transform hproduct ha (.inl ⟨_, rfl⟩) h⟩
  | transformRules rules => exact ⟨_, .of_transform hproduct ha (.inr ⟨_, rfl⟩) h⟩
  | filter predicate => exact ⟨_, .of_filter (.inl rfl) ha h⟩
  | filterRows predicate => exact ⟨_, .of_filter (.inr rfl) ha h⟩
  | validate nodeId ruleOrdinal predicate severity message =>
    obtain ⟨slot, -, heffect⟩ := runStep_validate ha hfits h
    have hwindow := heffect.window
    refine ⟨_, by simp [deadOutcomes, Frame.height], hwindow.rows, hwindow.sidecar,
      hwindow.counts, by rw [heffect.ledger]; rfl, by rw [heffect.ledger]; rfl,
      .inr ⟨⟨nodeId, ruleOrdinal, "validation_error"⟩, ?_⟩⟩
    rw [heffect.ledger, map_not_not]
    rfl
  | deduplicate nodeId ruleOrdinal keyIds keyTypes =>
    obtain ⟨slot, columns, keys, -, -, heffect⟩ := runStep_deduplicate ha h
    have hwindow := heffect.window
    have hfields := dedupKeys_fields ⟨nodeId, ruleOrdinal, columns, keyTypes, slot⟩
      (state.window.arrivals keys) (state.run.countEvaluated slot state.window.frame.height).ledger
    have hlength := heffect.arrivals_length ha
    refine ⟨_, by simpa [length_dedupKeys] using hlength, hwindow.rows, hwindow.sidecar,
      hwindow.counts, ?_, ?_, .inr ⟨⟨nodeId, ruleOrdinal, "duplicate"⟩, ?_⟩⟩
    · rw [heffect.ledger]
      exact hfields.1
    · rw [heffect.ledger]
      exact hfields.2.2.2.2
    · rw [heffect.ledger, map_not_not]
      exact congrArg (· ++ _) hfields.2.2.2.1

end Stillflow.Engine
