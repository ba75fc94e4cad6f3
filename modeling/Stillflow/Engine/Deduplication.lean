import Stillflow.Engine.KeepFirst

/-! Deduplicate rules of a whole run. -/

namespace Stillflow.Engine

open Stillflow.Core Stillflow.Plan Lib.Fallible Lib.Visits Lib.KeepFirst List

def PlanBuilder.dedupIds (builder : PlanBuilder) : List (Uuid × Nat) :=
  builder.vsteps.filterMap VStep.dedupId

theorem flushTransform_dedupIds (builder : PlanBuilder) :
    builder.flushTransform.dedupIds = builder.dedupIds := by
  unfold PlanBuilder.flushTransform
  split_ifs
  · rfl
  · simp [PlanBuilder.dedupIds, VStep.dedupId]

theorem push_dedupIds (builder : PlanBuilder) (step : VStep) :
    (builder.push step).dedupIds = builder.dedupIds ++ step.dedupId.toList := by
  rw [PlanBuilder.dedupIds, PlanBuilder.push, filterMap_append]
  cases hstep : step.dedupId <;> simp [PlanBuilder.dedupIds, hstep]

variable {builder builder' : PlanBuilder}

theorem buildRule_dedupIds {nodeId : Uuid} {entry : Rule × Nat}
    (h : buildRule nodeId builder entry = .ok builder') :
    builder'.dedupIds = builder.dedupIds ∨
      builder'.dedupIds = builder.dedupIds ++ [(nodeId, entry.2)] := by
  rcases buildRule_cases h with ⟨step, -, hid, rfl⟩ | ⟨working, -, rfl⟩
  · rw [push_dedupIds, flushTransform_dedupIds]
    rcases hid with hid | hid <;> simp [hid]
  · exact .inl rfl

theorem buildRules_nodup {nodeId : Uuid} {rules : List Rule} {start : Nat}
    (hnodup : builder.dedupIds.Nodup)
    (hbefore : ∀ id ∈ builder.dedupIds, id.1 = nodeId → id.2 < start)
    (h : (rules.zipIdx start).foldlM (buildRule nodeId) builder = .ok builder') :
    builder'.dedupIds.Nodup ∧
      ∀ id ∈ builder'.dedupIds, id ∈ builder.dedupIds ∨ id.1 = nodeId := by
  induction rules generalizing start builder with
  | nil =>
    cases h
    exact ⟨hnodup, fun id hid => .inl hid⟩
  | cons rule rules ih =>
    rw [zipIdx_cons, foldlM_cons] at h
    obtain ⟨mid, hmid, h⟩ := of_bind h
    rcases buildRule_dedupIds hmid with hsame | hnew
    · have hrest := @ih mid (start + 1) (by rw [hsame]; exact hnodup) (fun id hid hnode => by
        rw [hsame] at hid
        exact Nat.lt_succ_of_lt (hbefore id hid hnode)) h
      rw [hsame] at hrest
      exact hrest
    · have hfresh : (nodeId, start) ∉ builder.dedupIds := fun hmem =>
        absurd (hbefore _ hmem rfl) (Nat.lt_irrefl _)
      have hmidNodup : mid.dedupIds.Nodup := by
        rw [hnew]
        exact nodup_append'.mpr ⟨hnodup, nodup_singleton _, by simpa using hfresh⟩
      obtain ⟨hfinal, hids⟩ := @ih mid (start + 1) hmidNodup (fun id hid hnode => by
        rw [hnew] at hid
        rcases mem_append.mp hid with hold | hlast
        · exact Nat.lt_succ_of_lt (hbefore id hold hnode)
        · rw [mem_singleton.mp hlast]
          exact Nat.lt_succ_self start) h
      refine ⟨hfinal, fun id hid => ?_⟩
      rcases hids id hid with hmem | hnode
      · rw [hnew] at hmem
        rcases mem_append.mp hmem with hold | hlast
        · exact .inl hold
        · rw [mem_singleton.mp hlast]
          exact .inr rfl
      · exact .inr hnode

theorem buildNode_nodup {entry : PlanNodeId × PlanNode} (hnodup : builder.dedupIds.Nodup)
    (hfresh : ∀ id ∈ builder.dedupIds, id.1 ≠ entry.1) (h : buildNode builder entry = .ok builder') :
    builder'.dedupIds.Nodup ∧
      ∀ id ∈ builder'.dedupIds, id ∈ builder.dedupIds ∨ id.1 = entry.1 := by
  have hsame : builder'.dedupIds = builder.dedupIds → builder'.dedupIds.Nodup ∧
      ∀ id ∈ builder'.dedupIds, id ∈ builder.dedupIds ∨ id.1 = entry.1 := by
    intro heq
    rw [heq]
    exact ⟨hnodup, fun id hid => .inl hid⟩
  unfold buildNode at h
  split at h
  · obtain ⟨working, -, h⟩ := of_bind h
    cases h
    exact hsame ((push_dedupIds builder _).trans (append_nil _))
  · obtain ⟨_, -, h⟩ := of_bind h
    cases h
    exact hsame ((push_dedupIds builder _).trans (append_nil _))
  · obtain ⟨last, hlast, h⟩ := of_bind h
    cases h
    rw [flushTransform_dedupIds]
    exact buildRules_nodup hnodup (fun id hid hnode => absurd hnode (hfresh id hid)) hlast
  · cases h

theorem buildNodes_nodup {nodes : List (PlanNodeId × PlanNode)}
    (hnodes : (nodes.map Prod.fst).Nodup) (hnodup : builder.dedupIds.Nodup)
    (hfresh : ∀ id ∈ builder.dedupIds, id.1 ∉ nodes.map Prod.fst)
    (h : nodes.foldlM buildNode builder = .ok builder') : builder'.dedupIds.Nodup := by
  induction nodes generalizing builder with
  | nil =>
    cases h
    exact hnodup
  | cons entry nodes ih =>
    rw [foldlM_cons] at h
    obtain ⟨mid, hmid, h⟩ := of_bind h
    rw [map_cons, nodup_cons] at hnodes
    have hentry : ∀ id ∈ builder.dedupIds, id.1 ≠ entry.1 := by
      intro id hid heq
      exact hfresh id hid (by rw [heq]; exact mem_cons_self)
    obtain ⟨hmidNodup, hids⟩ := buildNode_nodup hnodup hentry hmid
    refine ih hnodes.2 hmidNodup (fun id hid => ?_) h
    rcases hids id hid with hold | hnode
    · exact fun hmem => hfresh id hold (mem_cons_of_mem _ hmem)
    · rw [hnode]
      exact hnodes.1

theorem linearize_nodup {plan : LogicalPlan} {linear : List (PlanNodeId × PlanNode)}
    (h : linearize plan = .ok linear) : (linear.map Prod.fst).Nodup := by
  obtain ⟨scan, -, h⟩ := of_bind h
  split at h
  · obtain ⟨_, -, h⟩ := of_bind h
    obtain ⟨path, hpath, h⟩ := of_bind h
    obtain ⟨_, -, h⟩ := of_bind h
    cases h
    exact ((chainTrail plan scan.children).follow_eq_ok.mp hpath).2
  · cases h

theorem leadingSteps_dedupIds (prepared : PreparedPlan) (predicate : Option Expr) :
    (leadingSteps prepared predicate).filterMap VStep.dedupId = [] := by
  unfold leadingSteps
  cases predicate <;> split_ifs <;> rfl

/-- Node and ordinal name at most one Deduplicate rule of a plan. -/
theorem buildVerificationPlan_nodup {plan : LogicalPlan} {prepared : PreparedPlan}
    {vplan : VerificationPlan} (h : buildVerificationPlan plan prepared = .ok vplan) :
    (vplan.vsteps.filterMap VStep.dedupId).Nodup := by
  obtain ⟨linear, hlinear, h⟩ := of_bind h
  have hnodes := linearize_nodup hlinear
  split at h
  · rename_i predicate rest
    obtain ⟨working, -, h⟩ := of_bind h
    obtain ⟨_, -, h⟩ := of_bind h
    obtain ⟨_, -, h⟩ := of_bind h
    obtain ⟨builder, hbuilder, h⟩ := of_bind h
    cases h
    have hnone : PlanBuilder.dedupIds ⟨leadingSteps prepared predicate, [], working⟩ = [] :=
      leadingSteps_dedupIds prepared predicate
    refine buildNodes_nodup ?_ ?_ ?_ hbuilder
    · rw [map_cons, nodup_cons] at hnodes
      exact hnodes.2.sublist ((dropLast_sublist rest).map Prod.fst)
    · rw [hnone]
      exact nodup_nil
    · rw [hnone]
      simp
  · cases h

theorem eq_of_filterMap_nodup {α β : Type} {f : α → Option β} {l : List α}
    (h : (l.filterMap f).Nodup) {a b : α} {id : β} (ha : a ∈ l) (hb : b ∈ l) (hfa : f a = some id)
    (hfb : f b = some id) : a = b := by
  induction l with
  | nil => cases ha
  | cons c l ih =>
    have hmem : ∀ d ∈ l, f d = some id → id ∈ l.filterMap f := fun d hd hfd =>
      mem_filterMap.mpr ⟨d, hd, hfd⟩
    cases hfc : f c with
    | none =>
      rw [filterMap_cons_none hfc] at h
      have hca : a ≠ c := fun heq => by simp [heq, hfc] at hfa
      have hcb : b ≠ c := fun heq => by simp [heq, hfc] at hfb
      exact ih h (mem_of_ne_of_mem hca ha) (mem_of_ne_of_mem hcb hb)
    | some idc =>
      rw [filterMap_cons_some hfc, nodup_cons] at h
      rcases mem_cons.mp ha with rfl | hrest
      · rcases mem_cons.mp hb with rfl | hrest'
        · rfl
        · cases hfc.symm.trans hfa
          exact absurd (hmem b hrest' hfb) h.1
      · rcases mem_cons.mp hb with rfl | hrest'
        · cases hfc.symm.trans hfb
          exact absurd (hmem a hrest hfa) h.1
        · exact ih h.2 hrest hrest'

/-- Among the arrivals of a run the key bytes decide equality of the key tuples. -/
theorem Arrival.Known.key_eq_iff {env : VerificationEnv} {a b : Arrival}
    (hids : (env.vplan.vsteps.filterMap VStep.dedupId).Nodup) (ha : a.Known env)
    (hb : b.Known env) : b.entry.1 = a.entry.1 ↔ b.SameKey a := by
  obtain ⟨keys, keyTypes, hstep, htypes, hbytes⟩ := ha
  obtain ⟨keys', keyTypes', hstep', htypes', hbytes'⟩ := hb
  -- one rule has one list of key types
  have hsame : b.nodeId = a.nodeId → b.ruleOrdinal = a.ruleOrdinal →
      b.cells.map (·.1) = a.cells.map (·.1) := by
    intro hnode hordinal
    rw [hnode, hordinal] at hstep'
    cases eq_of_filterMap_nodup hids (mem_of_mem_drop hstep) (mem_of_mem_drop hstep')
      rfl rfl
    rw [htypes, htypes']
  constructor
  · intro heq
    injection heq with hnode hordinal hkey
    obtain ⟨values, values', htuple, htuple', hiff⟩ :=
      encodeKey_eq_iff (hsame hnode hordinal) hbytes' hbytes
    exact ⟨hnode, hordinal, values, values', htuple, htuple', hiff.mp hkey⟩
  · rintro ⟨hnode, hordinal, values, values', htuple, htuple', heq⟩
    obtain ⟨own, own', hown, hown', hiff⟩ :=
      encodeKey_eq_iff (hsame hnode hordinal) hbytes' hbytes
    cases htuple.symm.trans hown
    cases htuple'.symm.trans hown'
    show DedupKey.mk b.nodeId b.ruleOrdinal b.keyBytes = ⟨a.nodeId, a.ruleOrdinal, a.keyBytes⟩
    rw [hnode, hordinal, hiff.mpr heq]

theorem repeatsOf_arrivals (arrivals : List Arrival) (firsts : List (Option Arrival)) :
    rejectedOf (arrivals.map Arrival.entry) (firsts.map (Option.map Arrival.ordinal)) =
      ((arrivals.zip firsts).filterMap fun p => p.2.map fun _ =>
        ((p.1.nodeId, p.1.ruleOrdinal), p.1.ordinal)) ∧
    reportedOf (arrivals.map Arrival.entry) (firsts.map (Option.map Arrival.ordinal)) =
      (arrivals.zip firsts).filterMap fun p => p.2.map fun first =>
        ((p.1.nodeId, p.1.ruleOrdinal), p.1.ordinal, first.ordinal) := by
  rw [rejectedOf, reportedOf, zip_map, filterMap_map, filterMap_map]
  constructor
  all_goals
    refine filterMap_congr fun p _ => ?_
    obtain ⟨a, first⟩ := p
    cases first <;> rfl

/-- Equal key bytes are equal key tuples, and over a whole run a row that reaches a Deduplicate
rule is rejected exactly when an earlier one that reached the rule has an equal key tuple; it is
reported with the ordinal of the earliest such row. -/
theorem deduplicate_keeps_first {plan : LogicalPlan} {env : VerificationEnv}
    (hplan : buildVerificationPlan plan env.prepared = .ok env.vplan)
    (envelopes : List BatchEnvelope) :
    (∀ (cells cells' : List (LogicalType × AnyValue)) (a b : KeyBytes),
      cells.map (·.1) = cells'.map (·.1) → encodeKey cells [] = .ok a →
      encodeKey cells' [] = .ok b → ∃ values values', keyTuple cells = .ok values ∧
        keyTuple cells' = .ok values' ∧ (a = b ↔ List.Forall₂ KeyValue.Same values values')) ∧
    ∀ run, streamVerification env envelopes env.start = .ok run →
      (duplicateRejections run.ledger).map RejectedEntry.rejection =
        ((env.arrivals envelopes).zip
          (repeated Arrival.SameKey [] (env.arrivals envelopes))).filterMap (fun p =>
            p.2.map fun _ => ((p.1.nodeId, p.1.ruleOrdinal), p.1.ordinal)) ∧
      run.ledger.dupFindings.map DupFindingRow.reported =
        ((env.arrivals envelopes).zip
          (repeated Arrival.SameKey [] (env.arrivals envelopes))).filterMap (fun p =>
            p.2.map fun first => ((p.1.nodeId, p.1.ruleOrdinal), p.1.ordinal, first.ordinal)) := by
  refine ⟨fun cells cells' a b htypes ha hb => encodeKey_eq_iff htypes ha hb, fun run hrun => ?_⟩
  have hproduct := routingSteps_isProduct hplan
  have htraced := streamVerification_traced hproduct hrun
  have hfirsts : repeats [] ((env.arrivals envelopes).map Arrival.entry) =
      (repeated Arrival.SameKey [] (env.arrivals envelopes)).map (Option.map Arrival.ordinal) := by
    refine @repeats_eq_repeated DedupKey Arrival _ _ Arrival.SameKey (fun a => a.entry.1)
      Arrival.ordinal [] (env.arrivals envelopes) ?_
    intro b hb a ha
    exact (htraced.known a ha).key_eq_iff (buildVerificationPlan_nodup hplan) (htraced.known b hb)
  have hrejected := htraced.kept.rejected
  have hfindings := htraced.kept.findings
  rw [show (env.runVisits envelopes).flatMap Visit.arrivals = env.arrivals envelopes from rfl,
    hfirsts] at hrejected hfindings
  exact ⟨hrejected.trans (repeatsOf_arrivals _ _).1, hfindings.trans (repeatsOf_arrivals _ _).2⟩

/-- One Deduplicate rule over the id column. -/
def uniqueIdEnv : VerificationEnv := sampleEnv [.deduplicate 2 0 [1] [.int64]]

theorem deduplicate_keeps_first_ids :
    ∃ run, streamVerification uniqueIdEnv
        [idEnvelope [.int64 10, .null] (by decide), idEnvelope [.null, .int64 10] (by decide)]
        uniqueIdEnv.start = .ok run ∧
      run.ledger.dupFindings.map DupFindingRow.reported = [((2, 0), 2, 1), ((2, 0), 3, 0)] ∧
      (duplicateRejections run.ledger).map RejectedEntry.rejection =
        ((uniqueIdEnv.arrivals [idEnvelope [.int64 10, .null] (by decide),
          idEnvelope [.null, .int64 10] (by decide)]).zip (repeated Arrival.SameKey []
          (uniqueIdEnv.arrivals [idEnvelope [.int64 10, .null] (by decide),
            idEnvelope [.null, .int64 10] (by decide)]))).filterMap (fun p =>
            p.2.map fun _ => ((p.1.nodeId, p.1.ruleOrdinal), p.1.ordinal)) := by
  have hplan : buildVerificationPlan (rulesPlan [.deduplicate [1]]) uniqueIdEnv.prepared =
      .ok uniqueIdEnv.vplan := rfl
  have hfound : (streamVerification uniqueIdEnv
      [idEnvelope [.int64 10, .null] (by decide), idEnvelope [.null, .int64 10] (by decide)]
      uniqueIdEnv.start).toOption.map (fun run => run.ledger.dupFindings.map
        DupFindingRow.reported) = some [((2, 0), 2, 1), ((2, 0), 3, 0)] := by
    decide +kernel
  obtain ⟨run, hrun, hreported⟩ := exists_of_map_toOption hfound
  exact ⟨run, hrun, hreported, ((deduplicate_keeps_first hplan _).2 run hrun).1⟩

end Stillflow.Engine
