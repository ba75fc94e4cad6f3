import Stillflow.Engine.Conservation

/-! The counters of the rules. -/

namespace Stillflow.Engine

open Stillflow.Core Stillflow.Plan Lib.Fallible Lib.Mask Lib.Visits List Option

variable {dedupSummaries : List DedupSummaryRow} {env : VerificationEnv} {origin : Origin}
  {past : List Visit} {state state' : Routing} {v : Visit} {valSummaries : List ValSummaryRow}

/-- Every evaluated row passed or failed, and failed as false or as null. -/
def ValidationTally.Balanced (tally : ValidationTally) : Prop :=
  tally.evaluated = tally.pass + tally.fail ∧ tally.fail = tally.falseOutcomes + tally.nullOutcomes

theorem ValidationTally.add_evaluated (tally : ValidationTally) (severity : ValidationSeverity)
    (outcome : Option Bool) : (tally.add severity outcome).evaluated = tally.evaluated + 1 := by
  unfold ValidationTally.add
  split <;> rfl

theorem ValidationTally.Balanced.add {tally : ValidationTally} (h : tally.Balanced)
    (severity : ValidationSeverity) (outcome : Option Bool) :
    (tally.add severity outcome).Balanced := by
  have hevaluated := h.1
  have hfail := h.2
  match outcome with
  | some true =>
    refine ⟨?_, hfail⟩
    show tally.evaluated + 1 = tally.pass + 1 + tally.fail
    omega
  | some false =>
    refine ⟨?_, ?_⟩
    · show tally.evaluated + 1 = tally.pass + (tally.fail + 1)
      omega
    · show tally.fail + 1 = tally.falseOutcomes + 1 + tally.nullOutcomes
      omega
  | none =>
    refine ⟨?_, ?_⟩
    · show tally.evaluated + 1 = tally.pass + (tally.fail + 1)
      omega
    · show tally.fail + 1 = tally.falseOutcomes + (tally.nullOutcomes + 1)
      omega

theorem ValidationTally.foldl_add (tally : ValidationTally) (severity : ValidationSeverity)
    (outcomes : List (Option Bool)) :
    (outcomes.foldl (fun t => t.add severity) tally).evaluated =
        tally.evaluated + outcomes.length ∧
      (tally.Balanced → (outcomes.foldl (fun t => t.add severity) tally).Balanced) := by
  induction outcomes generalizing tally with
  | nil => exact ⟨rfl, id⟩
  | cons outcome outcomes ih =>
    have hrest := ih (tally.add severity outcome)
    refine ⟨?_, fun h => hrest.2 (h.add severity outcome)⟩
    rw [foldl_cons, hrest.1, tally.add_evaluated, length_cons]
    omega

theorem dedupKeys_counts (rule : DedupRule) (arrivals : List (DedupKey × Nat)) (ledger : Ledger) :
    ∃ unique duplicates, unique + duplicates = arrivals.length ∧
      (ledger.dedupKeys rule arrivals).1.dedupSummaries =
        (ledger.countKeys rule.slot unique duplicates).dedupSummaries := by
  induction arrivals generalizing ledger with
  | nil => exact ⟨0, 0, rfl, (modify_id rule.slot ledger.dedupSummaries).symm⟩
  | cons arrival rest ih =>
    obtain ⟨unique, duplicates, hsum, hrest⟩ := ih (ledger.dedupKey rule arrival).1
    have hcompose : ∀ u d, ((ledger.countKeys rule.slot u d).countKeys rule.slot unique
        duplicates).dedupSummaries =
        (ledger.countKeys rule.slot (u + unique) (d + duplicates)).dedupSummaries := by
      intro u d
      simp only [Ledger.countKeys, modify_modify_eq]
      congr 1
      funext row
      simp [Nat.add_assoc]
    have hcons : (ledger.dedupKeys rule (arrival :: rest)).1 =
        ((ledger.dedupKey rule arrival).1.dedupKeys rule rest).1 := rfl
    rw [hcons, hrest]
    unfold Ledger.dedupKey
    split
    · refine ⟨1 + unique, 0 + duplicates, by simp; omega, ?_⟩
      rw [← hcompose]
      rfl
    · refine ⟨0 + unique, 1 + duplicates, by simp; omega, ?_⟩
      rw [← hcompose]
      rfl

def Visit.valSlot (env : VerificationEnv) (v : Visit) : Option Nat :=
  match v.step with
  | .validate nodeId ruleOrdinal _ _ _ => env.valSummaryIndex (nodeId, ruleOrdinal)
  | _ => none

def Visit.dedupSlot (env : VerificationEnv) (v : Visit) : Option Nat :=
  match v.step with
  | .deduplicate nodeId ruleOrdinal _ _ => env.dedupSummaryIndex (nodeId, ruleOrdinal)
  | _ => none

def rowsReaching (slotOf : Visit → Option Nat) (past : List Visit) (slot : Nat) : Nat :=
  (past.map fun v => if slotOf v = some slot then v.state.window.frame.height else 0).sum

theorem rowsReaching_snoc (slotOf : Visit → Option Nat) (past : List Visit) (v : Visit)
    (slot : Nat) : rowsReaching slotOf (past ++ [v]) slot = rowsReaching slotOf past slot +
      if slotOf v = some slot then v.state.window.frame.height else 0 := by
  simp [rowsReaching]

theorem forall_modify {ρ : Type} {rows : List ρ} {slot : Nat} {f : ρ → ρ} {P Q : Nat → ρ → Prop}
    (h : ∀ i row, rows[i]? = some row → P i row) (hat : ∀ row, P slot row → Q slot (f row))
    (hother : ∀ i row, slot ≠ i → P i row → Q i row) :
    ∀ i row, (rows.modify slot f)[i]? = some row → Q i row := by
  intro i row hrow
  rw [getElem?_modify] at hrow
  obtain ⟨before, hbefore, rfl⟩ := map_eq_some_iff.mp hrow
  split_ifs with hslot
  · subst hslot
    exact hat before (h _ before hbefore)
  · exact hother i before hslot (h i before hbefore)

/-- The counters in every slot are balanced and count the rows that reached its rule. -/
def Tallied {ρ : Type} (Balanced : ρ → Prop) (evaluated : ρ → Nat) (slotOf : Visit → Option Nat)
    (past : List Visit) (rows : List ρ) : Prop :=
  ∀ slot row, rows[slot]? = some row →
    Balanced row ∧ evaluated row = rowsReaching slotOf past slot

section Tallied

variable {ρ : Type} {Balanced : ρ → Prop} {evaluated : ρ → Nat} {slotOf : Visit → Option Nat}
  {rows : List ρ}

theorem Tallied.snoc_none (h : Tallied Balanced evaluated slotOf past rows)
    (hv : slotOf v = none) : Tallied Balanced evaluated slotOf (past ++ [v]) rows := by
  intro slot row hrow
  rw [rowsReaching_snoc, hv]
  simpa using h slot row hrow

theorem Tallied.snoc_modify {slot : Nat} {f : ρ → ρ}
    (h : Tallied Balanced evaluated slotOf past rows) (hv : slotOf v = some slot)
    (hf : ∀ row, Balanced row → Balanced (f row) ∧
      evaluated (f row) = evaluated row + v.state.window.frame.height) :
    Tallied Balanced evaluated slotOf (past ++ [v]) (rows.modify slot f) := by
  refine forall_modify h (fun row hrow => ?_) fun index row hslot hrow => ?_
  · obtain ⟨hbalance, hevaluated⟩ := hf row hrow.1
    rw [rowsReaching_snoc, if_pos hv, hevaluated, hrow.2]
    exact ⟨hbalance, rfl⟩
  · rw [rowsReaching_snoc, hv, if_neg fun h => hslot (some.inj h)]
    exact hrow

end Tallied

/-- The counters of every rule agree with the visits so far. -/
structure Counted (env : VerificationEnv) (past : List Visit) (valSummaries : List ValSummaryRow)
    (dedupSummaries : List DedupSummaryRow) : Prop where
  validate : Tallied (·.tally.Balanced) (·.tally.evaluated) (Visit.valSlot env) past valSummaries
  dedup : Tallied (fun row => row.evaluated = row.unique + row.duplicates) (·.evaluated)
    (Visit.dedupSlot env) past dedupSummaries

theorem counted_start (env : VerificationEnv) :
    Counted env [] env.start.valSummaries env.start.dedupSummaries where
  validate slot row hrow := by
    obtain ⟨step, -, hstep⟩ := mem_filterMap.mp (mem_of_getElem? hrow)
    cases step <;> cases hstep
    exact ⟨⟨rfl, rfl⟩, rfl⟩
  dedup slot row hrow := by
    obtain ⟨step, -, hstep⟩ := mem_filterMap.mp (mem_of_getElem? hrow)
    cases step <;> cases hstep
    exact ⟨rfl, rfl⟩

theorem Counted.step {step : VStep}
    (hc : Counted env past state.run.valSummaries state.run.dedupSummaries)
    (ha : state.window.Aligned) (hfits : step.Fits state.window)
    (h : runStep env origin state step = .ok state') :
    Counted env (past ++ [⟨origin, state, step⟩]) state'.run.valSummaries
      state'.run.dedupSummaries := by
  cases step with
  | validate nodeId ruleOrdinal predicate severity message =>
    obtain ⟨slot, hslot, heffect⟩ := runStep_validate ha hfits h
    have hval := congrArg Ledger.valSummaries heffect.ledger
    have hdedup := congrArg Ledger.dedupSummaries heffect.ledger
    rw [show state'.run.valSummaries = _ from hval, show state'.run.dedupSummaries = _ from hdedup]
    refine ⟨hc.validate.snoc_modify hslot fun row hrow => ?_, hc.dedup.snoc_none rfl⟩
    obtain ⟨hevaluated, hbalance⟩ := row.tally.foldl_add severity
      (state.window.frame.rows.map (rowOutcome env state.window.schema predicate))
    exact ⟨hbalance hrow, hevaluated.trans (by simp [Frame.height])⟩
  | deduplicate nodeId ruleOrdinal keyIds keyTypes =>
    obtain ⟨slot, columns, keys, hslot, -, heffect⟩ := runStep_deduplicate ha h
    obtain ⟨unique, duplicates, hsum, hcounts⟩ := dedupKeys_counts
      ⟨nodeId, ruleOrdinal, columns, keyTypes, slot⟩ (state.window.arrivals keys)
      (state.run.countEvaluated slot state.window.frame.height).ledger
    have hdedup := congrArg Ledger.dedupSummaries heffect.ledger
    rw [heffect.reports.1, show state'.run.dedupSummaries = _ from hdedup.trans hcounts]
    have hheight := hsum.trans (heffect.arrivals_length ha)
    refine ⟨hc.validate.snoc_none rfl, ?_⟩
    show Tallied _ _ _ _ ((state.run.dedupSummaries.modify slot _).modify slot _)
    rw [modify_modify_eq]
    refine hc.dedup.snoc_modify hslot fun row hrow => ?_
    dsimp only [Function.comp]
    omega
  | _ =>
    rw [runStep_run rfl h]
    exact ⟨hc.validate.snoc_none rfl, hc.dedup.snoc_none rfl⟩

theorem streamVerification_counted {envelopes : List BatchEnvelope} {run : VerificationRun}
    (hproduct : ∀ step ∈ env.routingSteps, step.IsProduct)
    (hfits : ∀ v ∈ env.runVisits envelopes, v.Fits)
    (h : streamVerification env envelopes env.start = .ok run) :
    Counted env (env.runVisits envelopes) run.valSummaries run.dedupSummaries := by
  refine streamVerification_history
    (fun past ledger => Counted env past ledger.valSummaries ledger.dedupSummaries) Visit.Fits
    (fun _ _ hc => hc) ?_ (counted_start env) hfits h
  intro past origin state state' step hmem hfit ha hc hrun
  obtain ⟨mask, he⟩ := runStep_effect (hproduct step hmem) ha hfit hrun
  exact ⟨he.aligned ha, hc.step ha hfit hrun⟩

end Stillflow.Engine
