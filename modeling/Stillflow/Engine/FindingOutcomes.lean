import Stillflow.Engine.ReportPacks

/-! The findings of a Validate rule against its counters. -/

namespace Stillflow.Engine

open Stillflow.Core Stillflow.Plan Lib Lib.Fallible Lib.Mask Lib.Visits List

/-- What a finding has to say about an outcome that is not true. -/
def outcomeName : Option Bool → String
  | some false => "false"
  | _ => "null"

def Visit.ruleKey (v : Visit) : Option (Uuid × Nat) :=
  match v.step with
  | .validate nodeId ruleOrdinal _ _ _ => some (nodeId, ruleOrdinal)
  | _ => none

/-- The findings that rows call for: one per failing row in row order, with its outcome. -/
def owedFindings (rule : ValidateRule) (outcomeOf : Row → Option Bool) (rows : List Row)
    (sidecar : List (Nat × Nat)) : List ValFindingRow :=
  (rows.zip sidecar).filterMap fun entry =>
    if outcomeOf entry.1 = some true then none
    else some ⟨entry.2.2, rule.nodeId, rule.ruleOrdinal, severityLiteral rule.severity,
      outcomeName (outcomeOf entry.1)⟩

def Visit.owed (env : VerificationEnv) (v : Visit) : List ValFindingRow :=
  match v.step with
  | .validate nodeId ruleOrdinal predicate severity _ =>
    owedFindings ⟨nodeId, ruleOrdinal, severity, 0⟩
      (rowOutcome env v.state.window.schema predicate) v.state.window.frame.rows
      v.state.window.sidecar
  | _ => []

def Visit.outcomes (env : VerificationEnv) (v : Visit) : List (Option Bool) :=
  match v.step with
  | .validate _ _ predicate _ _ =>
    (evaluatePredicate env v.state.window.frame v.state.window.schema predicate).toOption.getD []
  | _ => []

def Visit.recorded (env : VerificationEnv) (v : Visit) : List ValFindingRow :=
  match v.step with
  | .validate nodeId ruleOrdinal _ severity _ =>
    findingsOf ⟨nodeId, ruleOrdinal, severity, 0⟩ (v.outcomes env) v.state.window.sidecar
  | _ => []

/-- No row of the visit is FALSE, and with more than one row a predicate without columns passes
them all. -/
def Visit.Truthful (env : VerificationEnv) (v : Visit) : Prop :=
  match v.step with
  | .validate _ _ predicate _ _ =>
    (∀ row ∈ v.state.window.frame.rows,
      rowOutcome env v.state.window.schema predicate row ≠ some false) ∧
    (columnFree predicate → 1 < v.state.window.frame.height → ∀ row ∈ v.state.window.frame.rows,
      rowOutcome env v.state.window.schema predicate row = some true)
  | _ => True

def Visit.Returned (env : VerificationEnv) (v : Visit) : Prop :=
  ∃ state', runStep env v.origin v.state v.step = .ok state'

theorem outcomeLiteral_of_fail {outcome : Option Bool} (h : outcome ≠ some true) :
    outcomeLiteral outcome = "null" := by
  match outcome, h with
  | none, _ => rfl
  | some false, _ => rfl

/-- Two selections of the same elements agree exactly when they agree on each of them. -/
theorem filterMap_eq_iff {α β : Type} {f g : α → Option β} {l : List α}
    (h : ∀ a, (f a).isSome = (g a).isSome) :
    l.filterMap f = l.filterMap g ↔ ∀ a ∈ l, f a = g a := by
  induction l with
  | nil => simp
  | cons a l ih =>
    rw [forall_mem_cons, ← ih]
    have ha := h a
    cases hf : f a with
    | none =>
      have hg : g a = none := by simpa [hf] using ha
      simp [hf, hg]
    | some b =>
      obtain ⟨c, hg⟩ := Option.isSome_iff_exists.mp (by simpa [hf] using ha.symm)
      simp [hf, hg]

theorem length_filterMap_eq {α β : Type} {f g : α → Option β} {l : List α}
    (h : ∀ a, (f a).isSome = (g a).isSome) : (l.filterMap f).length = (l.filterMap g).length := by
  rw [length_filterMap_eq_countP, length_filterMap_eq_countP]
  exact countP_congr fun a _ => by rw [h a]

variable {env : VerificationEnv}

theorem validateRows_head {rule : ValidateRule} {outcome : Option Bool} {counts : List Nat}
    {run : VerificationRun} {result : VerificationRun × List Nat}
    (h : validateRows env rule [outcome] [] counts run = .ok result) : outcome = some true := by
  match outcome with
  | some true => rfl
  | some false => cases h
  | none => cases h

section Rows

variable {rule : ValidateRule} {outcomeOf : Row → Option Bool} {rows : List Row}
  {sidecar : List (Nat × Nat)}

theorem findingsOf_rows : findingsOf rule (rows.map outcomeOf) sidecar =
    (rows.zip sidecar).filterMap fun entry =>
      if outcomeOf entry.1 = some true then none
      else some (rule.finding entry.2.2 (outcomeOf entry.1)) := by
  unfold findingsOf
  rw [zip_map_left, filterMap_map]
  rfl

theorem finding_isSome (entry : Row × Nat × Nat) :
    (if outcomeOf entry.1 = some true then none
      else some (rule.finding entry.2.2 (outcomeOf entry.1))).isSome =
    (if outcomeOf entry.1 = some true then none
      else some (⟨entry.2.2, rule.nodeId, rule.ruleOrdinal, severityLiteral rule.severity,
        outcomeName (outcomeOf entry.1)⟩ : ValFindingRow)).isSome := by
  split_ifs <;> rfl

theorem length_findingsOf_rows : (findingsOf rule (rows.map outcomeOf) sidecar).length =
    (owedFindings rule outcomeOf rows sidecar).length := by
  rw [findingsOf_rows, owedFindings]
  exact length_filterMap_eq finding_isSome

/-- With one outcome per row only the outcome texts can differ. -/
theorem findingsOf_eq_owed_iff (hlen : sidecar.length = rows.length) :
    findingsOf rule (rows.map outcomeOf) sidecar = owedFindings rule outcomeOf rows sidecar ↔
      ∀ row ∈ rows, outcomeOf row ≠ some false := by
  have hfst : (rows.zip sidecar).map Prod.fst = rows := map_fst_zip (by omega)
  have hrows : (∀ row ∈ rows, outcomeOf row ≠ some false) ↔
      ∀ entry ∈ rows.zip sidecar, outcomeOf entry.1 ≠ some false := by
    conv_lhs => rw [← hfst]
    exact forall_mem_map
  rw [findingsOf_rows, owedFindings, filterMap_eq_iff finding_isSome, hrows]
  refine forall₂_congr fun entry _ => ?_
  match houtcome : outcomeOf entry.1 with
  | some true => simp
  | some false => simp [ValidateRule.finding, outcomeLiteral, outcomeName]
  | none => simp [ValidateRule.finding, outcomeLiteral, outcomeName]

theorem length_owedFindings (hlen : sidecar.length = rows.length)
    (hfail : ∀ row ∈ rows, outcomeOf row ≠ some true) :
    (owedFindings rule outcomeOf rows sidecar).length = rows.length := by
  unfold owedFindings
  rw [length_filterMap_eq_countP, countP_eq_length.mpr, length_zip, hlen,
    Nat.min_self]
  intro entry hentry
  have hmem : entry.1 ∈ rows := (of_mem_zip hentry).1
  rw [if_neg (hfail entry.1 hmem)]
  rfl

theorem owedFindings_eq_nil (hpass : ∀ row ∈ rows, outcomeOf row = some true) :
    owedFindings rule outcomeOf rows sidecar = [] := by
  unfold owedFindings
  rw [filterMap_eq_nil_iff]
  intro entry hentry
  exact if_pos (hpass entry.1 (of_mem_zip hentry).1)

end Rows

theorem Visit.outcomes_eq {origin : Origin} {state : Routing} {nodeId : Uuid} {ruleOrdinal : Nat}
    {predicate : Expr} {severity : ValidationSeverity} {message : String}
    {outcomes : List (Option Bool)}
    (h : evaluatePredicate env state.window.frame state.window.schema predicate = .ok outcomes) :
    (Visit.mk origin state (.validate nodeId ruleOrdinal predicate severity message)).outcomes env =
      outcomes := by
  simp only [Visit.outcomes, h]
  rfl

/-- A visit records what its rows call for exactly when it is truthful, and never more. -/
theorem Visit.recorded_eq_owed_iff {v : Visit} (ha : v.state.window.Aligned)
    (hreturned : v.Returned env) :
    (v.recorded env = v.owed env ↔ v.Truthful env) ∧
      (v.recorded env).length ≤ (v.owed env).length := by
  obtain ⟨origin, state, step⟩ := v
  cases step with
  | validate nodeId ruleOrdinal predicate severity message =>
    obtain ⟨state', h⟩ := hreturned
    obtain ⟨outcomes, houtcomes, h⟩ := of_bind h
    obtain ⟨slot, -, h⟩ := of_bind h
    obtain ⟨result, hresult, -⟩ := of_bind h
    have houtcomes := checked_eq_ok houtcomes
    have ha : state.window.Aligned := ha
    have hread := @Visit.outcomes_eq env origin state nodeId ruleOrdinal predicate severity message
      outcomes houtcomes
    set outcomeOf := rowOutcome env state.window.schema predicate with houtcomeOf
    simp only [Visit.recorded, Visit.owed, Visit.Truthful, hread, ← houtcomeOf]
    by_cases hfits : columnFree predicate → state.window.frame.height = 1
    · have hrows : outcomes = state.window.frame.rows.map outcomeOf :=
        evaluatePredicate_rows hfits houtcomes
      rw [hrows, findingsOf_eq_owed_iff ha.sidecar, length_findingsOf_rows]
      refine ⟨⟨fun h => ⟨h, fun hfree hmany => ?_⟩, fun h => h.1⟩, le_refl _⟩
      have hone := hfits hfree
      omega
    · obtain ⟨hfree, hheight⟩ := Classical.not_imp.mp hfits
      obtain ⟨outcome, rfl, hsame⟩ := (evaluatePredicate_eq_ok houtcomes).1 hfree
      by_cases hpass : outcome = some true
      · have hall : ∀ row ∈ state.window.frame.rows, outcomeOf row = some true :=
          fun row _ => (hsame row).trans hpass
        have hnone : findingsOf ⟨nodeId, ruleOrdinal, severity, 0⟩ [outcome]
            state.window.sidecar = [] := by
          rw [hpass]
          cases state.window.sidecar <;> rfl
        rw [hnone, owedFindings_eq_nil hall]
        refine ⟨⟨fun _ => ⟨fun row hrow => ?_, fun _ _ => hall⟩, fun _ => rfl⟩, le_refl _⟩
        rw [hall row hrow]
        decide
      · -- a failing outcome of an empty window would have panicked
        have hfail : ∀ row ∈ state.window.frame.rows, outcomeOf row ≠ some true :=
          fun row _ heq => hpass ((hsame row).symm.trans heq)
        cases hsidecar : state.window.sidecar with
        | nil =>
          rw [hsidecar] at hresult
          exact absurd (validateRows_head hresult) hpass
        | cons entry sidecar =>
          have hlen := ha.sidecar
          rw [hsidecar, length_cons] at hlen
          have hone : (findingsOf ⟨nodeId, ruleOrdinal, severity, 0⟩ [outcome]
              (entry :: sidecar)).length = 1 := by
            simp [findingsOf, hpass]
          have hmany := @length_owedFindings ⟨nodeId, ruleOrdinal, severity, 0⟩ outcomeOf
            state.window.frame.rows (entry :: sidecar) hlen hfail
          have hrows : 1 < state.window.frame.rows.length := by
            change ¬ state.window.frame.rows.length = 1 at hheight
            change sidecar.length + 1 = state.window.frame.rows.length at hlen
            omega
          refine ⟨⟨fun heq => ?_, fun h => ?_⟩, by omega⟩
          · have hsizes := congrArg List.length heq
            omega
          · obtain ⟨row, hrow⟩ := exists_mem_of_length_pos (Nat.zero_lt_of_lt hrows)
            exact absurd (h.2 hfree hrows row hrow) (hfail row hrow)
  | _ => exact ⟨⟨fun _ => trivial, fun _ => rfl⟩, le_refl _⟩

end Stillflow.Engine
