import Stillflow.Engine.StepEffect

/-!
Where the routing loop indexes a list, and why the index is in bounds: an aligned window with a
sidecar that points into the retained scan output raises no panic in any step that fits it.
-/

namespace Stillflow.Engine

open Stillflow.Core Stillflow.Plan Lib.Fallible Lib.Mask List

variable {cause : Rejection} {env : VerificationEnv} {origin : Origin} {run : VerificationRun}
  {state : Routing} {sidecar : List (Nat × Nat)}

/-- Every sidecar entry points to a row of the retained scan output. -/
def Window.InBounds (window : Window) (origin : Origin) : Prop :=
  ∀ entry ∈ window.sidecar, origin.offset + entry.1 < origin.batch.height

theorem checked_ne_panic {α : Type} (x : Except EngineError α) : checked x ≠ .error .panic := by
  cases x with
  | error e => exact fun h => by cases h
  | ok a => exact fun h => by cases h

theorem ok_ne_panic {α : Type} (a : α) : (Except.ok a : Except Fault α) ≠ .error .panic :=
  fun h => by cases h

theorem keepIndexed_single {α : Type} (list : List α) : keepIndexed [false] list = .ok [] := by
  cases list <;> rfl

theorem compactAlive_ne_panic {window : Window} {mask : List Bool} (ha : window.Aligned)
    (hmask : mask.length ≤ window.frame.height ∨ mask = [false]) :
    compactAlive env window mask ≠ .error .panic := by
  have hindexed : ∀ {α : Type} (list : List α), list.length = window.frame.height →
      ∃ kept, keepIndexed mask list = .ok kept := by
    intro α list hlist
    rcases hmask with hle | rfl
    · exact ⟨_, keepIndexed_of_le (hle.trans hlist.ge)⟩
    · exact ⟨_, keepIndexed_single list⟩
  unfold compactAlive
  split_ifs with hall
  · exact ok_ne_panic _
  · apply bind_ne_error (checked_ne_panic _)
    intro frame _
    obtain ⟨sidecar, hsidecar⟩ := hindexed window.sidecar ha.sidecar
    obtain ⟨counts, hcounts⟩ := hindexed window.findingsPerRow ha.counts
    rw [hsidecar, ok_bind, hcounts, ok_bind]
    exact ok_ne_panic _

theorem rejectRow_ne_panic {entry : Nat × Nat}
    (hentry : origin.offset + entry.1 < origin.batch.height) :
    rejectRow env origin cause entry run ≠ .error .panic := by
  apply bind_ne_error (checked_ne_panic _)
  intro _ _
  rw [getElem?_eq_getElem hentry]
  exact checked_ne_panic _

theorem rejectDead_ne_panic {dead : List Bool} (hlen : dead.length ≤ sidecar.length)
    (hin : ∀ entry ∈ sidecar, origin.offset + entry.1 < origin.batch.height) :
    rejectDead env origin cause dead sidecar run ≠ .error .panic := by
  induction dead generalizing sidecar run with
  | nil => exact ok_ne_panic _
  | cons flag dead ih =>
    cases sidecar with
    | nil => simp at hlen
    | cons entry sidecar =>
      have hrest : dead.length ≤ sidecar.length := by simpa using hlen
      have htail : ∀ e ∈ sidecar, origin.offset + e.1 < origin.batch.height :=
        fun e he => hin e (mem_cons_of_mem _ he)
      cases flag with
      | false => exact ih hrest htail
      | true =>
        apply bind_ne_error (rejectRow_ne_panic (hin entry mem_cons_self))
        intro run' _
        exact ih hrest htail

theorem endRows_ne_panic {dead : List Bool} (ha : state.window.Aligned)
    (hin : state.window.InBounds origin) (hlen : dead.length ≤ state.window.frame.height) :
    endRows env origin cause dead state ≠ .error .panic := by
  unfold endRows
  split_ifs
  · apply bind_ne_error (rejectDead_ne_panic (hlen.trans ha.sidecar.ge) hin)
    intro run _
    apply bind_ne_error (compactAlive_ne_panic ha (.inl (by simpa using hlen)))
    exact fun window _ => ok_ne_panic _
  · exact ok_ne_panic _

theorem validateRows_ne_panic {rule : ValidateRule} {outcomes : List (Option Bool)}
    {counts : List Nat} (hsidecar : outcomes.length ≤ sidecar.length)
    (hcounts : outcomes.length ≤ counts.length) :
    validateRows env rule outcomes sidecar counts run ≠ .error .panic := by
  induction outcomes generalizing sidecar counts run with
  | nil => exact ok_ne_panic _
  | cons outcome outcomes ih =>
    cases sidecar with
    | nil => simp at hsidecar
    | cons entry sidecar =>
      cases counts with
      | nil => simp at hcounts
      | cons count counts =>
        have hs : outcomes.length ≤ sidecar.length := by simpa using hsidecar
        have hc : outcomes.length ≤ counts.length := by simpa using hcounts
        by_cases hpass : outcome = some true
        · subst hpass
          exact bind_ne_error (ih hs hc) fun result _ => ok_ne_panic _
        · rw [validateRows_fail hpass]
          apply bind_ne_error (checked_ne_panic _)
          intro _ _
          apply bind_ne_error (checked_ne_panic _)
          intro held _
          exact bind_ne_error (ih hs hc) fun result _ => ok_ne_panic _

theorem dedupRows_ne_panic {rule : DedupRule} {rows : List Row}
    (hlen : rows.length ≤ sidecar.length) :
    dedupRows env rule rows sidecar run ≠ .error .panic := by
  induction rows generalizing sidecar run with
  | nil => exact ok_ne_panic _
  | cons row rows ih =>
    cases sidecar with
    | nil => simp at hlen
    | cons entry sidecar =>
      have hrest : rows.length ≤ sidecar.length := by simpa using hlen
      apply bind_ne_error (checked_ne_panic _)
      intro first _
      exact bind_ne_error (ih hrest) fun result _ => ok_ne_panic _

theorem filterStep_ne_panic {predicate : Expr} (ha : state.window.Aligned) :
    filterStep env state predicate ≠ .error .panic := by
  apply bind_ne_error (checked_ne_panic _)
  intro mask hmask
  obtain ⟨outcomes, houtcomes, hmask⟩ := of_bind (checked_eq_ok hmask)
  cases hmask
  obtain ⟨hfree, hcolumns⟩ := evaluatePredicate_eq_ok houtcomes
  refine bind_ne_error ?_ fun window _ => ok_ne_panic _
  by_cases hcase : columnFree predicate
  · obtain ⟨outcome, rfl, -⟩ := hfree hcase
    rw [map_cons, map_nil]
    cases hflag : outcome == some true with
    | true => exact ok_ne_panic _
    | false => exact compactAlive_ne_panic ha (.inr rfl)
  · rw [hcolumns hcase]
    exact compactAlive_ne_panic ha (.inl (by simp [Frame.height]))

theorem runStep_ne_panic {step : VStep} (ha : state.window.Aligned)
    (hin : state.window.InBounds origin) (hfits : step.Fits state.window) :
    runStep env origin state step ≠ .error .panic := by
  cases step with
  | project columns | transformRules rules =>
    apply bind_ne_error (checked_ne_panic _)
    intro window _
    apply bind_ne_error (checked_ne_panic _)
    exact fun schema _ => ok_ne_panic _
  | filter predicate => exact filterStep_ne_panic ha
  | filterRows predicate => exact filterStep_ne_panic ha
  | validate nodeId ruleOrdinal predicate severity message =>
    apply bind_ne_error (checked_ne_panic _)
    intro outcomes houtcomes
    have hrows := evaluatePredicate_rows hfits (checked_eq_ok houtcomes)
    have hlength : outcomes.length = state.window.frame.height := by simp [hrows, Frame.height]
    apply bind_ne_error (checked_ne_panic _)
    intro slot _
    apply bind_ne_error (validateRows_ne_panic (hlength.trans ha.sidecar.symm).le
      (hlength.trans ha.counts.symm).le)
    intro result hresult
    obtain ⟨-, hcounts⟩ := validateRows_ledger hresult
    exact endRows_ne_panic ⟨ha.sidecar, hcounts.trans ha.counts⟩ hin
      (by simpa [deadOutcomes] using hlength.le)
  | deduplicate nodeId ruleOrdinal keyIds keyTypes =>
    apply bind_ne_error (checked_ne_panic _)
    intro slot _
    apply bind_ne_error (checked_ne_panic _)
    intro columns _
    apply bind_ne_error (dedupRows_ne_panic ha.sidecar.ge)
    intro result hresult
    obtain ⟨keys, hkeys, -, hledger⟩ := dedupRows_ledger hresult
    have hdead := congrArg (fun pair => pair.2.length) hledger
    have hlength := length_of_mapM_ok hkeys
    refine endRows_ne_panic ha hin ?_
    simp only [length_dedupKeys, length_zip, length_map] at hdead
    show result.2.length ≤ state.window.frame.rows.length
    omega

end Stillflow.Engine
