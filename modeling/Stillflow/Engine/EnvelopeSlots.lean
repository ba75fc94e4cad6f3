import Stillflow.Engine.ReportPacks

/-! The envelope slot and the Polars slot between envelopes. -/

namespace Stillflow.Engine

open Stillflow.Core Stillflow.Plan Lib Lib.Fallible Lib.Mask Lib.Visits List
open VerificationMemory

variable {env : VerificationEnv} {run : VerificationRun} {envelope : BatchEnvelope}
  {state : Routing}

/-- A slot that holds nothing. -/
def VerificationMemory.Empties (memory : VerificationMemory) (slot : Slot) : Prop :=
  memory.bytes slot = 0 ∧ memory.live slot = false

/-- Nothing of an envelope is left, and the live counter counts the slots still held. -/
structure VerificationMemory.Released (memory : VerificationMemory) : Prop where
  envelope : memory.Empties .envelope
  polars : memory.Empties .polars
  live : memory.livePayloads = (Slot.all.filter memory.live).length

theorem VerificationMemory.drop_empties (memory : VerificationMemory) (slot : Slot) :
    (memory.drop slot).Empties slot := by
  unfold drop release
  cases hlive : memory.live slot with
  | true => simp [Empties]
  | false => simp [Empties, hlive]

theorem VerificationMemory.drop_other (memory : VerificationMemory) {slot other : Slot}
    (h : other ≠ slot) : (memory.drop slot).bytes other = memory.bytes other ∧
      (memory.drop slot).live other = memory.live other := by
  unfold drop release
  split_ifs <;> simp [Function.update_of_ne h]

theorem VerificationMemory.live_of_hold {law : MemoryLaw} {memory memory' : VerificationMemory}
    {slot : Slot} {incoming : Nat} (h : memory.hold law slot incoming = .ok memory') :
    memory'.live slot = true ∧ ∀ other, other ≠ slot →
      memory'.bytes other = memory.bytes other ∧ memory'.live other = memory.live other := by
  obtain ⟨_, -, h⟩ := of_bind h
  obtain ⟨_, -, h⟩ := of_bind h
  obtain ⟨_, -, h⟩ := of_bind h
  cases h
  refine ⟨by simp, fun other hother => ?_⟩
  simp [Function.update_of_ne hother]

/-- The slots of the envelope are as before, and the memory stays within its law. -/
structure Beside (law : MemoryLaw) (before after : VerificationRun) : Prop where
  within : before.memory.WithinLaw law → after.memory.WithinLaw law
  slots : ∀ slot, ¬slot.IsRetained → after.memory.bytes slot = before.memory.bytes slot ∧
    after.memory.live slot = before.memory.live slot

theorem Routes.beside {before after : VerificationRun} (h : Routes env before after) :
    Beside env.law before after := by
  induction h with
  | edit hmemory hpacks => exact ⟨fun hw => by rwa [hmemory], fun slot _ => by simp [hmemory]⟩
  | hold hslot h =>
    obtain ⟨memory, hmemory, rfl⟩ := hold_eq_ok h
    refine ⟨fun hw => (withinLaw_of_hold hw hmemory).1, fun slot hother => ?_⟩
    exact (live_of_hold hmemory).2 slot fun heq => hother (heq ▸ hslot)
  | @release run slot hslot bytes =>
    refine ⟨fun hw => withinLaw_release hw _ _, fun other hother => ?_⟩
    have hne : other ≠ slot := fun heq => hother (heq ▸ hslot)
    simp only [VerificationRun.release, VerificationMemory.release]
    split_ifs <;> simp [Function.update_of_ne hne]
  | emit hpack h =>
    rw [emit_eq_ok h]
    exact ⟨id, fun _ _ => ⟨rfl, rfl⟩⟩
  | trans _ _ ihab ihbc =>
    refine ⟨fun hw => ihbc.within (ihab.within hw), fun slot hslot => ?_⟩
    obtain ⟨hbytes, hlive⟩ := ihab.slots slot hslot
    obtain ⟨hbytes', hlive'⟩ := ihbc.slots slot hslot
    exact ⟨hbytes'.trans hbytes, hlive'.trans hlive⟩

/-- The keys of the rows of a window at a Deduplicate rule. -/
def Window.dedupKeys (window : Window) (nodeId : Uuid) (ruleOrdinal : Nat) (keyIds : List ColumnId)
    (keyTypes : List LogicalType) : Except EngineError (List DedupKey) := do
  let columns ← keyColumns window keyIds
  window.frame.rows.mapM (DedupRule.key ⟨nodeId, ruleOrdinal, columns, keyTypes, 0⟩)

/-- The key at a position is that of an earlier row: in the index, or before it in the window. -/
def repeatsKey (index : DedupIndex) (keys : List DedupKey) (i : Nat) : Bool :=
  (keys[i]?).any fun key => (index.lookup key).isSome || (keys.take i).contains key

/-- The visited step ends the row at a position of its window: the row fails a filter or an Error
Validate, or repeats a key. -/
def Visit.endsAt (v : Visit) (env : VerificationEnv) (i : Nat) (row : Row) : Bool :=
  match v.step with
  | .filter predicate | .filterRows predicate =>
    rowOutcome env v.state.window.schema predicate row != some true
  | .validate _ _ predicate severity _ =>
    decide (severity = .error) && rowOutcome env v.state.window.schema predicate row != some true
  | .deduplicate nodeId ruleOrdinal keyIds keyTypes =>
    match v.state.window.dedupKeys nodeId ruleOrdinal keyIds keyTypes with
    | .error _ => false
    | .ok keys => repeatsKey v.state.run.index keys i
  | .project _ | .transformRules _ => false

/-- The visit ends the row with this ordinal. -/
def Visit.Ends (v : Visit) (env : VerificationEnv) (ordinal : Nat) : Prop :=
  ∃ i < v.state.window.frame.height, (v.state.window.sidecar[i]?).map (·.2) = some ordinal ∧
    (v.state.window.frame.rows[i]?).any (v.endsAt env i) = true

instance (v : Visit) (env : VerificationEnv) (ordinal : Nat) : Decidable (v.Ends env ordinal) :=
  inferInstanceAs (Decidable (∃ i < v.state.window.frame.height, _ ∧ _))

/-- The rows of its window that the visited step passes on. -/
def Visit.passed (v : Visit) (env : VerificationEnv) : List Bool :=
  v.state.window.frame.rows.mapIdx fun i row => !v.endsAt env i row

theorem Visit.passed_eq_map (v : Visit) (f : Row → Bool)
    (h : ∀ i row, v.endsAt env i row = !f row) : v.passed env = v.state.window.frame.rows.map f := by
  apply ext_getElem?
  intro i
  simp [passed, h]

/-- An Error Validate passes on the rows for which its predicate is true. A predicate without a
column reference has one outcome for all rows. -/
theorem runStep_validate_window {origin : Origin} {state' : Routing} {nodeId : Uuid}
    {ruleOrdinal : Nat} {predicate : Expr} {severity : ValidationSeverity} {message : String}
    (ha : state.window.Aligned)
    (h : runStep env origin state (.validate nodeId ruleOrdinal predicate severity message) =
      .ok state') :
    CompactsTo (state.window.frame.rows.map fun row => !(decide (severity = .error) &&
      rowOutcome env state.window.schema predicate row != some true)) state.window state'.window := by
  obtain ⟨outcomes, houtcomes, h⟩ := of_bind h
  obtain ⟨slot, -, h⟩ := of_bind h
  obtain ⟨result, hresult, h⟩ := of_bind h
  obtain ⟨-, hcounts⟩ := validateRows_ledger hresult
  have ha' : ({ state.window with findingsPerRow := result.2 } : Window).Aligned :=
    ⟨ha.sidecar, hcounts.trans ha.counts⟩
  obtain ⟨hfree, hcolumns⟩ := evaluatePredicate_eq_ok (checked_eq_ok houtcomes)
  suffices hwindow : CompactsTo _ { state.window with findingsPerRow := result.2 } state'.window from
    ⟨hwindow.rows, hwindow.sidecar, hwindow.counts⟩
  by_cases hcase : columnFree predicate
  · obtain ⟨outcome, rfl, houtcome⟩ := hfree hcase
    simp only [houtcome, map_const']
    cases hdead : decide (severity = .error) && outcome != some true with
    | false =>
      simp only [deadOutcomes, map_cons, map_nil, hdead] at h
      cases h
      exact .refl ha' (by simp) (by simp [Frame.height])
    | true =>
      simp only [deadOutcomes, map_cons, map_nil, hdead] at h
      obtain ⟨run, -, h⟩ := of_bind h
      obtain ⟨window, hwindow, h⟩ := of_bind h
      cases h
      exact compactAlive_single hwindow
  · have hlength : (deadOutcomes severity outcomes).length = state.window.frame.height := by
      simp [deadOutcomes, hcolumns hcase, Frame.height]
    have hwindow := endRows_window h ha' hlength
    simpa [deadOutcomes, hcolumns hcase, Function.comp_def] using hwindow

/-- Of keys looked up in order, those of earlier ones are found. -/
theorem dedupKeys_eq_mapIdx (rule : DedupRule) (arrivals : List (DedupKey × Nat))
    (ledger : Ledger) : (ledger.dedupKeys rule arrivals).2 =
      arrivals.mapIdx fun i _ => repeatsKey ledger.index (arrivals.map Prod.fst) i := by
  induction arrivals generalizing ledger with
  | nil => rfl
  | cons arrival rest ih =>
    rw [Ledger.dedupKeys, ih, mapIdx_cons]
    have hrest : ∀ key : DedupKey, ((ledger.dedupKey rule arrival).1.index.lookup key).isSome =
        ((ledger.index.lookup key).isSome || decide (key = arrival.1)) := by
      intro key
      have hsingle : ([arrival].lookup key).isSome = decide (key = arrival.1) := by
        rw [lookup_cons]
        by_cases hkey : key = arrival.1
        · simp [hkey]
        · simp [beq_eq_false_iff_ne.mpr hkey, hkey]
      unfold Ledger.dedupKey
      cases hfound : ledger.index.lookup arrival.1 with
      | none =>
        change ((ledger.index ++ [arrival]).lookup key).isSome = _
        rw [lookup_append, Option.isSome_or, hsingle]
      | some first =>
        change (ledger.index.lookup key).isSome = _
        by_cases hkey : key = arrival.1
        · rw [hkey, hfound]
          rfl
        · rw [decide_eq_false hkey, Bool.or_false]
    have hfirst : (ledger.dedupKey rule arrival).2 = (ledger.index.lookup arrival.1).isSome := by
      unfold Ledger.dedupKey
      cases ledger.index.lookup arrival.1 <;> rfl
    rw [hfirst]
    simp [repeatsKey, hrest, Bool.or_assoc]

/-- A step passes on exactly the rows it does not end. -/
theorem runStep_passed {origin : Origin} {state' : Routing} {step : VStep}
    (hproduct : step.IsProduct) (ha : state.window.Aligned)
    (h : runStep env origin state step = .ok state') :
    state'.window.Aligned ∧ state'.window.sidecar =
      keep (Visit.passed ⟨origin, state, step⟩ env) state.window.sidecar := by
  cases step with
  | project _ | transformRules _ =>
    have heffect := StepEffect.of_transform hproduct ha (by simp) h
    rw [Visit.passed_eq_map _ (fun _ => true) fun _ _ => rfl, map_const']
    exact ⟨heffect.aligned ha, heffect.sidecar⟩
  | filter predicate | filterRows predicate =>
    obtain ⟨-, hwindow⟩ := filterStep_eq_ok ha h
    refine ⟨hwindow.aligned ha, hwindow.sidecar.trans (congrArg (keep · _) ?_)⟩
    exact Eq.symm (Visit.passed_eq_map _ _ fun _ _ => rfl)
  | validate nodeId ruleOrdinal predicate severity message =>
    have hwindow := runStep_validate_window ha h
    refine ⟨hwindow.aligned ha, hwindow.sidecar.trans (congrArg (keep · _) ?_)⟩
    exact Eq.symm (Visit.passed_eq_map _ _ fun _ _ => (Bool.not_not _).symm)
  | deduplicate nodeId ruleOrdinal keyIds keyTypes =>
    obtain ⟨slot, columns, keys, -, hcolumns, heffect⟩ := runStep_deduplicate ha h
    refine ⟨heffect.window.aligned ha, ?_⟩
    have hkeys : state.window.dedupKeys nodeId ruleOrdinal keyIds keyTypes = .ok keys := by
      rw [Window.dedupKeys, hcolumns]
      exact heffect.encoded
    have hlength : (state.window.arrivals keys).length = state.window.frame.rows.length :=
      heffect.arrivals_length ha
    have hfst : (state.window.arrivals keys).map Prod.fst = keys := by
      rw [Window.arrivals, map_fst_zip]
      rw [length_map, ha.sidecar, Frame.height, length_of_mapM_ok heffect.encoded]
    rw [heffect.window.sidecar, dedupKeys_eq_mapIdx, hfst]
    congr 1
    refine ext_getElem (by simpa [Visit.passed] using hlength) fun i _ _ => ?_
    simp only [Visit.passed, Visit.endsAt, hkeys, getElem_map, getElem_mapIdx]
    rfl

theorem Visit.ends_iff {v : Visit} (ha : v.state.window.Aligned) {i ordinal : Nat}
    (hnodup : (v.state.window.sidecar.map (·.2)).Nodup)
    (hi : (v.state.window.sidecar.map (·.2))[i]? = some ordinal) :
    (v.passed env)[i]? = some true ↔ ¬ v.Ends env ordinal := by
  have hheight : i < v.state.window.frame.height := by
    rw [← ha.sidecar, ← List.length_map (·.2)]
    exact (List.getElem?_eq_some_iff.mp hi).1
  have hrow : v.state.window.frame.rows[i]? = some v.state.window.frame.rows[i] :=
    getElem?_eq_getElem hheight
  have honly : v.Ends env ordinal ↔
      (v.state.window.frame.rows[i]?).any (v.endsAt env i) = true := by
    refine ⟨?_, fun hends => ⟨i, hheight, by simpa using hi, hends⟩⟩
    rintro ⟨j, hj, hordinal, hends⟩
    have hsame : j = i := by
      rw [← getElem?_map] at hordinal
      have hlength : j < (v.state.window.sidecar.map (·.2)).length := by simpa [ha.sidecar] using hj
      exact (getElem?_inj hlength hnodup).mp (hordinal.trans hi.symm)
    exact hsame ▸ hends
  rw [honly, Visit.passed, getElem?_mapIdx, hrow]
  simp

/-- The rows that leave the steps of a window are those that no visit ends. -/
theorem mem_steps_iff {origin : Origin} {state' : Routing}
    (hproduct : ∀ step ∈ env.routingSteps, step.IsProduct) (ha : state.window.Aligned)
    (hnodup : (state.window.sidecar.map (·.2)).Nodup)
    (h : env.routingSteps.foldlM (runStep env origin) state = .ok state') :
    state'.window.Aligned ∧ ∀ ordinal, ordinal ∈ state'.window.sidecar.map (·.2) ↔
      ordinal ∈ state.window.sidecar.map (·.2) ∧
        ∀ v ∈ windowVisits env origin state, ¬ v.Ends env ordinal := by
  have hrun := foldlM_history
    (fun (past : List (Routing × VStep)) (current : Routing) => current.window.Aligned ∧
      (current.window.sidecar.map (·.2)).Nodup ∧
      ∀ ordinal, ordinal ∈ current.window.sidecar.map (·.2) ↔
        ordinal ∈ state.window.sidecar.map (·.2) ∧
          ∀ v ∈ past.map fun v => (⟨origin, v.1, v.2⟩ : Visit), ¬ v.Ends env ordinal)
    (fun v => v.2.IsProduct) ⟨ha, hnodup, by simp⟩ ?_
    (fun v hv => hproduct _ (mem_of_visits hv)) h
  · exact ⟨hrun.1, hrun.2.2⟩
  · intro past current step next hcurrent hstep hnext
    obtain ⟨haligned, hdistinct, hmem⟩ := hcurrent
    obtain ⟨hnextAligned, hsidecar⟩ := runStep_passed hstep haligned hnext
    have hkept : next.window.sidecar.map (·.2) =
        keep (Visit.passed ⟨origin, current, step⟩ env) (current.window.sidecar.map (·.2)) := by
      rw [hsidecar, keep_map]
    refine ⟨hnextAligned, hkept ▸ hdistinct.sublist (keep_sublist _ _), fun ordinal => ?_⟩
    have hhere : ordinal ∈ next.window.sidecar.map (·.2) ↔
        ordinal ∈ current.window.sidecar.map (·.2) ∧
          ¬ Visit.Ends ⟨origin, current, step⟩ env ordinal := by
      rw [hkept, mem_keep, mem_iff_getElem?]
      constructor
      · rintro ⟨i, hpassed, hi⟩
        exact ⟨⟨i, hi⟩, (Visit.ends_iff haligned hdistinct hi).mp hpassed⟩
      · rintro ⟨⟨i, hi⟩, hends⟩
        exact ⟨i, (Visit.ends_iff haligned hdistinct hi).mpr hends, hi⟩
    rw [hhere, hmem, and_assoc]
    simp [or_imp, forall_and]

/-- Every row of the envelope fails a filter or an Error Validate or repeats a key. -/
def AllEnded (env : VerificationEnv) (run : VerificationRun) (envelope : BatchEnvelope) : Prop :=
  ∀ i < (envelopeScan env run envelope).length,
    ∃ v ∈ envelopeVisits env run envelope, v.Ends env (run.nextOrdinal + i)

instance (env : VerificationEnv) (run : VerificationRun) (envelope : BatchEnvelope) :
    Decidable (AllEnded env run envelope) :=
  inferInstanceAs (Decidable (∀ i < (envelopeScan env run envelope).length,
    ∃ v ∈ envelopeVisits env run envelope, v.Ends env (run.nextOrdinal + i)))

theorem allEnded_iff {opened : OpenedEnvelope} {held : VerificationRun}
     (hproduct : ∀ step ∈ env.routingSteps, step.IsProduct)
    (hopened : openEnvelope env run envelope = .ok opened) (hheight : 0 < opened.batch.height)
    (hheld : opened.run.hold env.law .polars
      (env.polars.estimatedSize (onlyWindow env opened).frame) = .ok held)
    (hstate : env.routingSteps.foldlM (runStep env ⟨opened.batch, 0⟩)
      ⟨held, onlyWindow env opened⟩ = .ok state) :
    AllEnded env run envelope ↔ state.window.frame.rows = [] := by
  have ho := openEnvelope_eq_ok hopened
  have hordinals : (onlyWindow env opened).sidecar.map (·.2) =
      range' run.nextOrdinal opened.batch.height := by
    rw [onlyWindow_eq ho, ho.sidecar, map_map]
    exact (range'_eq_map_range ..).symm
  obtain ⟨haligned, hmem⟩ := mem_steps_iff hproduct (onlyWindow_aligned ho)
    (hordinals ▸ nodup_range') hstate
  have hscan : (envelopeScan env run envelope).length = opened.batch.height := by
    rw [envelopeScan, hopened]
    rfl
  have hempty : state.window.frame.rows = [] ↔ state.window.sidecar.map (·.2) = [] := by
    rw [← length_eq_zero_iff, ← length_eq_zero_iff, length_map, haligned.sidecar]
    rfl
  rw [hempty, eq_nil_iff_forall_not_mem, AllEnded, hscan,
    mem_envelopeVisits hopened hheight hheld]
  simp only [hmem, hordinals, mem_range'_1]
  constructor
  · intro hended ordinal hin
    obtain ⟨v, hv, hends⟩ := hended (ordinal - run.nextOrdinal) (by omega)
    exact hin.2 v hv (by rwa [Nat.add_sub_cancel' hin.1.1] at hends)
  · intro hnone i hi
    by_contra hno
    push Not at hno
    exact hnone (run.nextOrdinal + i) ⟨by omega, hno⟩

theorem openEnvelope_memory {opened : OpenedEnvelope}
    (hw : run.memory.WithinLaw env.law) (h : openEnvelope env run envelope = .ok opened) :
    opened.run.memory.WithinLaw env.law ∧ opened.run.memory.Empties .polars := by
  obtain ⟨_, -, h⟩ := of_bind h
  obtain ⟨held, hheld, h⟩ := of_bind h
  obtain ⟨framed, hframed, h⟩ := of_bind h
  obtain ⟨working, -, h⟩ := of_bind h
  obtain ⟨⟨ordinals, counted⟩, hassigned, h⟩ := of_bind h
  obtain ⟨batch, -, h⟩ := of_bind h
  obtain ⟨memory, hmemory, h⟩ := of_bind h
  cases h
  obtain ⟨first, hfirst, rfl⟩ := hold_eq_ok hheld
  obtain ⟨second, hsecond, rfl⟩ := hold_eq_ok hframed
  rw [(assignOrdinals_eq_ok hassigned).2] at hmemory
  have hfirst := (withinLaw_of_hold hw hfirst).1
  have hsecond := (withinLaw_of_hold hfirst hsecond).1
  have hdropped := withinLaw_release hsecond .polars (second.bytes .polars)
  have hswapped := withinLaw_release hdropped .envelope
    ((second.drop .polars).bytes .envelope)
  refine ⟨(withinLaw_of_hold hswapped hmemory).1, ?_⟩
  obtain ⟨hbytes, hlive⟩ := (live_of_hold hmemory).2 .polars (by decide)
  obtain ⟨hbytes', hlive'⟩ := (second.drop .polars).drop_other (by decide : Slot.polars ≠ .envelope)
  have hempty := second.drop_empties .polars
  exact ⟨hbytes.trans (hbytes'.trans hempty.1), hlive.trans (hlive'.trans hempty.2)⟩

/-- After an envelope, its slot is empty; the Polars slot is exactly when no row survived. -/
theorem processEnvelope_memory {run run' : VerificationRun}
    (hproduct : ∀ step ∈ env.routingSteps, step.IsProduct)
    (hw : run.memory.WithinLaw env.law) (h : processEnvelope env run envelope = .ok run') :
    run'.memory.WithinLaw env.law ∧ run'.memory.Empties .envelope ∧
      (run'.memory.Empties .polars ↔ AllEnded env run envelope) := by
  obtain ⟨opened, hopened, hcase⟩ := processEnvelope_eq_ok h
  obtain ⟨hwithin, hempty⟩ := openEnvelope_memory hw hopened
  have hdrop : ∀ memory : VerificationMemory,
      (memory.drop .envelope).Empties .polars ↔ memory.Empties .polars := by
    intro memory
    obtain ⟨hbytes, hlive⟩ := memory.drop_other (by decide : Slot.polars ≠ .envelope)
    unfold Empties
    rw [hbytes, hlive]
  rcases hcase with ⟨hheight, rfl⟩ | ⟨hheight, held, state, last, hheld, hstate, haccepted, rfl⟩
  · have hnone : AllEnded env run envelope := by
      have hscan : (envelopeScan env run envelope).length = 0 := by
        rw [envelopeScan, hopened]
        exact hheight
      intro i hi
      omega
    refine ⟨withinLaw_release hwithin _ _,
      opened.run.memory.drop_empties .envelope, ?_⟩
    change (opened.run.memory.drop .envelope).Empties .polars ↔ _
    rw [hdrop]
    exact ⟨fun _ => hnone, fun _ => hempty⟩
  · rw [allEnded_iff hproduct hopened hheight hheld hstate]
    obtain ⟨memory, hmemory, rfl⟩ := hold_eq_ok hheld
    have hsteps := (routes_steps hstate).beside
    have hstateWithin := hsteps.within (withinLaw_of_hold hwithin hmemory).1
    have hlive : state.run.memory.live .polars = true :=
      (hsteps.slots .polars (by decide)).2.trans (live_of_hold hmemory).1
    by_cases hrows : 0 < state.window.frame.height
    · have haccept := (routes_acceptSurvivors hrows haccepted).beside
      have hkept : last.memory.live .polars = true :=
        (haccept.slots .polars (by decide)).2.trans hlive
      refine ⟨withinLaw_release (haccept.within hstateWithin) _ _,
        last.memory.drop_empties .envelope, ?_⟩
      change (last.memory.drop .envelope).Empties .polars ↔ _
      rw [hdrop]
      constructor
      · intro hnone
        rw [hnone.2] at hkept
        cases hkept
      · intro hnil
        rw [Frame.height, hnil] at hrows
        cases hrows
    · have hnil : state.window.frame.rows = [] := by
        rw [← length_eq_zero_iff]
        exact Nat.eq_zero_of_not_pos hrows
      unfold acceptSurvivors at haccepted
      rw [if_neg hrows] at haccepted
      cases haccepted
      have hdropped := withinLaw_release hstateWithin .polars
        (state.run.memory.bytes .polars)
      refine ⟨withinLaw_release hdropped _ _,
        drop_empties _ .envelope, ?_⟩
      change ((state.run.memory.drop .polars).drop .envelope).Empties .polars ↔ _
      rw [hdrop]
      exact ⟨fun _ => hnil, fun _ => state.run.memory.drop_empties .polars⟩

theorem streamVerification_withinLaw {envelopes : List BatchEnvelope}
    (hproduct : ∀ step ∈ env.routingSteps, step.IsProduct)
    (h : streamVerification env envelopes env.start = .ok run) : run.memory.WithinLaw env.law :=
  foldlM_invariant (fun current : VerificationRun => current.memory.WithinLaw env.law)
    (fun _ hcurrent hnext => (processEnvelope_memory hproduct hcurrent hnext).1)
    (withinLaw_default env.law) h

/-- The two charges an envelope starts with: its bytes and its frame. -/
def admitEnvelope (env : VerificationEnv) (run : VerificationRun) (envelope : BatchEnvelope) :
    Except EngineError VerificationRun := do
  let run ← run.hold env.law .envelope envelope.byteCount
  run.hold env.law .polars (env.polars.estimatedSize (recordBatchToDataframe envelope.payload))

def FitsSlots (env : VerificationEnv) (envelope : BatchEnvelope) : Prop :=
  envelope.byteCount ≤ env.law.cap .envelope ∧
    env.polars.estimatedSize (recordBatchToDataframe envelope.payload) ≤ env.law.cap .polars

theorem admitEnvelope_iff (hw : run.memory.WithinLaw env.law) (hr : run.memory.Released)
    (envelope : BatchEnvelope) :
    (∃ admitted, admitEnvelope env run envelope = .ok admitted) ↔ FitsSlots env envelope := by
  have hheld : run.hold env.law .envelope envelope.byteCount =
      if envelope.byteCount ≤ env.law.cap .envelope then
        .ok { run with memory := run.memory.held .envelope envelope.byteCount }
      else .error slotExceeded := by
    unfold VerificationRun.hold
    rw [hold_eq hw, hr.envelope.1, Nat.zero_add]
    split_ifs <;> rfl
  unfold admitEnvelope FitsSlots
  rw [hheld]
  by_cases hbytes : envelope.byteCount ≤ env.law.cap .envelope
  · have hwithin : (run.memory.held .envelope envelope.byteCount).WithinLaw env.law :=
      withinLaw_held hw (by rw [hr.envelope.1]; omega)
    have hpolars : (run.memory.held .envelope envelope.byteCount).bytes .polars = 0 := by
      rw [bytes_held, if_neg (by decide), hr.polars.1]
    rw [if_pos hbytes, ok_bind, VerificationRun.hold, hold_eq hwithin, hpolars,
      Nat.zero_add]
    split_ifs with hsize
    · exact ⟨fun _ => ⟨hbytes, hsize⟩, fun _ => ⟨_, rfl⟩⟩
    · refine ⟨?_, fun h => absurd h.2 hsize⟩
      rintro ⟨_, ⟨⟩⟩
  · rw [if_neg hbytes, error_bind]
    refine ⟨?_, fun h => absurd h.1 hbytes⟩
    rintro ⟨_, ⟨⟩⟩

/-- After any sequence of envelopes, an envelope leaves both slots empty, so that the admission of
the next one depends on that one alone, exactly when each of its rows fails a filter or an Error
Validate or repeats a key. The live counter is exact in any case. -/
theorem slots_released_iff {plan : LogicalPlan} {env : VerificationEnv}
    (hplan : buildVerificationPlan plan env.prepared = .ok env.vplan)
    {envelopes : List BatchEnvelope} {run run' : VerificationRun} {envelope : BatchEnvelope}
    (hrun : streamVerification env envelopes env.start = .ok run)
    (h : processEnvelope env run envelope = .ok run') :
    ((run'.memory.Released ∧ ∀ next, (∃ admitted, admitEnvelope env run' next = .ok admitted) ↔
        FitsSlots env next) ↔ AllEnded env run envelope) ∧
      run'.memory.Empties .envelope ∧
      run'.memory.livePayloads = (Slot.all.filter run'.memory.live).length := by
  have hproduct := routingSteps_isProduct hplan
  obtain ⟨hwithin, henvelope, hpolars⟩ :=
    processEnvelope_memory hproduct (streamVerification_withinLaw hproduct hrun) h
  refine ⟨⟨fun hreleased => hpolars.mp hreleased.1.polars, fun hended => ?_⟩, henvelope,
    hwithin.live_eq⟩
  have hreleased : run'.memory.Released := ⟨henvelope, hpolars.mpr hended, hwithin.live_eq⟩
  exact ⟨hreleased, admitEnvelope_iff hwithin hreleased⟩

def heavyEnv : VerificationEnv :=
  { notNullEnv with polars := { samplePolars with estimatedSize := fun _ => 40 * 1024 * 1024 } }

def oneRow : BatchEnvelope := idEnvelope [.int64 10] (by decide)

/-- Of two envelopes that fit the slots, the second is refused: the frame of the first is still
charged, because a row of it survived. -/
theorem survivor_blocks_next :
    FitsSlots heavyEnv oneRow ∧
    (∃ run, streamVerification heavyEnv [] heavyEnv.start = .ok heavyEnv.start ∧
      processEnvelope heavyEnv heavyEnv.start oneRow = .ok run ∧
      run.memory.bytes .polars = 40 * 1024 * 1024 ∧ ¬ run.memory.Released) ∧
    streamVerification heavyEnv [oneRow, oneRow] heavyEnv.start =
      .error (.error VerificationMemory.slotExceeded) := by
  refine ⟨by unfold FitsSlots; decide +kernel, ?_, by rfl⟩
  have hrun : (processEnvelope heavyEnv heavyEnv.start oneRow).toOption.map
      (fun run => run.memory.bytes .polars) = some (40 * 1024 * 1024) := by
    decide +kernel
  obtain ⟨run, h, hbytes⟩ := exists_of_map_toOption hrun
  refine ⟨run, rfl, h, hbytes, fun hreleased => ?_⟩
  have hzero := hreleased.polars.1
  omega

/-- Required and unique ids. -/
def requiredIdEnv : VerificationEnv :=
  sampleEnv [.validate 2 0 notNull .error "id is required", .deduplicate 2 1 [1] [.int64]]

def nullAndRepeat : BatchEnvelope := idEnvelope [.null, .int64 10] (by decide)

/-- Of the two rows of the second envelope, one is NULL and one has the id of the first envelope. -/
theorem rejected_rows_release :
    ∃ run run', streamVerification requiredIdEnv [oneRow] requiredIdEnv.start = .ok run ∧
      processEnvelope requiredIdEnv run nullAndRepeat = .ok run' ∧
      AllEnded requiredIdEnv run nullAndRepeat ∧ run'.memory.Released := by
  have hplan : buildVerificationPlan (rulesPlan [.validate notNull .error "id is required",
      .deduplicate [1]]) requiredIdEnv.prepared = .ok requiredIdEnv.vplan := rfl
  have hfirst : (streamVerification requiredIdEnv [oneRow] requiredIdEnv.start).toOption.map
      (fun run => (decide (AllEnded requiredIdEnv run nullAndRepeat),
        (processEnvelope requiredIdEnv run nullAndRepeat).isOk)) = some (true, true) := by
    decide +kernel
  obtain ⟨run, hrun, hresult⟩ := exists_of_map_toOption hfirst
  simp only [Prod.mk.injEq, decide_eq_true_eq] at hresult
  obtain ⟨run', h⟩ := exists_of_isOk hresult.2
  have hreleased := (slots_released_iff hplan hrun h).1.mpr hresult.1
  exact ⟨run, run', hrun, h, hresult.1, hreleased.1⟩

end Stillflow.Engine
