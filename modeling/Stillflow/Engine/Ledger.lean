import Stillflow.Engine.RowImage

/-!
The ledger of a verification run: what its state says about rows, whatever is still buffered and
whatever the storage writer already has.
-/

namespace Stillflow.Engine

open Stillflow.Core Stillflow.Plan Lib.Fallible Lib.Mask List VerificationRun

variable {env : VerificationEnv} {run run' : VerificationRun} {sidecar : List (Nat × Nat)}
  {rule : ValidateRule}

structure Ledger where
  nextOrdinal : Nat
  valSummaries : List ValSummaryRow
  dedupSummaries : List DedupSummaryRow
  valFindings : List ValFindingRow
  dupFindings : List DupFindingRow
  rejected : List RejectedEntry
  accepted : List Row
  index : DedupIndex

def Pack.rejectedEntries : Pack → List RejectedEntry
  | .rejectedRows _ _ rows => rows
  | _ => []

def Pack.acceptedRows : Pack → List Row
  | .accepted _ payload => payload.rows
  | _ => []

def VerificationRun.ledger (run : VerificationRun) : Ledger where
  nextOrdinal := run.nextOrdinal
  valSummaries := run.valSummaries
  dedupSummaries := run.dedupSummaries
  valFindings := run.valFindings
  dupFindings := run.dupFindings
  rejected := run.packs.flatMap Pack.rejectedEntries ++ run.rejected
  accepted := run.packs.flatMap Pack.acceptedRows ++ run.acceptedBatches.flatMap (·.rows)
  index := run.index

theorem checked_eq_ok {α : Type} {x : Except EngineError α} {a : α} (h : checked x = .ok a) :
    x = .ok a :=
  mapError_eq_ok.mp h

theorem hold_eq_ok {law : MemoryLaw} {slot : Slot} {bytes : Nat}
    (h : run.hold law slot bytes = .ok run') :
    ∃ memory, run.memory.hold law slot bytes = .ok memory ∧ run' = { run with memory := memory } := by
  obtain ⟨memory, hmemory, h⟩ := of_bind h
  cases h
  exact ⟨memory, hmemory, rfl⟩

theorem hold_ledger {law : MemoryLaw} {slot : Slot} {bytes : Nat}
    (h : run.hold law slot bytes = .ok run') : run'.ledger = run.ledger := by
  obtain ⟨memory, -, rfl⟩ := hold_eq_ok h
  rfl

theorem emit_eq_ok {pack : Pack} {message : String} (h : run.emit env pack message = .ok run') :
    run' = { run with packs := run.packs ++ [pack] } := by
  obtain ⟨_, -, h⟩ := of_bind h
  cases hfault : env.writerFault run.packs pack with
  | some error => rw [hfault] at h; cases h
  | none =>
    rw [hfault] at h
    cases h
    rfl

theorem flushRejectedPack_ledger (h : flushRejectedPack env run = .ok run') :
    run'.ledger = run.ledger := by
  obtain ⟨emitted, hemit, h⟩ := of_bind h
  cases h
  rw [emit_eq_ok hemit]
  simp [ledger, release, Pack.rejectedEntries, Pack.acceptedRows]

theorem flushRejectedLoop_ledger {fuel : Nat} (h : flushRejectedLoop env fuel run = .ok run') :
    run'.ledger = run.ledger := by
  induction fuel generalizing run with
  | zero =>
    cases h
    rfl
  | succ fuel ih =>
    unfold flushRejectedLoop at h
    split_ifs at h with hempty
    · cases h
      rfl
    · obtain ⟨mid, hmid, h⟩ := of_bind h
      rw [ih h, flushRejectedPack_ledger hmid]

theorem flushRejectedRows_ledger (h : flushRejectedRows env run = .ok run') :
    run'.ledger = run.ledger :=
  flushRejectedLoop_ledger h

/-- The entry of the row a sidecar entry points to: the scan output row at its position, its own
ordinal and the rule that ended it. -/
def rejectionEntry (env : VerificationEnv) (origin : Origin) (cause : Rejection)
    (entry : Nat × Nat) : RejectedEntry :=
  rejectedEntry env origin cause entry.2 (origin.batch.rows[origin.offset + entry.1]?).toList

def Ledger.reject (ledger : Ledger) (entries : List RejectedEntry) : Ledger :=
  { ledger with rejected := ledger.rejected ++ entries }

@[simp] theorem Ledger.reject_nil (ledger : Ledger) : ledger.reject [] = ledger := by
  simp [Ledger.reject]

theorem Ledger.reject_append (ledger : Ledger) (xs ys : List RejectedEntry) :
    (ledger.reject xs).reject ys = ledger.reject (xs ++ ys) := by
  simp [Ledger.reject]

theorem addRejected_ledger {entry : RejectedEntry} (h : addRejected env run entry = .ok run') :
    run'.ledger = run.ledger.reject [entry] := by
  unfold addRejected at h
  split_ifs at h
  · rw [flushRejectedRows_ledger h]
    simp [ledger, Ledger.reject]
  · cases h
    simp [ledger, Ledger.reject]

theorem rejectRow_ledger {origin : Origin} {cause : Rejection} {entry : Nat × Nat}
    (h : rejectRow env origin cause entry run = .ok run') :
    run'.ledger = run.ledger.reject [rejectionEntry env origin cause entry] := by
  obtain ⟨_, -, h⟩ := of_bind h
  unfold rejectionEntry
  cases hrow : origin.batch.rows[origin.offset + entry.1]? with
  | none => rw [hrow] at h; cases h
  | some row =>
    rw [hrow] at h
    obtain ⟨held, hheld, h⟩ := of_bind (checked_eq_ok h)
    rw [addRejected_ledger h, hold_ledger hheld]
    rfl

theorem rejectDead_ledger {origin : Origin} {cause : Rejection} {dead : List Bool}
    (h : rejectDead env origin cause dead sidecar run = .ok run') :
    run'.ledger =
      run.ledger.reject ((keep dead sidecar).map (rejectionEntry env origin cause)) := by
  induction dead generalizing sidecar run with
  | nil =>
    cases h
    simp
  | cons flag dead ih =>
    cases flag with
    | false =>
      cases sidecar with
      | nil =>
        have hrest : rejectDead env origin cause dead [] run = .ok run' := h
        simpa using ih hrest
      | cons entry sidecar =>
        have hrest : rejectDead env origin cause dead sidecar run = .ok run' := h
        simpa using ih hrest
    | true =>
      cases sidecar with
      | nil => cases h
      | cons entry sidecar =>
        obtain ⟨mid, hmid, h⟩ := of_bind h
        rw [ih h, rejectRow_ledger hmid, Ledger.reject_append, keep_true, map_cons,
          singleton_append]

/-- The counters of a slot after a list of outcomes. -/
def Ledger.tally (ledger : Ledger) (rule : ValidateRule) (outcomes : List (Option Bool)) : Ledger :=
  { ledger with valSummaries := ledger.valSummaries.modify rule.slot fun row =>
      { row with tally := outcomes.foldl (fun tally => tally.add rule.severity) row.tally } }

/-- The findings of a list of outcomes. -/
def findingsOf (rule : ValidateRule) (outcomes : List (Option Bool)) (sidecar : List (Nat × Nat)) :
    List ValFindingRow :=
  (outcomes.zip sidecar).filterMap fun pair =>
    if pair.1 = some true then none else some (rule.finding pair.2.2 pair.1)

def Ledger.find (ledger : Ledger) (findings : List ValFindingRow) : Ledger :=
  { ledger with valFindings := ledger.valFindings ++ findings }

theorem Ledger.tally_nil (ledger : Ledger) (rule : ValidateRule) :
    ledger.tally rule [] = ledger := by
  have hid : ledger.valSummaries.modify rule.slot (fun row => { row with tally := row.tally }) =
      ledger.valSummaries := modify_id _ _
  simp only [Ledger.tally, foldl_nil, hid]

theorem Ledger.tally_cons (ledger : Ledger) (rule : ValidateRule) (outcome : Option Bool)
    (outcomes : List (Option Bool)) :
    (ledger.tally rule [outcome]).tally rule outcomes = ledger.tally rule (outcome :: outcomes) := by
  simp [Ledger.tally, modify_modify_eq, Function.comp_def]

theorem Ledger.find_tally (ledger : Ledger) (rule : ValidateRule) (findings : List ValFindingRow)
    (outcomes : List (Option Bool)) :
    (ledger.find findings).tally rule outcomes = (ledger.tally rule outcomes).find findings := rfl

theorem Ledger.find_find (ledger : Ledger) (xs ys : List ValFindingRow) :
    (ledger.find xs).find ys = ledger.find (xs ++ ys) := by
  simp [Ledger.find]

theorem tally_ledger (run : VerificationRun) (rule : ValidateRule) (outcome : Option Bool) :
    (run.tally rule outcome).ledger = run.ledger.tally rule [outcome] := rfl

theorem addFinding_ledger (run : VerificationRun) (finding : ValFindingRow) :
    (run.addFinding finding).ledger = run.ledger.find [finding] := rfl

theorem validateRows_fail {outcome : Option Bool} (ho : outcome ≠ some true)
    (outcomes : List (Option Bool)) (entry : Nat × Nat) (sidecar : List (Nat × Nat)) (count : Nat)
    (counts : List Nat) (run : VerificationRun) :
    validateRows env rule (outcome :: outcomes) (entry :: sidecar) (count :: counts) run = (do
      checked (require (count + 1 ≤ maxValidationFindingsPerRow) (EngineError.boundExceeded
        "source row exceeded MAX_VALIDATION_FINDINGS_PER_ROW"))
      let held ← checked ((run.tally rule outcome).hold env.law .validation reportRowEstimateBytes)
      let result ← validateRows env rule outcomes sidecar counts
        (held.addFinding (rule.finding entry.2 outcome))
      return (result.1, (count + 1) :: result.2)) := by
  match outcome, ho with
  | none, _ => rfl
  | some false, _ => rfl

theorem validateRows_fail_eq_ok {outcome : Option Bool} (ho : outcome ≠ some true)
    {outcomes : List (Option Bool)} {counts : List Nat} {result : VerificationRun × List Nat}
    (h : validateRows env rule (outcome :: outcomes) sidecar counts run = .ok result) :
    ∃ entry rest count more held next, sidecar = entry :: rest ∧ counts = count :: more ∧
      (run.tally rule outcome).hold env.law .validation reportRowEstimateBytes = .ok held ∧
      validateRows env rule outcomes rest more (held.addFinding (rule.finding entry.2 outcome)) =
        .ok next ∧ result = (next.1, (count + 1) :: next.2) := by
  match sidecar, counts with
  | entry :: sidecar, count :: counts =>
    rw [validateRows_fail ho] at h
    obtain ⟨_, -, h⟩ := of_bind h
    obtain ⟨held, hheld, h⟩ := of_bind h
    obtain ⟨next, hnext, h⟩ := of_bind h
    cases h
    exact ⟨entry, sidecar, count, counts, held, next, rfl, rfl, checked_eq_ok hheld, hnext, rfl⟩
  | [], _ | _ :: _, [] =>
    match outcome, ho with
    | none, _ => cases h
    | some false, _ => cases h

theorem validateRows_ledger {outcomes : List (Option Bool)} {counts counts' : List Nat}
    (h : validateRows env rule outcomes sidecar counts run = .ok (run', counts')) :
    run'.ledger = (run.ledger.tally rule outcomes).find (findingsOf rule outcomes sidecar) ∧
      counts'.length = counts.length := by
  induction outcomes generalizing sidecar counts counts' run with
  | nil =>
    cases h
    refine ⟨?_, rfl⟩
    rw [Ledger.tally_nil]
    simp [Ledger.find, findingsOf]
  | cons outcome outcomes ih =>
    by_cases ho : outcome = some true
    · subst ho
      obtain ⟨result, hresult, h⟩ := of_bind h
      cases h
      obtain ⟨hledger, hlength⟩ := ih hresult
      refine ⟨?_, ?_⟩
      · rw [hledger, tally_ledger, Ledger.tally_cons]
        cases sidecar <;> simp [findingsOf]
      · rw [length_append, hlength, length_take, length_tail]
        omega
    · obtain ⟨entry, sidecar, count, counts, held, next, rfl, rfl, hheld, hnext, hresult⟩ :=
        validateRows_fail_eq_ok ho h
      cases hresult
      obtain ⟨hledger, hlength⟩ := ih hnext
      refine ⟨?_, by simp [hlength]⟩
      rw [hledger, addFinding_ledger, hold_ledger hheld, tally_ledger, Ledger.find_tally,
        Ledger.tally_cons, Ledger.find_find]
      simp [findingsOf, ho]

/-- A slot's counters after a number of new and of repeated keys. -/
def Ledger.countKeys (ledger : Ledger) (slot unique duplicates : Nat) : Ledger :=
  { ledger with dedupSummaries := ledger.dedupSummaries.modify slot fun row =>
      { row with unique := row.unique + unique, duplicates := row.duplicates + duplicates } }

/-- One key against the index: a new key is entered with its ordinal, a repeated one is found. -/
def Ledger.dedupKey (rule : DedupRule) (ledger : Ledger) (arrival : DedupKey × Nat) :
    Ledger × Bool :=
  match ledger.index.lookup arrival.1 with
  | none => ({ ledger.countKeys rule.slot 1 0 with index := ledger.index ++ [arrival] }, false)
  | some first => ({ ledger.countKeys rule.slot 0 1 with
      dupFindings := ledger.dupFindings ++ [rule.finding arrival.1 arrival.2 first] }, true)

/-- Keys in order; tells which of them are repeated. -/
def Ledger.dedupKeys (rule : DedupRule) : List (DedupKey × Nat) → Ledger → Ledger × List Bool
  | [], ledger => (ledger, [])
  | arrival :: rest, ledger =>
    let first := ledger.dedupKey rule arrival
    let others := first.1.dedupKeys rule rest
    (others.1, first.2 :: others.2)

theorem dedupRow_ledger {rule : DedupRule} {row : Row} {ordinal : Nat} {dup : Bool}
    (h : dedupRow env rule row ordinal run = .ok (run', dup)) :
    ∃ key, rule.key row = .ok key ∧ (run'.ledger, dup) = run.ledger.dedupKey rule (key, ordinal) := by
  obtain ⟨key, hkey, h⟩ := of_bind h
  obtain ⟨⟨index, result⟩, hinsert, h⟩ := of_bind h
  refine ⟨key, hkey, ?_⟩
  obtain ⟨hlookup, rfl, rfl⟩ | ⟨first, hlookup, rfl, rfl⟩ := insertFirst_eq_ok hinsert
  · cases h
    have hledger : run.ledger.index.lookup key = none := hlookup
    rw [Ledger.dedupKey, hledger]
    rfl
  · obtain ⟨held, hheld, h⟩ := of_bind h
    cases h
    obtain ⟨memory, -, rfl⟩ := hold_eq_ok hheld
    have hledger : run.ledger.index.lookup key = some first := hlookup
    rw [Ledger.dedupKey, hledger]
    rfl

theorem dedupRows_ledger {rule : DedupRule} {rows : List Row} {dead : List Bool}
    (h : dedupRows env rule rows sidecar run = .ok (run', dead)) :
    ∃ keys, rows.mapM rule.key = .ok keys ∧ keys.length ≤ sidecar.length ∧
      (run'.ledger, dead) = run.ledger.dedupKeys rule (keys.zip (sidecar.map (·.2))) := by
  induction rows generalizing sidecar run dead with
  | nil =>
    cases h
    exact ⟨[], rfl, Nat.zero_le _, rfl⟩
  | cons row rows ih =>
    cases sidecar with
    | nil => cases h
    | cons entry sidecar =>
      obtain ⟨⟨mid, dup⟩, hmid, h⟩ := of_bind h
      obtain ⟨⟨last, rest⟩, hrest, h⟩ := of_bind h
      cases h
      obtain ⟨key, hkey, hfirst⟩ := dedupRow_ledger (checked_eq_ok hmid)
      obtain ⟨keys, hkeys, hlength, hothers⟩ := ih hrest
      refine ⟨key :: keys, ?_, by simpa using hlength, ?_⟩
      · rw [mapM_cons, hkey, ok_bind, hkeys, ok_bind, pure_eq_ok]
      · simp only [map_cons, zip_cons_cons, Ledger.dedupKeys]
        rw [← hfirst]
        simp only [← hothers]

end Stillflow.Engine
