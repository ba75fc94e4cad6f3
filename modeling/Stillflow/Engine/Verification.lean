import Stillflow.Engine.DedupIndex
import Stillflow.Engine.VerificationMemory
import Stillflow.Engine.VerificationPlan

/-!
One verification run: the streaming loop that takes connector envelopes through the plan's steps,
routes every row, and packs accepted rows, rejected rows and findings for the storage writer.
-/

namespace Stillflow.Engine

open Stillflow.Core Stillflow.Plan Lib.Fallible Lib.Mask

def maxBatchRows : Nat := 65536

def reportPackRows : Nat := 1024

def reportRowEstimateBytes : Nat := 2 * 1024

def maxValidationFindingsPerRow : Nat := 256

/-- How a call of the run can fail: with an error it returns, or by an index out of bounds. -/
inductive Fault where
  | error (e : EngineError)
  | panic
  deriving DecidableEq

def checked {α : Type} (x : Except EngineError α) : Except Fault α := x.mapError .error

structure ValidationTally where
  evaluated : Nat := 0
  pass : Nat := 0
  fail : Nat := 0
  warning : Nat := 0
  error : Nat := 0
  nullOutcomes : Nat := 0
  falseOutcomes : Nat := 0
  deriving DecidableEq

structure ValSummaryRow where
  nodeId : Uuid
  ruleOrdinal : Nat
  message : String
  tally : ValidationTally
  deriving DecidableEq

structure ValFindingRow where
  ordinal : Nat
  nodeId : Uuid
  ruleOrdinal : Nat
  severity : String
  outcome : String
  deriving DecidableEq

structure DedupSummaryRow where
  nodeId : Uuid
  ruleOrdinal : Nat
  keyColumnCount : Nat
  evaluated : Nat
  unique : Nat
  duplicates : Nat
  deriving DecidableEq

structure DupFindingRow where
  ordinal : Nat
  firstOrdinal : Nat
  nodeId : Uuid
  ruleOrdinal : Nat
  keyColumnCount : Nat
  encodedLen : Nat
  deriving DecidableEq

structure RejectedEntry where
  payload : RecordBatch
  kind : String
  nodeId : Uuid
  ruleOrdinal : Nat
  ordinal : Nat
  bytes : Nat
  deriving DecidableEq

/-- The provenance stamped into every report and rejected row. -/
structure FlushInputs where
  inputKind : String
  inputId : String
  inputVersionDigest : String
  planFingerprintHex : String
  canonicalPlanDigestHex : String
  deriving DecidableEq

/-- One envelope handed to a section of the storage writer, with its sequence number. -/
inductive Pack where
  | accepted (sequence : Nat) (payload : RecordBatch)
  | validationRuleSummary (sequence : Nat) (inputs : FlushInputs) (rows : List ValSummaryRow)
  | validationFindings (sequence : Nat) (inputs : FlushInputs) (rows : List ValFindingRow)
  | rejectedRows (sequence : Nat) (inputs : FlushInputs) (rows : List RejectedEntry)
  | dedupRuleSummary (sequence : Nat) (inputs : FlushInputs) (rows : List DedupSummaryRow)
  | duplicateFindings (sequence : Nat) (inputs : FlushInputs) (rows : List DupFindingRow)
  deriving DecidableEq

def Pack.rowCount : Pack → Nat
  | .accepted _ payload => payload.height
  | .validationRuleSummary _ _ rows => rows.length
  | .validationFindings _ _ rows => rows.length
  | .rejectedRows _ _ rows => rows.length
  | .dedupRuleSummary _ _ rows => rows.length
  | .duplicateFindings _ _ rows => rows.length

/-- The next sequence number of each report sink. -/
structure ReportSinks where
  valSummary : Nat := 0
  valFinding : Nat := 0
  rejected : Nat := 0
  dedupSummary : Nat := 0
  dupFinding : Nat := 0
  deriving DecidableEq

/-- What is fixed during a run. `writerFault` and `indexFault` are the answers of the storage
writer and of the index database to one call. -/
structure VerificationEnv where
  polars : Polars
  law : MemoryLaw
  vplan : VerificationPlan
  prepared : PreparedPlan
  inputs : FlushInputs
  batchSize : Nat
  rejectedAuthorized : Option Uuid
  reuseAcceptedSnapshot : Bool
  writerFault : List Pack → Pack → Option EngineError
  indexFault : DedupIndex → DedupKey → Option EngineError

/-- A batch and the size of its buffers; a slice shares those of the batch it is cut from. -/
structure HeldBatch extends RecordBatch where
  bytes : Nat

structure VerificationRun where
  nextOrdinal : Nat
  memory : VerificationMemory
  valSummaries : List ValSummaryRow
  valFindings : List ValFindingRow
  dedupSummaries : List DedupSummaryRow
  dupFindings : List DupFindingRow
  rejected : List RejectedEntry
  acceptedBatches : List HeldBatch
  acceptedPendingRows : Nat
  acceptedBufferedBytes : Nat
  acceptedEmittedSequences : Nat
  terminalRejections : Nat
  index : DedupIndex
  sinks : ReportSinks
  packs : List Pack

/-- A connector envelope; its payload is bounded by construction. -/
structure BatchEnvelope where
  sequence : Nat
  schema : LogicalSchema
  payload : RecordBatch
  byteCount : Nat
  rows_le : payload.height ≤ maxBatchRows

def validationSummaries (vsteps : List VStep) : List ValSummaryRow :=
  vsteps.filterMap fun
    | .validate nodeId ruleOrdinal _ _ message => some ⟨nodeId, ruleOrdinal, message, {}⟩
    | _ => none

def dedupRuleSummaries (vsteps : List VStep) : List DedupSummaryRow :=
  vsteps.filterMap fun
    | .deduplicate nodeId ruleOrdinal keys _ => some ⟨nodeId, ruleOrdinal, keys.length, 0, 0, 0⟩
    | _ => none

/-- The slot a rule's key was last inserted with. -/
def summaryIndex (keys : List (Uuid × Nat)) (key : Uuid × Nat) : Option Nat :=
  (keys.zipIdx.reverse.find? fun entry => entry.1 == key).map (·.2)

def VerificationEnv.valSummaryIndex (env : VerificationEnv) (key : Uuid × Nat) : Option Nat :=
  summaryIndex ((validationSummaries env.vplan.vsteps).map fun row => (row.nodeId, row.ruleOrdinal))
    key

def VerificationEnv.dedupSummaryIndex (env : VerificationEnv) (key : Uuid × Nat) : Option Nat :=
  summaryIndex ((dedupRuleSummaries env.vplan.vsteps).map fun row => (row.nodeId, row.ruleOrdinal))
    key

def VerificationEnv.start (env : VerificationEnv) : VerificationRun where
  nextOrdinal := 0
  memory := .default
  valSummaries := validationSummaries env.vplan.vsteps
  valFindings := []
  dedupSummaries := dedupRuleSummaries env.vplan.vsteps
  dupFindings := []
  rejected := []
  acceptedBatches := []
  acceptedPendingRows := 0
  acceptedBufferedBytes := 0
  acceptedEmittedSequences := 0
  terminalRejections := 0
  index := []
  sinks := {}
  packs := []

namespace VerificationRun

def hold (law : MemoryLaw) (run : VerificationRun) (slot : Slot) (bytes : Nat) :
    Except EngineError VerificationRun := do
  return { run with memory := ← run.memory.hold law slot bytes }

def release (run : VerificationRun) (slot : Slot) (bytes : Nat) : VerificationRun :=
  { run with memory := run.memory.release slot bytes }

def drop (run : VerificationRun) (slot : Slot) : VerificationRun :=
  { run with memory := run.memory.drop slot }

/-- Build the envelope and append it to the writer's section. -/
def emit (env : VerificationEnv) (run : VerificationRun) (pack : Pack) (message : String) :
    Except EngineError VerificationRun := do
  require (pack.rowCount ≤ maxBatchRows) (EngineError.internal message)
  match env.writerFault run.packs pack with
  | some error => .error error
  | none => return { run with packs := run.packs ++ [pack] }

def sectionBuildFailed : String := "verification section envelope build failed"

def releaseRows (run : VerificationRun) (slot : Slot) (count : Nat) : VerificationRun :=
  (List.range count).foldl (fun run _ => run.release slot reportRowEstimateBytes) run

end VerificationRun

/-- One pack of at most `REPORT_PACK_ROWS` rejected rows. -/
def flushRejectedPack (env : VerificationEnv) (run : VerificationRun) :
    Except EngineError VerificationRun := do
  let emitted ← { run with rejected := run.rejected.drop reportPackRows }.emit env
    (.rejectedRows run.sinks.rejected env.inputs (run.rejected.take reportPackRows))
    VerificationRun.sectionBuildFailed
  return { emitted with sinks.rejected := run.sinks.rejected + 1 }.release .rejected
    ((run.rejected.take reportPackRows).map RejectedEntry.bytes).sum

/-- `while !run.rejected.is_empty()`, with the number of waiting rows as fuel. -/
def flushRejectedLoop (env : VerificationEnv) : Nat → VerificationRun →
    Except EngineError VerificationRun
  | 0, run => .ok run
  | fuel + 1, run =>
    if run.rejected = [] then .ok run
    else do
      let run ← flushRejectedPack env run
      flushRejectedLoop env fuel run

def flushRejectedRows (env : VerificationEnv) (run : VerificationRun) :
    Except EngineError VerificationRun :=
  flushRejectedLoop env run.rejected.length run

def flushValidationFindings (env : VerificationEnv) (run : VerificationRun) :
    Except EngineError VerificationRun :=
  if run.valFindings = [] then .ok run
  else do
    let emitted ← (run.releaseRows .validation run.valFindings.length).emit env
      (.validationFindings run.sinks.valFinding env.inputs run.valFindings)
      VerificationRun.sectionBuildFailed
    return { emitted with sinks.valFinding := run.sinks.valFinding + 1 }

def flushDuplicateFindings (env : VerificationEnv) (run : VerificationRun) :
    Except EngineError VerificationRun :=
  if run.dupFindings = [] then .ok run
  else do
    let emitted ← (run.releaseRows .dedup run.dupFindings.length).emit env
      (.duplicateFindings run.sinks.dupFinding env.inputs run.dupFindings)
      VerificationRun.sectionBuildFailed
    return { emitted with sinks.dupFinding := run.sinks.dupFinding + 1 }

/-- The pack loop of the two rule summary sections. -/
def flushSummaries {α : Type} (env : VerificationEnv) (pack : Nat → List α → Pack) :
    Nat → List α → Nat → VerificationRun → Except EngineError (VerificationRun × Nat)
  | 0, _, sequence, run => .ok (run, sequence)
  | fuel + 1, rows, sequence, run =>
    if rows = [] then .ok (run, sequence)
    else do
      let run ← run.emit env (pack sequence (rows.take reportPackRows))
        VerificationRun.sectionBuildFailed
      flushSummaries env pack fuel (rows.drop reportPackRows) (sequence + 1) run

def flushValidationRuleSummaries (env : VerificationEnv) (run : VerificationRun) :
    Except EngineError VerificationRun := do
  let result ← flushSummaries env (Pack.validationRuleSummary · env.inputs ·)
    run.valSummaries.length run.valSummaries run.sinks.valSummary { run with valSummaries := [] }
  return { result.1 with sinks.valSummary := result.2 }

def flushDedupRuleSummaries (env : VerificationEnv) (run : VerificationRun) :
    Except EngineError VerificationRun := do
  let result ← flushSummaries env (Pack.dedupRuleSummary · env.inputs ·)
    run.dedupSummaries.length run.dedupSummaries run.sinks.dedupSummary
    { run with dedupSummaries := [] }
  return { result.1 with sinks.dedupSummary := result.2 }

/-- Batches taken for one pack, the sizes of those that were used up, and what is left. -/
structure PackParts where
  parts : List RecordBatch
  used : List Nat
  rest : List HeldBatch

/-- Take `needed` rows from the front of the waiting batches. -/
def takePack : Nat → List HeldBatch → Option PackParts
  | 0, batches => some ⟨[], [], batches⟩
  | _ + 1, [] => none
  | needed + 1, front :: rest =>
    if front.height ≤ needed + 1 then do
      let taken ← takePack (needed + 1 - front.height) rest
      return ⟨front.toFrame :: taken.parts, front.bytes :: taken.used, taken.rest⟩
    else some ⟨[⟨front.names, front.rows.take (needed + 1)⟩], [],
      { front with rows := front.rows.drop (needed + 1) } :: rest⟩

def joinParts (schema : LogicalSchema) (parts : List RecordBatch) : RecordBatch :=
  match parts with
  | [only] => only
  | _ => ⟨schema.fields.map (·.name), parts.flatMap (·.rows)⟩

def releaseAccepted (run : VerificationRun) (bytes : Nat) : VerificationRun :=
  { run.release .accepted bytes with
    acceptedBufferedBytes := run.acceptedBufferedBytes - bytes }

/-- Hand one accepted payload to the writer, unless the accepted child is an existing Snapshot. -/
def emitAccepted (env : VerificationEnv) (run : VerificationRun) (payload : RecordBatch) :
    Except EngineError VerificationRun :=
  if env.reuseAcceptedSnapshot then .ok run
  else do
    let run ← run.emit env (.accepted run.acceptedEmittedSequences payload)
      "accepted envelope build failed"
    return { run with acceptedEmittedSequences := run.acceptedEmittedSequences + 1 }

/-- `while run.accepted_pending_rows >= run.batch_size`, with the pending rows as fuel. -/
def flushAcceptedLoop (env : VerificationEnv) : Nat → VerificationRun →
    Except EngineError VerificationRun
  | 0, run => .ok run
  | fuel + 1, run =>
    if run.acceptedPendingRows < env.batchSize then .ok run
    else match takePack env.batchSize run.acceptedBatches with
      | none => .error (.internal "accepted packer underflow")
      | some taken => do
        let emitted ← emitAccepted env (taken.used.foldl releaseAccepted
          { run with
            acceptedBatches := taken.rest
            acceptedPendingRows := run.acceptedPendingRows - env.batchSize })
          (joinParts env.prepared.materializeSchema taken.parts)
        flushAcceptedLoop env fuel emitted

def flushAcceptedPacks (env : VerificationEnv) (run : VerificationRun) :
    Except EngineError VerificationRun :=
  flushAcceptedLoop env (run.acceptedPendingRows + 1) run

def finishAccepted (env : VerificationEnv) (run : VerificationRun) :
    Except EngineError VerificationRun := do
  let flushed ← flushAcceptedPacks env run
  if flushed.acceptedPendingRows = 0 then return flushed
  else
    emitAccepted env (releaseAccepted
        { flushed with acceptedBatches := [], acceptedPendingRows := 0 }
        (flushed.acceptedBatches.map (·.bytes)).sum)
      (joinParts env.prepared.materializeSchema (flushed.acceptedBatches.map (·.toFrame)))

/-- The tri-state outcomes of a predicate over the frame. -/
def evaluatePredicate (env : VerificationEnv) (frame : Frame) (schema : LogicalSchema)
    (predicate : Expr) : Except EngineError (List (Option Bool)) := do
  let lowered ← lowerExpr env.polars.zones schema predicate
  let selected ← ofOption (env.polars.select lowered frame)
    (.typeError "predicate evaluation failed")
  ofOption (selected.mapM asBoolean) (.typeError "predicate did not evaluate to Boolean")

/-- `null` and `false` both drop. -/
def booleanKeepMask (env : VerificationEnv) (frame : Frame) (schema : LogicalSchema)
    (predicate : Expr) : Except EngineError (List Bool) := do
  let outcomes ← evaluatePredicate env frame schema predicate
  return outcomes.map fun outcome => outcome == some true

/-- The mask as a column of the frame: a single flag is repeated, and cleared on an empty frame. -/
def Frame.maskColumn (polars : Polars) (frame : Frame) (mask : List Bool) : Option (List Bool) :=
  if mask.length = frame.height then some mask
  else match mask with
    | [flag] =>
      if 1 < frame.height then some (List.replicate frame.height flag)
      else if polars.clearsMask then some [] else none
    | _ => none

/-- `with_column`: a column `keep` replaces the one of that name. -/
def Frame.withMask (frame : Frame) (column : List Bool) : Frame :=
  ⟨if "keep" ∈ frame.names then frame.names else frame.names ++ ["keep"],
    List.zipWith (fun flag row => setCell "keep" (.boolean flag) row) column frame.rows⟩

/-- `filter(col("keep"))`. -/
def Frame.filterMask (frame : Frame) : Frame :=
  { frame with rows := frame.rows.filter fun row => row.lookup "keep" == some (.boolean true) }

/-- `drop_in_place("keep")`. -/
def Frame.dropMask (frame : Frame) : Frame :=
  ⟨frame.names.filter (· ≠ "keep"), frame.rows.map (dropCell "keep")⟩

def takeSurviving (env : VerificationEnv) (frame : Frame) (keepMask : List Bool) :
    Except EngineError Frame := do
  let column ← ofOption (frame.maskColumn env.polars keepMask) (.internal "row compaction failed")
  return (frame.withMask column).filterMask.dropMask

/-- `next.push(list[index])` for every kept index. -/
def keepIndexed {α : Type} : List Bool → List α → Except Fault (List α)
  | [], _ => .ok []
  | true :: mask, a :: rest => do
    let kept ← keepIndexed mask rest
    return a :: kept
  | true :: _, [] => .error .panic
  | false :: mask, list => keepIndexed mask list.tail

/-- The rows of one routing window with what is tracked beside them: the row's position in the
retained scan output and its ordinal, and the number of findings it has. -/
structure Window where
  frame : Frame
  schema : LogicalSchema
  deferred : Deferred
  sidecar : List (Nat × Nat)
  findingsPerRow : List Nat

def compactAlive (env : VerificationEnv) (window : Window) (keepMask : List Bool) :
    Except Fault Window :=
  if keepMask.all id then .ok window
  else do
    let frame ← checked (takeSurviving env window.frame keepMask)
    let sidecar ← keepIndexed keepMask window.sidecar
    let findingsPerRow ← keepIndexed keepMask window.findingsPerRow
    return { window with frame := frame, sidecar := sidecar, findingsPerRow := findingsPerRow }

/-- The run together with its current window. -/
structure Routing where
  run : VerificationRun
  window : Window

/-- The retained scan output of the current envelope and where the window starts in it. -/
structure Origin where
  batch : RecordBatch
  offset : Nat

/-- The rule a row is rejected by. -/
structure Rejection where
  nodeId : Uuid
  ruleOrdinal : Nat
  kind : String

/-- A rejected entry joins the waiting ones; a full pack is flushed. -/
def addRejected (env : VerificationEnv) (run : VerificationRun) (entry : RejectedEntry) :
    Except EngineError VerificationRun :=
  if reportPackRows ≤ run.rejected.length + 1 then
    flushRejectedRows env { run with rejected := run.rejected ++ [entry] }
  else .ok { run with rejected := run.rejected ++ [entry] }

def VerificationRun.countRejection (run : VerificationRun) : VerificationRun :=
  { run with terminalRejections := run.terminalRejections + 1 }

/-- The entry of a rejected row: its one-row slice of the scan output, with the size of the whole. -/
def rejectedEntry (env : VerificationEnv) (origin : Origin) (cause : Rejection) (ordinal : Nat)
    (rows : List Row) : RejectedEntry :=
  ⟨⟨origin.batch.names, rows⟩, cause.kind, cause.nodeId, cause.ruleOrdinal, ordinal,
    env.polars.arrayMemorySize origin.batch⟩

/-- Terminal rejection of one row: the original scan output row is the payload. -/
def rejectRow (env : VerificationEnv) (origin : Origin) (cause : Rejection) (entry : Nat × Nat)
    (run : VerificationRun) : Except Fault VerificationRun := do
  checked (require (env.rejectedAuthorized.isSome = true) (EngineError.invalidPlan
    "the run declared no rejected artifact but a terminal rejection occurred"))
  match origin.batch.rows[origin.offset + entry.1]? with
  | none => .error .panic
  | some row => checked do
    let held ← run.countRejection.hold env.law .rejected (env.polars.arrayMemorySize origin.batch)
    addRejected env held (rejectedEntry env origin cause entry.2 [row])

def rejectDead (env : VerificationEnv) (origin : Origin) (cause : Rejection) :
    List Bool → List (Nat × Nat) → VerificationRun → Except Fault VerificationRun
  | [], _, run => .ok run
  | true :: dead, entry :: sidecar, run => do
    let run ← rejectRow env origin cause entry run
    rejectDead env origin cause dead sidecar run
  | true :: _, [], _ => .error .panic
  | false :: dead, sidecar, run => rejectDead env origin cause dead sidecar.tail run

def severityLiteral : ValidationSeverity → String
  | .warning => "warning"
  | .error => "error"

/-- The outcome text of a finding; the source asks whether the outcome is true. -/
def outcomeLiteral (outcome : Option Bool) : String :=
  if outcome.getD false then "false" else "null"

def ValidationTally.add (tally : ValidationTally) (severity : ValidationSeverity) :
    Option Bool → ValidationTally
  | some true => { tally with evaluated := tally.evaluated + 1, pass := tally.pass + 1 }
  | outcome =>
    { tally with
      evaluated := tally.evaluated + 1
      fail := tally.fail + 1
      warning := if severity = .warning then tally.warning + 1 else tally.warning
      error := if severity = .error then tally.error + 1 else tally.error
      falseOutcomes := if outcome = some false then tally.falseOutcomes + 1 else tally.falseOutcomes
      nullOutcomes := if outcome = none then tally.nullOutcomes + 1 else tally.nullOutcomes }

/-- A Validate step as it is executed. -/
structure ValidateRule where
  nodeId : Uuid
  ruleOrdinal : Nat
  severity : ValidationSeverity
  slot : Nat

def VerificationRun.tally (run : VerificationRun) (rule : ValidateRule) (outcome : Option Bool) :
    VerificationRun :=
  { run with valSummaries := run.valSummaries.modify rule.slot fun row =>
      { row with tally := row.tally.add rule.severity outcome } }

def ValidateRule.finding (rule : ValidateRule) (ordinal : Nat) (outcome : Option Bool) :
    ValFindingRow :=
  ⟨ordinal, rule.nodeId, rule.ruleOrdinal, severityLiteral rule.severity, outcomeLiteral outcome⟩

def VerificationRun.addFinding (run : VerificationRun) (finding : ValFindingRow) :
    VerificationRun :=
  { run with valFindings := run.valFindings ++ [finding] }

/-- The outcome loop: one outcome per index, with the sidecar entry and the finding counter of
that index. Returns the counters. -/
def validateRows (env : VerificationEnv) (rule : ValidateRule) :
    List (Option Bool) → List (Nat × Nat) → List Nat → VerificationRun →
      Except Fault (VerificationRun × List Nat)
  | [], _, counts, run => .ok (run, counts)
  | some true :: outcomes, sidecar, counts, run => do
    let result ← validateRows env rule outcomes sidecar.tail counts.tail
      (run.tally rule (some true))
    return (result.1, counts.take 1 ++ result.2)
  | outcome :: outcomes, entry :: sidecar, count :: counts, run => do
    checked (require (count + 1 ≤ maxValidationFindingsPerRow) (EngineError.boundExceeded
      "source row exceeded MAX_VALIDATION_FINDINGS_PER_ROW"))
    let held ← checked ((run.tally rule outcome).hold env.law .validation reportRowEstimateBytes)
    let result ← validateRows env rule outcomes sidecar counts
      (held.addFinding (rule.finding entry.2 outcome))
    return (result.1, (count + 1) :: result.2)
  | _ :: _, _, _, _ => .error .panic

/-- The rows that end at a Validate step. -/
def deadOutcomes (severity : ValidationSeverity) (outcomes : List (Option Bool)) : List Bool :=
  outcomes.map fun outcome => decide (severity = .error) && outcome != some true

/-- A Deduplicate step as it is executed: `columns` are the key columns' names. -/
structure DedupRule where
  nodeId : Uuid
  ruleOrdinal : Nat
  columns : List String
  keyTypes : List LogicalType
  slot : Nat

/-- The typed key cells of a row. -/
def DedupRule.cells (rule : DedupRule) (row : Row) : Option (List (LogicalType × AnyValue)) :=
  (rule.columns.zip rule.keyTypes).mapM fun column =>
    (row.lookup column.1).map fun cell => (column.2, cell)

def VerificationRun.countEvaluated (run : VerificationRun) (slot rows : Nat) : VerificationRun :=
  { run with dedupSummaries := run.dedupSummaries.modify slot fun row =>
      { row with evaluated := row.evaluated + rows } }

def VerificationRun.countUnique (run : VerificationRun) (slot : Nat) : VerificationRun :=
  { run with dedupSummaries := run.dedupSummaries.modify slot fun row =>
      { row with unique := row.unique + 1 } }

def VerificationRun.countDuplicate (run : VerificationRun) (slot : Nat) : VerificationRun :=
  { run with dedupSummaries := run.dedupSummaries.modify slot fun row =>
      { row with duplicates := row.duplicates + 1 } }

/-- The key of one row under a rule. -/
def DedupRule.key (rule : DedupRule) (row : Row) : Except EngineError DedupKey := do
  let cells ← ofOption (rule.cells row) (.internal "dedup key read failed")
  let encoded ← encodeKey cells []
  return ⟨rule.nodeId, rule.ruleOrdinal, encoded⟩

def DedupRule.finding (rule : DedupRule) (key : DedupKey) (ordinal first : Nat) : DupFindingRow :=
  ⟨ordinal, first, rule.nodeId, rule.ruleOrdinal, rule.columns.length, key.keyBytes.length⟩

def VerificationRun.addDuplicate (run : VerificationRun) (finding : DupFindingRow) :
    VerificationRun :=
  { run with dupFindings := run.dupFindings ++ [finding] }

/-- One row of the key loop; tells whether the row is a duplicate. -/
def dedupRow (env : VerificationEnv) (rule : DedupRule) (row : Row) (ordinal : Nat)
    (run : VerificationRun) : Except EngineError (VerificationRun × Bool) := do
  let key ← rule.key row
  let inserted ← insertFirst (env.indexFault run.index key) run.index key ordinal
  match inserted.2 with
  | .inserted _ => return ({ run with index := inserted.1 }.countUnique rule.slot, false)
  | .duplicate first => do
    let held ← ({ run with index := inserted.1 }.countDuplicate rule.slot).hold env.law .dedup
      reportRowEstimateBytes
    return (held.addDuplicate (rule.finding key ordinal first), true)

/-- The key loop over the frame; returns which rows are duplicates. -/
def dedupRows (env : VerificationEnv) (rule : DedupRule) :
    List Row → List (Nat × Nat) → VerificationRun → Except Fault (VerificationRun × List Bool)
  | [], _, run => .ok (run, [])
  | row :: rows, entry :: sidecar, run => do
    let result ← checked (dedupRow env rule row entry.2 run)
    let rest ← dedupRows env rule rows sidecar result.1
    return (rest.1, result.2 :: rest.2)
  | _ :: _, [], _ => .error .panic

/-- The names of the key columns, which must be columns of the frame. -/
def keyColumns (window : Window) (keys : List ColumnId) : Except EngineError (List String) :=
  keys.mapM fun key => do
    let field ← ofOption (window.schema.field key) (.unknownColumn key)
    require (field.name ∈ window.frame.names) (EngineError.unknownColumn key)
    return field.name

def transformWindow (env : VerificationEnv) (window : Window) (step : CompiledStep) :
    Except EngineError Window := do
  let result ← transform env.polars window.frame window.schema [step] window.deferred
  return { window with frame := result.1, deferred := result.2 }

/-- Route the rows a step marked dead, then drop them from the window. -/
def endRows (env : VerificationEnv) (origin : Origin) (cause : Rejection) (dead : List Bool)
    (state : Routing) : Except Fault Routing :=
  if dead.any id then do
    let run ← rejectDead env origin cause dead state.window.sidecar state.run
    let window ← compactAlive env state.window (dead.map not)
    return ⟨run, window⟩
  else .ok state

def filterStep (env : VerificationEnv) (state : Routing) (predicate : Expr) :
    Except Fault Routing := do
  let keepMask ← checked (booleanKeepMask env state.window.frame state.window.schema predicate)
  let window ← compactAlive env state.window keepMask
  return ⟨state.run, window⟩

def runStep (env : VerificationEnv) (origin : Origin) (state : Routing) (step : VStep) :
    Except Fault Routing :=
  match step with
  | .project columns => do
    let window ← checked (transformWindow env state.window (.project columns))
    let schema ← checked (projectSchema window.schema columns)
    return ⟨state.run, { window with schema := schema }⟩
  | .filter predicate | .filterRows predicate => filterStep env state predicate
  | .transformRules rules => do
    let window ← checked (transformWindow env state.window (.rules rules))
    let schema ← checked (rules.foldlM applyRuleSchemaE4 window.schema)
    return ⟨state.run, { window with schema := schema }⟩
  | .validate nodeId ruleOrdinal predicate severity _ => do
    let outcomes ← checked (evaluatePredicate env state.window.frame state.window.schema predicate)
    let slot ← checked (ofOption (env.valSummaryIndex (nodeId, ruleOrdinal))
      (.internal "validation summary missing"))
    let result ← validateRows env ⟨nodeId, ruleOrdinal, severity, slot⟩ outcomes
      state.window.sidecar state.window.findingsPerRow state.run
    endRows env origin ⟨nodeId, ruleOrdinal, "validation_error"⟩ (deadOutcomes severity outcomes)
      ⟨result.1, { state.window with findingsPerRow := result.2 }⟩
  | .deduplicate nodeId ruleOrdinal keys keyTypes => do
    let slot ← checked (ofOption (env.dedupSummaryIndex (nodeId, ruleOrdinal))
      (.internal "dedup summary missing"))
    let columns ← checked (keyColumns state.window keys)
    let result ← dedupRows env ⟨nodeId, ruleOrdinal, columns, keyTypes, slot⟩
      state.window.frame.rows state.window.sidecar
      (state.run.countEvaluated slot state.window.frame.height)
    endRows env origin ⟨nodeId, ruleOrdinal, "duplicate"⟩ result.2 ⟨result.1, state.window⟩

/-- The steps after the scan boundary. -/
def VerificationEnv.routingSteps (env : VerificationEnv) : List VStep :=
  env.vplan.vsteps.drop env.vplan.scanBoundary

def acceptSurvivors (env : VerificationEnv) (state : Routing) :
    Except EngineError VerificationRun :=
  if 0 < state.window.frame.height then do
    let survivors ← dataframeToRecordBatch state.window.frame env.prepared.materializeSchema
      state.window.deferred
    let held ← state.run.hold env.law .accepted (env.polars.arrayMemorySize survivors)
    flushAcceptedPacks env { held with
      acceptedBufferedBytes := held.acceptedBufferedBytes + env.polars.arrayMemorySize survivors
      acceptedPendingRows := held.acceptedPendingRows + survivors.height
      acceptedBatches := held.acceptedBatches ++ [⟨survivors, env.polars.arrayMemorySize survivors⟩] }
  else .ok (state.run.drop .polars)

/-- The window of the retained scan output that starts at an offset. -/
def openWindow (env : VerificationEnv) (origin : Origin) (sidecar : List (Nat × Nat))
    (deferred : Deferred) : Window :=
  let width := min (origin.batch.height - origin.offset) maxBatchRows
  { frame := recordBatchToDataframe
      ⟨origin.batch.names, (origin.batch.rows.drop origin.offset).take width⟩
    schema := env.prepared.scanOutput
    deferred := deferred
    sidecar := (sidecar.drop origin.offset).take width
    findingsPerRow := List.replicate width 0 }

/-- One window through the routing steps and out. -/
def routeWindow (env : VerificationEnv) (origin : Origin) (window : Window)
    (run : VerificationRun) : Except Fault (VerificationRun × Deferred) := do
  let run ← checked (run.hold env.law .polars (env.polars.estimatedSize window.frame))
  let state ← env.routingSteps.foldlM (runStep env origin) ⟨run, window⟩
  let run ← checked (acceptSurvivors env state)
  return (run, state.window.deferred)

/-- `while offset < total`, with the rows still to come as fuel. -/
def routeWindows (env : VerificationEnv) (batch : RecordBatch) (sidecar : List (Nat × Nat)) :
    Nat → Nat → VerificationRun → Deferred → Except Fault VerificationRun
  | 0, _, run, _ => .ok run
  | fuel + 1, offset, run, deferred =>
    if offset < batch.height then do
      let result ← routeWindow env ⟨batch, offset⟩ (openWindow env ⟨batch, offset⟩ sidecar deferred)
        run
      routeWindows env batch sidecar fuel (offset + min (batch.height - offset) maxBatchRows)
        result.1 result.2
    else .ok run

def leadingStep (env : VerificationEnv) (working : Working) (step : VStep) :
    Except EngineError Working :=
  match step with
  | .project columns => do
    let result ← transform env.polars working.frame working.schema [.project columns]
      working.deferred
    let schema ← projectSchema working.schema columns
    return ⟨result.1, schema, result.2⟩
  | .filter predicate => do
    let keep ← booleanKeepMask env working.frame working.schema predicate
    if keep.all id then return working
    else return { working with frame := ← takeSurviving env working.frame keep }
  | _ => .error (.internal "non-leading verification step before the scan boundary")

def VerificationRun.takeOrdinal (run : VerificationRun) :
    Except EngineError (Nat × VerificationRun) := do
  require (run.nextOrdinal < maxSnapshotRows)
    (EngineError.boundExceeded "logical Scan output exceeds MAX_SNAPSHOT_ROWS")
  return (run.nextOrdinal, { run with nextOrdinal := run.nextOrdinal + 1 })

/-- Ordinals for the rows of the scan output, in order. -/
def assignOrdinals : Nat → VerificationRun → Except EngineError (List Nat × VerificationRun)
  | 0, run => .ok ([], run)
  | rows + 1, run => do
    let first ← run.takeOrdinal
    let rest ← assignOrdinals rows first.2
    return (first.1 :: rest.1, rest.2)

def scanFrame (env : VerificationEnv) (envelope : BatchEnvelope) : Except EngineError Working :=
  (env.vplan.vsteps.take env.vplan.scanBoundary).foldlM (leadingStep env)
    ⟨recordBatchToDataframe envelope.payload, env.prepared.expectedConnector, []⟩

def scanBatch (env : VerificationEnv) (working : Working) : Except EngineError RecordBatch :=
  dataframeToRecordBatch working.frame env.prepared.scanOutput working.deferred

/-- An envelope after ordinal assignment: the retained scan output, its sidecar of positions and
ordinals, and the deferred literals. -/
structure OpenedEnvelope where
  run : VerificationRun
  batch : RecordBatch
  sidecar : List (Nat × Nat)
  deferred : Deferred

/-- `process_envelope` up to the routing loop. -/
def openEnvelope (env : VerificationEnv) (run : VerificationRun) (envelope : BatchEnvelope) :
    Except EngineError OpenedEnvelope := do
  require (envelope.schema = env.prepared.expectedConnector)
    (EngineError.schemaDrift envelope.sequence)
  let run ← run.hold env.law .envelope envelope.byteCount
  let run ← run.hold env.law .polars
    (env.polars.estimatedSize (recordBatchToDataframe envelope.payload))
  let working ← scanFrame env envelope
  let assigned ← assignOrdinals working.frame.height run
  let batch ← scanBatch env working
  let memory ← (assigned.2.drop .polars).memory.swapEnvelope env.law
    (env.polars.arrayMemorySize batch)
  return ⟨{ assigned.2 with memory := memory }, batch,
    (List.range assigned.1.length).zip assigned.1, working.deferred⟩

def processEnvelope (env : VerificationEnv) (run : VerificationRun) (envelope : BatchEnvelope) :
    Except Fault VerificationRun := do
  let opened ← checked (openEnvelope env run envelope)
  let run ← routeWindows env opened.batch opened.sidecar opened.batch.height 0 opened.run
    opened.deferred
  return run.drop .envelope

/-- `stream_verification`: every envelope of the source in turn. -/
def streamVerification (env : VerificationEnv) (envelopes : List BatchEnvelope)
    (run : VerificationRun) : Except Fault VerificationRun :=
  envelopes.foldlM (processEnvelope env) run

/-- What follows the stream: the accepted tail and the report sections, before the commit. -/
def finishRun (env : VerificationEnv) (run : VerificationRun) :
    Except EngineError VerificationRun := do
  let run ← finishAccepted env run
  let run ← flushValidationRuleSummaries env run
  let run ← flushDedupRuleSummaries env run
  let run ← flushValidationFindings env run
  let run ← flushDuplicateFindings env run
  flushRejectedRows env run

def materializeVerification (env : VerificationEnv) (envelopes : List BatchEnvelope) :
    Except Fault VerificationRun := do
  let run ← streamVerification env envelopes env.start
  checked (finishRun env run)

end Stillflow.Engine
