import Stillflow.Engine.KeyEncoding

/-!
The profiling scan: envelopes are admitted under byte and row bounds, every resolved column keeps
its null count and distinct values, and whole rows are told apart by their encoded keys. The
statistics that no bound depends on (extremes, sums, lengths, histograms) are left out.
-/

namespace Stillflow.Engine

open Stillflow.Core Stillflow.Plan Lib.Fallible Lib.SelfDelimiting

def profileMaxRows : Nat := 1048576

def profileMaxScanBytes : Nat := 536870912

def profileMaxColumns : Nat := 256

def profileMaxDistinctEntriesPerColumn : Nat := 100000

def profileMaxFullRowDistinctEntries : Nat := 100000

def profileStateByteBudget : Nat := 64 * 1024 * 1024

/-- A batch by its rows, one cell for each field. A cell of a list or struct column is only
asked for its validity. -/
structure ProfileEnvelope where
  schema : LogicalSchema
  sequence : Nat
  byteCount : Nat
  rows : List (List AnyValue)

inductive ProfileColumns where
  | all
  | explicit (names : List String)

/-- A column of the profile: its position in the batch, type and name. -/
structure ResolvedColumn where
  index : Nat
  logical : LogicalType
  name : String

def ResolvedColumn.cell (column : ResolvedColumn) (row : List AnyValue) : AnyValue :=
  row.getD column.index .null

def resolveColumn (schema : LogicalSchema) (name : String) : Except EngineError ResolvedColumn :=
  match schema.fields.zipIdx.find? fun field => field.1.name = name with
  | some (field, index) => .ok ⟨index, field.dataType, field.name⟩
  | none => .error (.invalidPlan "profile column not found in schema")

def resolveColumns (schema : LogicalSchema) :
    ProfileColumns → Except EngineError (List ResolvedColumn)
  | .all => .ok (schema.fields.zipIdx.map fun (field, index) => ⟨index, field.dataType, field.name⟩)
  | .explicit names => names.mapM (resolveColumn schema)

/-- Array validity: an array of the null type has no validity buffer. -/
def isNullAt (logical : LogicalType) (cell : AnyValue) : Bool := logical ≠ .null && cell = .null

inductive ColumnState where
  | skipped
  | boolean
  | integer
  | float
  | date
  | timestamp
  | text
  | binary
  deriving DecidableEq

def columnStateFor : LogicalType → ColumnState
  | .boolean => .boolean
  | .int8 | .int16 | .int32 | .int64 | .uint8 | .uint16 | .uint32 | .uint64 => .integer
  | .float32 | .float64 => .float
  | .date32 => .date
  | .timestamp .second _ => .skipped
  | .timestamp _ _ => .timestamp
  | .utf8 => .text
  | .binary => .binary
  | .null | .list _ | .struct _ => .skipped

structure ColumnRuntime where
  state : ColumnState
  nullCount : Nat
  distinct : List AnyValue
  distinctOverflow : Bool
  stateBytes : Nat

/-- The distinct key of a value and what keeping it costs. The values of one column have one type,
so integers need no widening to be told apart. -/
def distinctEntry : ColumnState → AnyValue → Option (AnyValue × Nat)
  | .integer, .int8 v => some (.int8 v, 24)
  | .integer, .int16 v => some (.int16 v, 24)
  | .integer, .int32 v => some (.int32 v, 24)
  | .integer, .int64 v => some (.int64 v, 24)
  | .integer, .uint8 v => some (.uint8 v, 24)
  | .integer, .uint16 v => some (.uint16 v, 24)
  | .integer, .uint32 v => some (.uint32 v, 24)
  | .integer, .uint64 v => some (.uint64 v, 24)
  | .float, .float32 bits => some (.float32 (canonicalFloat32Bits bits), 16)
  | .float, .float64 bits => some (.float64 (canonicalFloat64Bits bits), 16)
  | .date, .date days => some (.date days, 12)
  | .timestamp, .datetime epoch unit timezone => some (.datetime epoch unit timezone, 16)
  | .text, .string text => some (.string text, (utf8Bytes text).length + 24)
  | .binary, .binary bytes => some (.binary bytes, bytes.length + 24)
  | _, _ => none

/-- The families whose distinct values are dropped past the entry limit. -/
def ColumnState.capped : ColumnState → Bool
  | .integer | .float | .text | .binary => true
  | .skipped | .boolean | .date | .timestamp => false

def distinctStateExceeded : EngineError :=
  .boundExceeded "profile retained distinct state exceeded the deterministic memory budget"

namespace ColumnRuntime

def observeCell (column : ColumnRuntime) (cell : AnyValue) : Except EngineError ColumnRuntime :=
  match distinctEntry column.state cell with
  | none => .ok column
  | some (key, cost) =>
    if key ∈ column.distinct then .ok column
    else do
      require (column.stateBytes + cost ≤ profileStateByteBudget) distinctStateExceeded
      return { column with
        distinct := key :: column.distinct, stateBytes := column.stateBytes + cost }

def closeBatch (column : ColumnRuntime) : ColumnRuntime :=
  if column.state.capped ∧ profileMaxDistinctEntriesPerColumn < column.distinct.length then
    { column with distinct := [], distinctOverflow := true, stateBytes := 0 }
  else column

def observe (column : ColumnRuntime) (resolved : ResolvedColumn) (rows : List (List AnyValue)) :
    Except EngineError ColumnRuntime := do
  let cells := rows.map resolved.cell
  let counted := { column with
    nullCount := column.nullCount + cells.countP (isNullAt resolved.logical) }
  let observed ← cells.foldlM observeCell counted
  return observed.closeBatch

end ColumnRuntime

def profileKeyMismatch : EngineError := .internal "profile key component type mismatch"

/-- The key value of an Arrow cell. The zone of a timestamp is not carried over. -/
def arrowKeyValue (logical : LogicalType) (cell : AnyValue) : Except EngineError KeyValue :=
  match logical, cell with
  | _, .null => .ok .null
  | .boolean, .boolean v => .ok (.boolean v)
  | .int8, .int8 v => .ok (.int8 v)
  | .int16, .int16 v => .ok (.int16 v)
  | .int32, .int32 v => .ok (.int32 v)
  | .int64, .int64 v => .ok (.int64 v)
  | .uint8, .uint8 v => .ok (.uint8 v)
  | .uint16, .uint16 v => .ok (.uint16 v)
  | .uint32, .uint32 v => .ok (.uint32 v)
  | .uint64, .uint64 v => .ok (.uint64 v)
  | .float32, .float32 bits => .ok (.float32 bits)
  | .float64, .float64 bits => .ok (.float64 bits)
  | .utf8, .string text => .ok (.utf8Owned text)
  | .binary, .binary bytes => .ok (.binary bytes)
  | .date32, .date days => .ok (.date32 days)
  | .timestamp unit _, .datetime epoch arrowUnit _ =>
    if arrowUnit = .second then
      .error (.internal "timestamp-second keys have no v1 canonical encoding")
    else .ok (.timestamp epoch unit none)
  | _, _ => .error profileKeyMismatch

/-- A `Timestamp(Second)` component: a reserved tag and the big-endian epoch. -/
def encodeSecond (cell : AnyValue) (key : KeyBytes) : Except EngineError KeyBytes :=
  match cell with
  | .null => key.push 0x00
  | .datetime epoch .second _ => do
    let key ← key.push 0xFF
    key.extendFromSlice (leBytes 8 epoch.toUInt64.toNat).reverse
  | _ => .error (.internal "profile key timestamp-second read failed")

def encodeCell (logical : LogicalType) (cell : AnyValue) (key : KeyBytes) :
    Except EngineError KeyBytes :=
  match logical with
  | .null => key.push 0x00
  | .timestamp .second _ => encodeSecond cell key
  | logical => do
    let value ← arrowKeyValue logical cell
    encodeComponent logical value key

def LogicalType.isNested : LogicalType → Bool
  | .list _ | .struct _ => true
  | _ => false

/-- The key of a row, or `none` when a list or struct column is reached. -/
def rowKey : List (LogicalType × AnyValue) → KeyBytes → Except EngineError (Option KeyBytes)
  | [], key => .ok (some key)
  | (logical, cell) :: rest, key =>
    if LogicalType.isNested logical then .ok none
    else do
      let key ← encodeCell logical cell key
      rowKey rest key

structure FullRowState where
  keys : List KeyBytes
  bytes : Nat
  overflow : Bool

namespace FullRowState

def overflowed : FullRowState := ⟨[], 0, true⟩

def insert (state : FullRowState) (key : KeyBytes) : FullRowState :=
  if key ∈ state.keys then state
  else
    let bytes := state.bytes + (key.length + 24)
    if profileMaxFullRowDistinctEntries < state.keys.length + 1 ∨ profileStateByteBudget < bytes
    then overflowed
    else ⟨key :: state.keys, bytes, state.overflow⟩

def observeRow (columns : List ResolvedColumn) (state : FullRowState) (row : List AnyValue) :
    Except EngineError FullRowState :=
  if state.overflow then .ok state
  else do
    match ← rowKey (columns.map fun column => (column.logical, column.cell row)) [] with
    | none => return overflowed
    | some key => return state.insert key

def observe (columns : List ResolvedColumn) (state : FullRowState) (rows : List (List AnyValue)) :
    Except EngineError FullRowState :=
  rows.foldlM (observeRow columns) state

end FullRowState

structure ProfileRun where
  rowCountScanned : Nat
  scannedBytes : Nat
  truncated : Bool
  columns : List ColumnRuntime
  fullRow : FullRowState

namespace ProfileRun

def initial (resolved : List ResolvedColumn) : ProfileRun where
  rowCountScanned := 0
  scannedBytes := 0
  truncated := false
  columns := resolved.map fun column => ⟨columnStateFor column.logical, 0, [], false, 0⟩
  fullRow := ⟨[], 0, false⟩

/-- The rows of an envelope below the row bound. -/
def view (run : ProfileRun) (envelope : ProfileEnvelope) : List (List AnyValue) :=
  if profileMaxRows < run.rowCountScanned + envelope.rows.length then
    envelope.rows.take (profileMaxRows - run.rowCountScanned)
  else envelope.rows

/-- An admitted envelope: its columns, its rows, then the counters. -/
def admitEnvelope (resolved : List ResolvedColumn) (run : ProfileRun) (envelope : ProfileEnvelope) :
    Except EngineError ProfileRun := do
  let rows := run.view envelope
  let columns ← (run.columns.zip resolved).mapM fun (column, resolved) =>
    column.observe resolved rows
  let fullRow ← run.fullRow.observe resolved rows
  return {
    rowCountScanned := run.rowCountScanned + rows.length
    scannedBytes := run.scannedBytes + envelope.byteCount
    truncated := run.truncated ||
      profileMaxRows < run.rowCountScanned + envelope.rows.length
    columns, fullRow }

def scan (schema : LogicalSchema) (resolved : List ResolvedColumn) :
    List ProfileEnvelope → ProfileRun → Except EngineError ProfileRun
  | [], run => .ok run
  | envelope :: rest, run =>
    if profileMaxScanBytes < run.scannedBytes + envelope.byteCount then
      .ok { run with truncated := true }
    else if envelope.schema ≠ schema then .error (.schemaDrift envelope.sequence)
    else do
      let next ← run.admitEnvelope resolved envelope
      if (run.view envelope).length < envelope.rows.length then .ok next
      else scan schema resolved rest next

end ProfileRun

inductive ProfileColumnStatus where
  | profiled
  | skippedUnsupportedType
  deriving DecidableEq

structure ColumnProfile where
  name : String
  status : ProfileColumnStatus
  nullCount : Nat
  nonNullCount : Nat
  distinctOverflow : Bool
  deriving DecidableEq

structure DatasetMetrics where
  rowCountScanned : Nat
  scannedBytes : Nat
  truncated : Bool
  distinctRowCount : Option Nat
  duplicateRowCount : Option Nat
  deriving DecidableEq

structure DatasetProfile where
  dataset : DatasetMetrics
  columns : List ColumnProfile
  deriving DecidableEq

def ProfileRun.finish (resolved : List ResolvedColumn) (run : ProfileRun) : DatasetProfile where
  dataset :=
    let distinct := if run.fullRow.overflow then none else some run.fullRow.keys.length
    { rowCountScanned := run.rowCountScanned
      scannedBytes := run.scannedBytes
      truncated := run.truncated
      distinctRowCount := distinct
      duplicateRowCount := distinct.map (run.rowCountScanned - ·) }
  columns := (run.columns.zip resolved).map fun (column, resolved) =>
    { name := resolved.name
      status := if column.state = .skipped then .skippedUnsupportedType else .profiled
      nullCount := column.nullCount
      nonNullCount := run.rowCountScanned - column.nullCount
      distinctOverflow := column.distinctOverflow }

def profileBatches (schema : LogicalSchema) (columns : ProfileColumns)
    (stream : List ProfileEnvelope) : Except EngineError DatasetProfile := do
  let resolved ← resolveColumns schema columns
  require (resolved.length ≤ profileMaxColumns)
    (EngineError.boundExceeded "profile resolved column count exceeds PROFILE_MAX_COLUMNS")
  let run ← (ProfileRun.initial resolved).scan schema resolved stream
  return run.finish resolved

end Stillflow.Engine
