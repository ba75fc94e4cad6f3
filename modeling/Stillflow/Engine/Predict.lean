import Stillflow.Engine.Verification
import Stillflow.Lib.Bisect

/-!
The chunk predictor: an upper estimate of the memory that the steps of a plan need on a slice of a
payload, and the search for the longest slice that fits a batch.
-/

namespace Stillflow.Engine

open Stillflow.Core Stillflow.Plan Lib Lib.Fallible

def maxBoolUtf8Bytes : Nat := 5

def maxIntUtf8Bytes : Nat := 20

def maxFloatUtf8Bytes : Nat := 32

def utf8ViewSlotBytes : Nat := 16

def utf8OffsetSlotBytes : Nat := 4

def divCeil (n d : Nat) : Nat := (n + d - 1) / d

def fixedSlotBytes : LogicalType → Option Nat
  | .null => some 0
  | .boolean | .int8 | .uint8 => some 1
  | .int16 | .uint16 => some 2
  | .int32 | .uint32 | .float32 | .date32 => some 4
  | .int64 | .uint64 | .float64 | .timestamp _ _ => some 8
  | .utf8 | .binary | .list _ | .struct _ => none

/-- One entry of an offset-based array: the length of its range and its validity bit. The range of
a null entry need not be empty. -/
structure ArraySlot where
  length : Nat
  valid : Bool
  deriving DecidableEq

inductive VariableLayout where
  | utf8
  | largeUtf8
  | binary
  | largeBinary
  deriving DecidableEq

/-- What the predictor reads of an Arrow array. `first` is the first offset of a list array into its
values. -/
inductive ArrowArray where
  | bytes (layout : VariableLayout) (slots : List ArraySlot)
  | list (first : Nat) (slots : List ArraySlot) (values : ArrowArray)
  | struct (valid : List Bool) (columns : List ArrowArray)
  | other (valid : List Bool)

namespace ArrowArray

def length : ArrowArray → Nat
  | bytes _ slots | list _ slots _ => slots.length
  | struct valid _ | other valid => valid.length

def nullCount : ArrowArray → Nat
  | bytes _ slots | list _ slots _ => slots.countP fun slot => !slot.valid
  | struct valid _ | other valid => valid.countP fun bit => !bit

/-- `WidthSource::width_at`: a null entry and an unlisted array type have width zero. -/
def widthAt (array : ArrowArray) (index : Nat) : Nat :=
  match array with
  | bytes _ slots => (slots[index]?.map fun slot => if slot.valid then slot.length else 0).getD 0
  | _ => 0

end ArrowArray

/-- The end of entry `i` of an offset buffer that starts at zero. -/
def offsetAt (slots : List ArraySlot) (i : Nat) : Nat := ((slots.take i).map ArraySlot.length).sum

def sliceEnd (array : ArrowArray) (offset k : Nat) : Nat :=
  min (saturatingAdd offset k) array.length

/-- The row positions of a slice. -/
def sliceRows (array : ArrowArray) (offset k : Nat) : List Nat :=
  List.range' offset (sliceEnd array offset k - offset)

def maxVariableWidth (array : ArrowArray) (offset k : Nat) (dataType : LogicalType) : Nat :=
  if (fixedSlotBytes dataType).isSome then 0
  else (sliceRows array offset k).foldl (fun width row => max width (array.widthAt row)) 0

/-- Text arrays are measured by their offsets, the others entry by entry. -/
def variableDataBytes (array : ArrowArray) (offset k : Nat) : Nat :=
  match array with
  | .bytes .utf8 slots =>
    if k = 0 ∨ sliceEnd array offset k ≤ offset then 0
    else offsetAt slots (sliceEnd array offset k) - offsetAt slots offset
  | _ => (sliceRows array offset k).foldl
      (fun total row => saturatingAdd total (array.widthAt row)) 0

def utf8PhysicalBytes (k dataBytes : Nat) : Nat :=
  saturatingAdd
    (saturatingAdd (saturatingAdd dataBytes (saturatingMul k utf8ViewSlotBytes))
      (saturatingMul (saturatingAdd k 1) utf8OffsetSlotBytes))
    (divCeil k 8)

def fixedPhysicalBytes (k slot : Nat) : Nat := saturatingAdd (saturatingMul k slot) (divCeil k 8)

mutual

def nestedOrVariableBytes (array : ArrowArray) (offset k : Nat) (dataType : LogicalType) :
    Except Fault Nat :=
  match fixedSlotBytes dataType with
  | some slot => .ok (fixedPhysicalBytes k slot)
  | none =>
    match dataType, array with
    | .list inner, .list first slots values => do
      -- `offsets[offset]`; the end of the slice is within the array
      require (offset ≤ slots.length) .panic
      let childStart := first + offsetAt slots offset
      let childEnd := first + offsetAt slots (min (saturatingAdd offset k) slots.length)
      let child ← nestedOrVariableBytes values childStart (childEnd - childStart) inner
      return saturatingAdd (saturatingAdd (divCeil k 8) (saturatingMul (saturatingAdd k 1) 4)) child
    | .list _, _ => .error (.error .ffi)
    | .struct fields, .struct _ columns => structBytes columns offset k fields (divCeil k 8)
    | .struct _, _ => .error (.error .ffi)
    | _, array => .ok (utf8PhysicalBytes k (variableDataBytes array offset k))

/-- The loop of `struct_physical_bytes` over the fields and the child arrays. -/
def structBytes : List ArrowArray → Nat → Nat → List LogicalField → Nat → Except Fault Nat
  | child :: columns, offset, k, field :: fields, total => do
    let bytes ← nestedOrVariableBytes child offset k field.dataType
    structBytes columns offset k fields (saturatingAdd total bytes)
  | _, _, _, _, total => .ok total

end

def sliceValidityBytes (array : Option ArrowArray) (offset k : Nat) : Nat :=
  match array with
  | none => divCeil k 8
  | some array => if array.nullCount = 0 ∧ offset = 0 then 0 else divCeil k 8

inductive ColumnOrigin where
  | source (ordinal : Nat)
  | derived
  deriving DecidableEq

structure PredictedColumn where
  id : ColumnId
  name : String
  dataType : LogicalType
  nullable : Bool
  maxValueBytes : Nat
  origin : ColumnOrigin

structure PredictedSchema where
  columns : List PredictedColumn

namespace PredictedSchema

def fromScanOutput (schema : LogicalSchema) : PredictedSchema :=
  ⟨schema.fields.zipIdx.map fun entry =>
    ⟨entry.1.id, entry.1.name, entry.1.dataType, entry.1.nullable, 0, .source entry.2⟩⟩

def toLogicalSchema (schema : PredictedSchema) : Except Fault LogicalSchema := do
  let fields ← schema.columns.mapM fun column =>
    (LogicalField.new column.id column.name column.dataType column.nullable).mapError fun _ =>
      Fault.error (.internal "invalid field in predicted schema")
  (LogicalSchema.new fields).mapError fun _ => .error (.internal "invalid predicted schema")

def column (schema : PredictedSchema) (id : ColumnId) : Except Fault PredictedColumn :=
  match schema.columns.find? fun column => column.id == id with
  | some column => .ok column
  | none => .error (.error (.unknownColumn id))

def editFirst (id : ColumnId) (edit : PredictedColumn → PredictedColumn) :
    List PredictedColumn → List PredictedColumn
  | [] => []
  | column :: columns =>
    if column.id = id then edit column :: columns else column :: editFirst id edit columns

def update (schema : PredictedSchema) (id : ColumnId) (edit : PredictedColumn → PredictedColumn) :
    Except Fault PredictedSchema := do
  let _ ← schema.column id
  return ⟨editFirst id edit schema.columns⟩

end PredictedSchema

section Slice

variable (arrays : List ArrowArray) (offset k : Nat)

def refreshColumn (column : PredictedColumn) : Except Fault PredictedColumn :=
  match column.origin with
  | .source ordinal =>
    match arrays[ordinal]? with
    | some array =>
      .ok { column with maxValueBytes := maxVariableWidth array offset k column.dataType }
    | none => .error (.error .ffi)
  | .derived => .ok column

def refreshSourceWidths (schema : PredictedSchema) : Except Fault PredictedSchema := do
  let columns ← schema.columns.mapM (refreshColumn arrays offset k)
  return ⟨columns⟩

def columnPhysicalBytes (column : PredictedColumn) : Except Fault Nat :=
  match column.origin, fixedSlotBytes column.dataType with
  | .source ordinal, some slot =>
    .ok (max (fixedPhysicalBytes k slot) (sliceValidityBytes arrays[ordinal]? offset k))
  | .source ordinal, none =>
    match arrays[ordinal]? with
    | some array => nestedOrVariableBytes array offset k column.dataType
    | none => .error (.error .ffi)
  | .derived, some slot => .ok (fixedPhysicalBytes k slot)
  | .derived, none => .ok (utf8PhysicalBytes k (saturatingMul k column.maxValueBytes))

def columnPhysicalSum (schema : PredictedSchema) : Except Fault Nat :=
  schema.columns.foldlM
    (fun total column => do
      let bytes ← columnPhysicalBytes arrays offset k column
      return saturatingAdd total bytes)
    0

mutual

def expressionMaxValueBytes (working : PredictedSchema) (dataType : LogicalType)
    (expression : Expr) : Except Fault Nat :=
  if (fixedSlotBytes dataType).isSome then .ok 0
  else
    match expression with
    | .literal (.utf8 value) => .ok (byteLen value)
    | .literal _ => .ok 0
    | .column id => do
      let column ← working.column id
      return column.maxValueBytes
    | .cast inner .utf8 => do
      let schema ← working.toLogicalSchema
      let sourceType ← checked (typeCheckExpr inner schema)
      match sourceType with
      | .boolean => return maxBoolUtf8Bytes
      | .float32 | .float64 => return maxFloatUtf8Bytes
      | .date32 | .timestamp _ _ =>
        .error (.error (.typeError "cast from date32 or timestamp to utf8 is paused"))
      | _ => return maxIntUtf8Bytes
    | .cast _ _ => .ok 0
    | .coalesce expressions => armsMaxValueBytes working dataType expressions 0
    | _ => .ok 0

def armsMaxValueBytes (working : PredictedSchema) (dataType : LogicalType) :
    List Expr → Nat → Except Fault Nat
  | [], width => .ok width
  | arm :: arms, width => do
    let next ← expressionMaxValueBytes working dataType arm
    armsMaxValueBytes working dataType arms (max width next)

end

/-- Bytes a column of this type and width is computed into. -/
def temporaryBytes (dataType : LogicalType) (maxValueBytes : Nat) : Nat :=
  match fixedSlotBytes dataType with
  | some slot => fixedPhysicalBytes k slot
  | none => utf8PhysicalBytes k (saturatingMul k maxValueBytes)

/-- As `temporaryBytes` for a literal of a fixed type; other types are not charged. -/
def fixedTemporaryBytes (dataType : LogicalType) : Nat :=
  match fixedSlotBytes dataType with
  | some slot => fixedPhysicalBytes k slot
  | none => 0

/-- Memory during a step, memory after it, and the schema after it. -/
abbrev Prediction := Nat × Nat × PredictedSchema

def remeasured (temporary : Nat) (next : PredictedSchema) : Except Fault Prediction := do
  let liveAfter ← columnPhysicalSum arrays offset k next
  return (temporary, liveAfter, next)

def predictText (working : PredictedSchema) (column : ColumnId) (message : String) :
    Except Fault Prediction := do
  let current ← working.column column
  require (current.dataType = .utf8) (Fault.error (.typeError message))
  let next ← working.update column fun c => { c with origin := .derived }
  remeasured arrays offset k
    (utf8PhysicalBytes k (saturatingMul k current.maxValueBytes)) next

def castWidth (source target : LogicalType) (width : Nat) : Nat :=
  match target, source with
  | .utf8, .boolean => max width maxBoolUtf8Bytes
  | .utf8, .float32 | .utf8, .float64 => max width maxFloatUtf8Bytes
  | .utf8, .utf8 => width
  | .utf8, _ => max width maxIntUtf8Bytes
  | _, _ => 0

def isDateOrTimestampToUtf8 : LogicalType → LogicalType → Bool
  | .date32, .utf8 | .timestamp _ _, .utf8 => true
  | _, _ => false

/-- The column after a cast or a temporal parse. -/
def recast (dataType : LogicalType) (onFailure : CastFailurePolicy) (width : Nat → Nat)
    (column : PredictedColumn) : PredictedColumn :=
  { column with
    origin := .derived
    dataType := dataType
    nullable := onFailure == .setNull || column.nullable
    maxValueBytes := width column.maxValueBytes }

def predictRule (working : PredictedSchema) (liveBefore : Nat) : Rule → Except Fault Prediction
  | .rename column target => do
    let next ← working.update column fun c => { c with name := target }
    return (0, liveBefore, next)
  | .dropColumn column =>
    remeasured arrays offset k 0 ⟨working.columns.filter fun c => c.id != column⟩
  | .trim column => predictText arrays offset k working column "trim requires a utf8 column"
  | .normalizeText column _ =>
    predictText arrays offset k working column "text normalization requires a utf8 column"
  | .deriveColumn id name dataType nullable expression => do
    require (working.columns.any (fun c => c.id == id || c.name == name) = false)
      (Fault.error (.invalidPlan "derived column id or name is not unique"))
    let width ← expressionMaxValueBytes working dataType expression
    let column : PredictedColumn := ⟨id, name, dataType, nullable, width, .derived⟩
    let temporary ← columnPhysicalBytes arrays offset k column
    return (temporary, saturatingAdd liveBefore temporary, ⟨working.columns ++ [column]⟩)
  | .replaceLiteral column _ target => do
    let current ← working.column column
    match target, current.dataType with
    | .null, _ => do
      let next ← working.update column fun c => { c with origin := .derived, nullable := true }
      remeasured arrays offset k (divCeil k 8) next
    | .utf8 value, .utf8 => do
      let width := max current.maxValueBytes (byteLen value)
      let next ← working.update column fun c =>
        { c with origin := .derived, maxValueBytes := max c.maxValueBytes (byteLen value) }
      remeasured arrays offset k (utf8PhysicalBytes k (saturatingMul k width)) next
    | .utf8 _, _ | _, .binary =>
      .error (.error (.typeError "replace literal is not authorized for this type"))
    | _, _ => do
      let next ← working.update column fun c => { c with origin := .derived }
      remeasured arrays offset k (fixedTemporaryBytes k current.dataType) next
  | .fillNull column value => do
    let current ← working.column column
    match value, current.dataType with
    | .null, _ => .error (.error (.typeError "fill-null value must not be null"))
    | _, .binary => .error (.error (.typeError "fill-null is not authorized on binary"))
    | .utf8 value, .utf8 => do
      let width := max current.maxValueBytes (byteLen value)
      let next ← working.update column fun c =>
        { c with
          origin := .derived, nullable := false
          maxValueBytes := max c.maxValueBytes (byteLen value) }
      remeasured arrays offset k (utf8PhysicalBytes k (saturatingMul k width)) next
    | _, _ => do
      let next ← working.update column fun c => { c with origin := .derived, nullable := false }
      remeasured arrays offset k (fixedTemporaryBytes k current.dataType) next
  | .cast column dataType onFailure => do
    let current ← working.column column
    require (isDateOrTimestampToUtf8 current.dataType dataType = false)
      (Fault.error (.typeError "cast from date32 or timestamp to utf8 is paused"))
    require (current.dataType = .binary ↔ dataType = .binary)
      (Fault.error (.typeError "cast to/from binary is not authorized"))
    let width := castWidth current.dataType dataType
    let next ← working.update column (recast dataType onFailure width)
    remeasured arrays offset k (temporaryBytes k dataType (width current.maxValueBytes)) next
  | .parseTemporal column dataType onFailure _ => do
    let current ← working.column column
    require (current.dataType = .utf8)
      (Fault.error (.typeError "temporal parsing requires a utf8 column"))
    let next ← working.update column (recast dataType onFailure fun _ => 0)
    remeasured arrays offset k (temporaryBytes k dataType 0) next
  | .filterRows _ => return (liveBefore, liveBefore, working)
  | .validate _ _ _ => .error (.error (.unsupportedRule 0 "validate"))
  | .deduplicate _ => .error (.error (.unsupportedRule 0 "deduplicate"))

def projectPredicted (columns : List ColumnId) (schema : PredictedSchema) : PredictedSchema :=
  ⟨(schema.columns.filter fun c => columns.contains c.id).insertionSort
    fun a b => columns.idxOf a.id ≤ columns.idxOf b.id⟩

/-- The running peak, the memory now, and the schema now. -/
structure Probe where
  peak : Nat
  live : Nat
  working : PredictedSchema

def Probe.advance (probe : Probe) (prediction : Prediction) : Probe where
  peak := max probe.peak
    (saturatingAdd (saturatingAdd probe.live prediction.1) prediction.2.1)
  live := prediction.2.1
  working := prediction.2.2

def probeRule (probe : Probe) (rule : Rule) : Except Fault Probe := do
  let prediction ← predictRule arrays offset k probe.working probe.live rule
  return probe.advance prediction

def predictStep (working : PredictedSchema) (liveBefore : Nat) :
    CompiledStep → Except Fault Prediction
  | .project columns => remeasured arrays offset k 0 (projectPredicted columns working)
  | .filter _ | .sort _ => return (liveBefore, liveBefore, working)
  | .rules _ => .error (.error (.internal "apply-rules must be expanded per rule in predict"))

def probeStep (probe : Probe) (step : CompiledStep) : Except Fault Probe :=
  match step with
  | .rules rules => rules.foldlM (probeRule arrays offset k) probe
  | step => do
    let prediction ← predictStep arrays offset k probe.working probe.live step
    return probe.advance prediction

/-- Peak, converted columns and columns still to convert while a frame is exported. -/
structure Transition where
  peak : Nat
  finished : Nat
  remaining : Nat

def transitionColumn (transition : Transition) (column : PredictedColumn) :
    Except Fault Transition := do
  let bytes ← columnPhysicalBytes arrays offset k column
  let remaining := transition.remaining - bytes
  let current := saturatingAdd (saturatingAdd remaining transition.finished) (saturatingMul bytes 2)
  return ⟨max transition.peak current, saturatingAdd transition.finished bytes, remaining⟩

def predictExportTransition (schema : PredictedSchema) : Except Fault Nat := do
  let total ← columnPhysicalSum arrays offset k schema
  let transition ← schema.columns.foldlM (transitionColumn arrays offset k) ⟨total, 0, total⟩
  return max transition.peak transition.finished

end Slice

def predict (k offset : Nat) (arrays : List ArrowArray) (schema : PredictedSchema)
    (steps : List CompiledStep) : Except Fault Nat :=
  if k = 0 then .ok 0
  else do
    let working ← refreshSourceWidths arrays offset k schema
    let live ← columnPhysicalSum arrays offset k working
    let probe ← steps.foldlM (probeStep arrays offset k) ⟨live, live, working⟩
    let transition ← predictExportTransition arrays offset k probe.working
    return max probe.peak transition

def feasible (offset : Nat) (arrays : List ArrowArray) (schema : PredictedSchema)
    (steps : List CompiledStep) (k : Nat) : Except Fault Bool := do
  let bytes ← predict k offset arrays schema steps
  return decide (bytes ≤ maxBatchBytes)

def largestFeasibleK (rowCount offset : Nat) (arrays : List ArrowArray) (schema : PredictedSchema)
    (steps : List CompiledStep) : Except Fault Nat :=
  if rowCount - offset = 0 then .ok 0
  else do
    let single ← feasible offset arrays schema steps 1
    require (single = true)
      (Fault.error (.boundExceeded "single-row predicted expansion exceeds MAX_BATCH_BYTES"))
    bisect (feasible offset arrays schema steps) 1 (rowCount - offset)

end Stillflow.Engine
