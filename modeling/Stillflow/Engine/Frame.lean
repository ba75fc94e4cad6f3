import Stillflow.Engine.PolarsExpr
import Stillflow.Lib.Mask
import Stillflow.Plan.LogicalPlan

/-!
Dataframes by rows, and the rule lowering of the engine over them. The library's evaluator is a
parameter: the value of an expression on a row is a function of the cells it refers to.
-/

namespace Stillflow.Engine

open Stillflow.Core Stillflow.Plan Lib.Fallible Lib.Mask

/-- A cell. Floats are their bits, dates days since the epoch. -/
inductive AnyValue where
  | null
  | boolean (value : Bool)
  | int8 (value : Int8)
  | int16 (value : Int16)
  | int32 (value : Int32)
  | int64 (value : Int64)
  | uint8 (value : UInt8)
  | uint16 (value : UInt16)
  | uint32 (value : UInt32)
  | uint64 (value : UInt64)
  | float32 (bits : UInt32)
  | float64 (bits : UInt64)
  | string (text : String)
  | stringOwned (text : String)
  | binary (bytes : List UInt8)
  | date (days : Int32)
  | datetime (epoch : Int64) (unit : TimeUnit) (timezone : Option String)
  /-- A list or a struct, by its bytes. -/
  | nested (dataType : LogicalType) (bytes : List UInt8)
  deriving DecidableEq

abbrev Row := List (String × AnyValue)

structure Frame where
  names : List String
  rows : List Row
  deriving DecidableEq

def Frame.height (frame : Frame) : Nat := frame.rows.length

/-- An Arrow batch, likewise by its rows. -/
abbrev RecordBatch := Frame

/-- What the engine uses of the dataframe library. -/
structure Polars where
  zones : TimeZones
  /-- The value of an expression, given the values of its column references in order. -/
  eval : PolarsExpr → List AnyValue → Option AnyValue
  /-- Whether a one-row column added to an empty frame is cleared rather than refused. -/
  clearsMask : Bool
  estimatedSize : Frame → Nat
  arrayMemorySize : RecordBatch → Nat

namespace Polars

variable (polars : Polars)

def value (e : PolarsExpr) (row : Row) : Option AnyValue := do
  polars.eval e (← e.columns.mapM fun name => row.lookup name)

/-- `select([e])`: one value per row, or a single value when no column is referred to. -/
def select (e : PolarsExpr) (frame : Frame) : Option (List AnyValue) :=
  if e.columns = [] then (polars.eval e []).map fun v => [v]
  else if e.columns.all (frame.names.contains ·) then frame.rows.mapM (polars.value e)
  else none

end Polars

/-- A cell of a Boolean column. -/
def asBoolean : AnyValue → Option (Option Bool)
  | .null => some none
  | .boolean value => some (some value)
  | _ => none

/-- What a rule does to a frame once its names and expressions are lowered. -/
inductive FrameEdit where
  | rename (source target : String)
  | dropColumn (name : String)
  | withColumn (name : String) (e : PolarsExpr)
  | fullColumn (name : String) (value : AnyValue)
  | filter (predicate : PolarsExpr)

/-- Replace the cell of a column, or append it. -/
def setCell (name : String) (value : AnyValue) : Row → Row
  | [] => [(name, value)]
  | cell :: row => if cell.1 = name then (name, value) :: row else cell :: setCell name value row

def renameCell (source target : String) (row : Row) : Row :=
  row.map fun cell => if cell.1 = source then (target, cell.2) else cell

def dropCell (name : String) (row : Row) : Row := row.filter fun cell => cell.1 ≠ name

/-- The rows of an edit other than a filter. -/
def FrameEdit.row (polars : Polars) (edit : FrameEdit) (row : Row) : Option Row :=
  match edit with
  | .rename source target => some (renameCell source target row)
  | .dropColumn name => some (dropCell name row)
  | .withColumn name e => (polars.value e row).map fun v => setCell name v row
  | .fullColumn name v => some (setCell name v row)
  | .filter _ => some row

/-- The column names after an edit; a missing or repeated name is refused. -/
def FrameEdit.names (edit : FrameEdit) (names : List String) : Option (List String) :=
  match edit with
  | .rename source target =>
    if source ∈ names ∧ (target = source ∨ target ∉ names) then
      some (names.map fun name => if name = source then target else name)
    else none
  | .dropColumn name => if name ∈ names then some (names.filter fun n => n ≠ name) else none
  | .withColumn name e =>
    if e.columns.all (names.contains ·) then
      some (if name ∈ names then names else names ++ [name])
    else none
  | .fullColumn name _ => some (if name ∈ names then names else names ++ [name])
  | .filter e => if e.columns.all (names.contains ·) then some names else none

/-- Whether a row passes a filter. -/
def FrameEdit.keeps (polars : Polars) (edit : FrameEdit) (row : Row) : Option Bool :=
  match edit with
  | .filter predicate => do
    let outcome ← asBoolean (← polars.value predicate row)
    return outcome == some true
  | _ => some true

def Frame.edit (polars : Polars) (frame : Frame) (edit : FrameEdit) : Option Frame := do
  let names ← edit.names frame.names
  let mask ← frame.rows.mapM (edit.keeps polars)
  let rows ← (keep mask frame.rows).mapM (edit.row polars)
  return ⟨names, rows⟩

def Frame.selectColumns (frame : Frame) (names : List String) : Option Frame := do
  guard (names.all (frame.names.contains ·) = true)
  let rows ← frame.rows.mapM fun row => names.mapM fun name => (row.lookup name).map (name, ·)
  return ⟨names, rows⟩

/-- Text literals of derived columns, filled in at export. -/
abbrev Deferred := List (String × ScalarValue)

def scalarValue : ScalarValue → AnyValue
  | .null => .null
  | .boolean value => .boolean value
  | .int64 value => .int64 value
  | .uint64 value => .uint64 value
  | .float64 value => .float64 value.bits
  | .utf8 value => .string value

/-- A text or NULL literal of a text column, whose value is filled in at export. -/
def deferredLiteral (dataType : LogicalType) (expression : Expr) : Option ScalarValue :=
  match dataType, expression with
  | .utf8, .literal (.utf8 text) => some (.utf8 text)
  | .utf8, .literal .null => some .null
  | _, _ => none

/-- The column a `DeriveColumn` adds. -/
def lowerDerived (zones : TimeZones) (schema : LogicalSchema) (name : String)
    (dataType : LogicalType) (expression : Expr) : Except EngineError FrameEdit :=
  match deferredLiteral dataType expression, expression with
  | some _, _ | none, .literal .null => do
    let _ ← polarsDataType zones dataType
    return .fullColumn name .null
  | none, .literal value => return .fullColumn name (scalarValue value)
  | none, _ => do
    let e ← lowerExpr zones schema expression
    let dtype ← polarsDataType zones dataType
    return .withColumn name (.cast e dtype false)

/-- The naive type a declared format is parsed to. -/
def parseType : PolarsType → PolarsType
  | .datetime unit _ => .datetime unit none
  | other => other

/-- The frame edit of a rule and the error its failure is reported as. -/
def lowerRule (zones : TimeZones) (schema : LogicalSchema) (rule : Rule) :
    Except EngineError (FrameEdit × EngineError) :=
  match rule with
  | .rename column target => do
    let source ← fieldName schema column
    return (.rename source target, .internal "rename failed")
  | .dropColumn column => do
    let name ← fieldName schema column
    return (.dropColumn name, .unknownColumn column)
  | .trim column => do
    let name ← fieldName schema column
    return (.withColumn name (.stripChars (.col name)), .typeError "trim failed")
  | .normalizeText column operation => do
    let name ← fieldName schema column
    return (.withColumn name (.normalizeText (.col name) operation),
      .typeError "text normalization failed")
  | .deriveColumn _ name dataType _ expression => do
    let edit ← lowerDerived zones schema name dataType expression
    return (edit, .typeError "derive-column failed")
  | .replaceLiteral column source target => do
    let name ← fieldName schema column
    let e := if source = .null then PolarsExpr.fillNull (.col name) (.lit target)
      else .whenThen (.binary (.col name) .equal (.lit source)) (.lit target) (.col name)
    return (.withColumn name e, .typeError "replace-literal failed")
  | .fillNull column value => do
    let name ← fieldName schema column
    return (.withColumn name (.fillNull (.col name) (.lit value)), .typeError "fill-null failed")
  | .cast column dataType onFailure => do
    let name ← fieldName schema column
    let dtype ← polarsDataType zones dataType
    return (.withColumn name (.cast (.col name) dtype (onFailure == .error)),
      .castFailure column 0 0)
  | .parseTemporal column dataType onFailure format => do
    let name ← fieldName schema column
    let target ← polarsDataType zones dataType
    return (.withColumn name (.strptime (.col name) (parseType target) format (onFailure == .error)),
      .castFailure column 0 0)
  | .filterRows predicate => do
    let e ← lowerExpr zones schema predicate
    return (.filter e, .typeError "filter-rows failed")
  | .validate _ _ _ => .error (.unsupportedRule 0 "validate")
  | .deduplicate _ => .error (.unsupportedRule 0 "deduplicate")

def ofOption {α : Type} (x : Option α) (e : EngineError) : Except EngineError α :=
  match x with
  | some a => .ok a
  | none => .error e

def renameColumn (schema : LogicalSchema) (id : ColumnId) (name : String) :
    Except LogicalError LogicalSchema :=
  match modifyColumn (fun field => { field with name := name }) id schema.fields with
  | none => .error (.unknownColumn id)
  | some fields => do
    let renamed := { schema with fields := fields }
    renamed.validate
    return renamed

/-- The deterministic choice between the ordinal index and a linear scan. -/
def authorizedLookup (schema : LogicalSchema) (served : Nat) : ColumnResolver :=
  if useIndex schema.fields.length served then
    let entries := buildOrdinals schema.fields
    fun id => (searchOrdinal entries id).bind (schema.fields[·]?)
  else schema.field

/-- The loop of `project_schema_with`. -/
def projectFields (lookup : ColumnResolver) : List ColumnId → List ColumnId →
    Except EngineError (List LogicalField)
  | [], _ => .ok []
  | id :: rest, seen => do
    require (id ∉ seen) (EngineError.invalidPlan "projection contains duplicate columns")
    let field ← ofOption (lookup id) (.unknownColumn id)
    let fields ← projectFields lookup rest (id :: seen)
    return field :: fields

def projectSchema (schema : LogicalSchema) (columns : List ColumnId) :
    Except EngineError LogicalSchema := do
  let fields ← projectFields (authorizedLookup schema columns.length) columns []
  (LogicalSchema.new fields).mapError fun _ => .invalidPlan "projected schema is invalid"

/-- The lowering's own working schema after a rule: only names and the field list follow it. -/
def loweredSchema (schema : LogicalSchema) (rule : Rule) : Except EngineError LogicalSchema :=
  match rule with
  | .rename column target =>
    (renameColumn schema column target).mapError fun _ => .unknownColumn column
  | .dropColumn column =>
    projectSchema schema ((schema.fields.filter (·.id != column)).map (·.id))
  | .deriveColumn id name dataType nullable _ => do
    let field ← (LogicalField.new id name dataType nullable).mapError fun _ =>
      EngineError.invalidPlan "derived field is invalid"
    (LogicalSchema.new (schema.fields ++ [field])).mapError fun _ =>
      .invalidPlan "derive produced an invalid schema"
  | _ => .ok schema

/-- The deferred literals after a rule. -/
def deferredAfter (schema : LogicalSchema) (deferred : Deferred) (rule : Rule) : Deferred :=
  match rule with
  | .rename column target =>
    match schema.field column with
    | some field => deferred.map fun entry =>
        if entry.1 = field.name then (target, entry.2) else entry
    | none => deferred
  | .dropColumn column =>
    match schema.field column with
    | some field => deferred.filter fun entry => entry.1 ≠ field.name
    | none => deferred
  | .deriveColumn _ name dataType _ expression =>
    match deferredLiteral dataType expression with
    | some value => deferred ++ [(name, value)]
    | none => deferred
  | _ => deferred

/-- A frame with the schema and the deferred literals that go with it. -/
structure Working where
  frame : Frame
  schema : LogicalSchema
  deferred : Deferred

def applyRule (polars : Polars) (working : Working) (rule : Rule) : Except EngineError Working := do
  let edit ← lowerRule polars.zones working.schema rule
  let frame ← ofOption (working.frame.edit polars edit.1) edit.2
  let schema ← loweredSchema working.schema rule
  return ⟨frame, schema, deferredAfter working.schema working.deferred rule⟩

inductive CompiledStep where
  | project (columns : List ColumnId)
  | filter (predicate : Expr)
  | rules (rules : List Rule)
  | sort (keys : List SortKey)

def namesFor (schema : LogicalSchema) (columns : List ColumnId) :
    Except EngineError (List String) :=
  columns.mapM (fieldName schema)

def transformStep (polars : Polars) (working : Working) (step : CompiledStep) :
    Except EngineError Working :=
  match step with
  | .project columns => do
    let names ← namesFor working.schema columns
    let frame ← ofOption (working.frame.selectColumns names) (.unknownColumn (columns.headD 0))
    let schema ← projectSchema working.schema columns
    return ⟨frame, schema, working.deferred.filter fun entry => entry.1 ∈ names⟩
  | .filter predicate => do
    let e ← lowerExpr polars.zones working.schema predicate
    let frame ← ofOption (working.frame.edit polars (.filter e))
      (.typeError "filter evaluation failed")
    return { working with frame := frame }
  | .rules rules => rules.foldlM (applyRule polars) working
  | .sort _ => .ok working

/-- `lower::transform`. -/
def transform (polars : Polars) (frame : Frame) (schema : LogicalSchema)
    (steps : List CompiledStep) (deferred : Deferred) : Except EngineError (Frame × Deferred) := do
  let working ← steps.foldlM (transformStep polars) ⟨frame, schema, deferred⟩
  return (working.frame, working.deferred)

/-- A cell of a column exported under a logical type. -/
def exportCell (dataType : LogicalType) (cell : AnyValue) : Except EngineError AnyValue :=
  match dataType, cell with
  | .null, _ => .ok .null
  | _, .null => .ok .null
  | .boolean, .boolean value => .ok (.boolean value)
  | .int8, .int8 value => .ok (.int8 value)
  | .int16, .int16 value => .ok (.int16 value)
  | .int32, .int32 value => .ok (.int32 value)
  | .int64, .int64 value => .ok (.int64 value)
  | .uint8, .uint8 value => .ok (.uint8 value)
  | .uint16, .uint16 value => .ok (.uint16 value)
  | .uint32, .uint32 value => .ok (.uint32 value)
  | .uint64, .uint64 value => .ok (.uint64 value)
  | .float32, .float32 bits => .ok (.float32 bits)
  | .float64, .float64 bits => .ok (.float64 bits)
  | .utf8, .string text | .utf8, .stringOwned text => .ok (.string text)
  | .binary, .binary bytes => .ok (.binary bytes)
  | .date32, .date days => .ok (.date days)
  -- the exported array takes the declared unit and zone
  | .timestamp unit timezone, .datetime epoch _ _ => .ok (.datetime epoch unit timezone)
  | .int64, _ => .error (.internal "export expected int64")
  | .utf8, _ => .error (.internal "export expected utf8")
  | _, _ => .error .ffi

/-- Types no column is exported under. -/
def rejectPausedExport : LogicalType → Except EngineError Unit
  | .list _ | .struct _ => .error (.typeError "list and struct execution is paused")
  | .timestamp .second _ => .error (.typeError "timestamp second unit is paused")
  | _ => .ok ()

def i32Max : Nat := 2 ^ 31 - 1

/-- `array_from_literal`: the cell a deferred literal is exported as. -/
def literalCell (height : Nat) (value : ScalarValue) (dataType : LogicalType) :
    Except EngineError AnyValue :=
  match value, dataType with
  | .null, .utf8 => .ok .null
  | .utf8 text, .utf8 => do
    require (byteLen text ≤ i32Max)
      (EngineError.boundExceeded "utf8 literal is wider than the offset type")
    require (byteLen text * height ≤ i32Max)
      (EngineError.boundExceeded "utf8 literal offset overflow")
    return .string text
  | _, _ => .error (.internal "deferred literal is not an authorized utf8 value")

/-- How a field is exported: from its column, or as a repeated literal. -/
inductive ExportColumn where
  | column (field : LogicalField)
  | literal (name : String) (cell : AnyValue)

def exportColumn (frame : Frame) (deferred : Deferred) (field : LogicalField) :
    Except EngineError ExportColumn :=
  match deferred.find? fun entry => entry.1 == field.name with
  | some entry => do
    let cell ← literalCell frame.height entry.2 field.dataType
    return .literal field.name cell
  | none => do
    require (field.name ∈ frame.names)
      (EngineError.internal "polars column missing during export")
    rejectPausedExport field.dataType
    return .column field

def ExportColumn.cell (row : Row) : ExportColumn → Except EngineError (String × AnyValue)
  | .literal name cell => .ok (name, cell)
  | .column field => do
    let cell ← ofOption (row.lookup field.name)
      (.internal "polars column missing during export")
    return (field.name, ← exportCell field.dataType cell)

def exportRow (columns : List ExportColumn) (row : Row) : Except EngineError Row :=
  columns.mapM (ExportColumn.cell row)

def dataframeToRecordBatch (frame : Frame) (schema : LogicalSchema) (deferred : Deferred) :
    Except EngineError RecordBatch := do
  require (frame.names.length = schema.fields.length)
    (EngineError.internal "polars frame width does not match schema")
  let columns ← schema.fields.mapM (exportColumn frame deferred)
  let rows ← frame.rows.mapM (exportRow columns)
  return ⟨schema.fields.map (·.name), rows⟩

/-- The zero-copy import. -/
def recordBatchToDataframe (batch : RecordBatch) : Frame := batch

end Stillflow.Engine
