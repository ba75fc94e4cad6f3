import Stillflow.Plan.RuleEffect
import Stillflow.Engine.Lookup

/-!
The engine's incremental schema layer: in-place mutation of the working schema with its own text
counter and optional ordinal index, closed by one full validation.
-/

namespace Stillflow.Engine

open Stillflow.Core Stillflow.Plan Lib.Fallible

/-- Name and metadata text of one field. -/
def incrementalFieldText (field : LogicalField) : Nat :=
  byteLen field.name + metadataText field.metadata

def typeTimezoneText : LogicalType → Nat
  | .timestamp _ (some timezone) => byteLen timezone
  | _ => 0

/-- The counter over a field list; schema metadata and nested text are not part of it. -/
def textBytesOf (fields : List LogicalField) : Nat :=
  (fields.map fun field => incrementalFieldText field + typeTimezoneText field.dataType).sum

structure IncrementalSchema where
  schema : LogicalSchema
  textBytes : Nat
  entries : Option (List (ColumnId × Nat))

namespace IncrementalSchema

def forShape (schema : LogicalSchema) (servedLookups : Nat) : IncrementalSchema :=
  { schema
    textBytes := textBytesOf schema.fields
    entries := if useIndex schema.fields.length servedLookups then some (buildOrdinals schema.fields)
      else none }

/-- Rederive the ordinal table from the current fields, when there is one. -/
def refresh (working : IncrementalSchema) : IncrementalSchema :=
  { working with entries := working.entries.map fun _ => buildOrdinals working.schema.fields }

def swapWith (working : IncrementalSchema) (schema : LogicalSchema) : IncrementalSchema :=
  refresh { working with schema := schema, textBytes := textBytesOf schema.fields }

def ordinalOf (working : IncrementalSchema) (column : ColumnId) : Option Nat :=
  match working.entries with
  | some entries => searchOrdinal entries column
  | none => working.schema.fields.findIdx? (·.id == column)

def resolveColumn (working : IncrementalSchema) : ColumnResolver := fun id =>
  match working.entries with
  | some entries => (searchOrdinal entries id).bind (working.schema.fields[·]?)
  | none => working.schema.field id

def requireColumn (working : IncrementalSchema) (column : ColumnId) :
    Except EngineError LogicalField :=
  match working.resolveColumn column with
  | some field => .ok field
  | none => .error (.unknownColumn column)

def withFields (working : IncrementalSchema) (fields : List LogicalField) : IncrementalSchema :=
  { working with schema := { working.schema with fields := fields } }

end IncrementalSchema

/-- The shared analyzer through the engine's error surface. -/
def lift {α : Type} (result : Except SemanticError α) : Except EngineError α :=
  result.mapError semanticError

def validateLiteralForColumn (columnType : LogicalType) (value : ScalarValue) :
    Except EngineError Unit :=
  require (literalCompatible columnType value)
    (EngineError.typeError "literal is not type-compatible with the column")

def requireBooleanIn (expr : Expr) (resolver : ColumnResolver) : Except EngineError Unit := do
  let analysis ← lift (analyzeExpr expr resolver)
  require (analysis.1 = .boolean) (EngineError.typeError "predicate must be boolean")

namespace IncrementalSchema

open Capability

def applyRename (working : IncrementalSchema) (column : ColumnId) (target : String) :
    Except EngineError IncrementalSchema :=
  match working.ordinalOf column with
  | none => .error (.unknownColumn column)
  | some index =>
    match working.schema.fields[index]? with
    | none => .error (.unknownColumn column)
    | some field => do
      -- `checked_sub` falls back to a total past the limit.
      let newTotal := if byteLen field.name ≤ working.textBytes then
        working.textBytes - byteLen field.name + byteLen target else maxSchemaTextBytes + 1
      require (newTotal ≤ maxSchemaTextBytes) (EngineError.unknownColumn column)
      require (¬(isBlank target ∨
          working.schema.fields.any fun f => f.id != column && f.name == target))
        (EngineError.unknownColumn column)
      return { working.withFields (working.schema.fields.set index { field with name := target }) with
        textBytes := newTotal }

def applyDrop (working : IncrementalSchema) (column : ColumnId) :
    Except EngineError IncrementalSchema := do
  require (1 < working.schema.fields.length)
    (EngineError.invalidPlan "cannot drop the last remaining column")
  let removed := working.schema.fields.filter (·.id == column)
  let kept := working.schema.fields.filter (·.id != column)
  require (kept.length ≠ working.schema.fields.length) (EngineError.unknownColumn column)
  return refresh { working.withFields kept with
    textBytes := working.textBytes - textBytesOf removed }

def applyCast (working : IncrementalSchema) (column : ColumnId) (dataType : LogicalType)
    (onFailure : CastFailurePolicy) : Except EngineError IncrementalSchema := do
  lift (rejectPausedType dataType)
  let field ← working.requireColumn column
  lift (rejectPausedCast field.dataType dataType)
  let newTotal := if typeTimezoneText field.dataType ≤ working.textBytes then
    working.textBytes - typeTimezoneText field.dataType + typeTimezoneText dataType
    else maxSchemaTextBytes + 1
  require (newTotal ≤ maxSchemaTextBytes)
    (EngineError.invalidPlan "cast produced an invalid schema")
  match modifyColumn (castField dataType onFailure) column working.schema.fields with
  | none => .error (.unknownColumn column)
  | some fields => return { working.withFields fields with textBytes := newTotal }

def applyDerive (working : IncrementalSchema) (id : ColumnId) (name : String)
    (dataType : LogicalType) (nullable : Bool) (expression : Expr) :
    Except EngineError IncrementalSchema := do
  lift (validateExprRefs expression working.resolveColumn)
  let inferred ← lift (analyzeExpr expression working.resolveColumn)
  lift (rejectPausedType dataType)
  require (¬(inferred.1 ≠ .null ∧ inferred.1 ≠ dataType))
    (EngineError.typeError "derived column type does not match the typed expression")
  require (¬((working.schema.field id).isSome ∨ working.schema.fields.any (·.name == name)))
    (EngineError.invalidPlan "derived column id or name is not unique")
  lift (rejectPausedCastsInExpr working.resolveColumn expression)
  let nullability ← lift (analyzeExpr expression working.resolveColumn)
  require (¬(nullable = false ∧ nullability.2 = true))
    (EngineError.typeError "derived column nullability is narrower than the expression")
  let field ← (LogicalField.new id name dataType nullable).mapError fun _ =>
    EngineError.invalidPlan "derived field is invalid"
  require (working.schema.fields.length < maxSchemaFields)
    (EngineError.invalidPlan "derive produced an invalid schema")
  let newTotal := working.textBytes + (incrementalFieldText field + typeTimezoneText dataType)
  require (newTotal ≤ maxSchemaTextBytes)
    (EngineError.invalidPlan "derive produced an invalid schema")
  return refresh { working.withFields (working.schema.fields ++ [field]) with
    textBytes := newTotal }

/-- Set the nullability of the first field with the id, when there is one. -/
def setNullable (working : IncrementalSchema) (column : ColumnId) (nullable : Bool) :
    IncrementalSchema :=
  match modifyColumn (fun field => { field with nullable := nullable }) column
      working.schema.fields with
  | some fields => working.withFields fields
  | none => working

def applyRule (working : IncrementalSchema) (rule : Rule) : Except EngineError IncrementalSchema :=
  match rule with
  | .rename column target => working.applyRename column target
  | .dropColumn column => working.applyDrop column
  | .trim column => do
    let field ← working.requireColumn column
    require (field.dataType = .utf8) (EngineError.typeError "trim requires a utf8 column")
    return working
  | .normalizeText column _ => do
    let field ← working.requireColumn column
    require (field.dataType = .utf8)
      (EngineError.typeError "text normalization requires a utf8 column")
    return working
  | .parseTemporal column dataType onFailure _ => do
    let field ← working.requireColumn column
    require (field.dataType = .utf8)
      (EngineError.typeError "temporal parsing requires a utf8 column")
    working.applyCast column dataType onFailure
  | .cast column dataType onFailure => working.applyCast column dataType onFailure
  | .replaceLiteral column source target => do
    let field ← working.requireColumn column
    validateLiteralForColumn field.dataType source
    validateLiteralForColumn field.dataType target
    require (¬(field.dataType = .binary ∧ ¬(source = .null ∧ target = .null)))
      (EngineError.typeError "binary replace-literal may only use null-to-null")
    return if target = .null then working.setNullable column true else working
  | .fillNull column value => do
    require (value ≠ .null) (EngineError.typeError "fill-null value must not be null")
    let field ← working.requireColumn column
    require (field.dataType ≠ .binary)
      (EngineError.typeError "fill-null is not authorized on binary")
    validateLiteralForColumn field.dataType value
    return working.setNullable column false
  | .deriveColumn id name dataType nullable expression =>
    working.applyDerive id name dataType nullable expression
  | .filterRows predicate => do
    requireBooleanIn predicate working.resolveColumn
    return working
  | .validate _ _ _ => .error (.unsupportedRule 0 "validate")
  | .deduplicate _ => .error (.unsupportedRule 0 "deduplicate")

def intoSchema (working : IncrementalSchema) : Except EngineError LogicalSchema :=
  (LogicalSchema.new working.schema.fields).mapError fun _ =>
    .invalidPlan "apply-rules produced an invalid schema"

end IncrementalSchema

mutual

/-- `count_expr_column_refs`: occurrences of column nodes. -/
def countExprColumnRefs : Expr → Nat
  | .column _ => 1
  | .literal _ => 0
  | .unary _ e | .isNull e _ | .cast e _ | .substring e _ _ => countExprColumnRefs e
  | .binary left _ right => countExprColumnRefs left + countExprColumnRefs right
  | .conditional p t o => countExprColumnRefs p + countExprColumnRefs t + countExprColumnRefs o
  | .coalesce es | .concat es => countExprsColumnRefs es

def countExprsColumnRefs : List Expr → Nat
  | [] => 0
  | e :: es => countExprColumnRefs e + countExprsColumnRefs es

end

def ruleServedLookups : Rule → Nat
  | .rename _ _ | .trim _ | .normalizeText _ _ | .parseTemporal _ _ _ _ | .cast _ _ _
  | .replaceLiteral _ _ _ | .fillNull _ _ => 1
  | .dropColumn _ => 0
  | .deriveColumn _ _ _ _ expression => 4 * countExprColumnRefs expression + 1
  | .filterRows predicate => countExprColumnRefs predicate
  | .validate _ _ _ | .deduplicate _ => 0

/-- `apply_rule_schema` with `verification = false`. -/
def applyRuleSchema (schema : LogicalSchema) (rule : Rule) : Except EngineError LogicalSchema := do
  let working ← (IncrementalSchema.forShape schema (ruleServedLookups rule)).applyRule rule
  working.intoSchema

def ruleEffect (schema : LogicalSchema) (rule : Rule) : Except EngineError LogicalSchema :=
  applyRuleSchema schema rule

end Stillflow.Engine
