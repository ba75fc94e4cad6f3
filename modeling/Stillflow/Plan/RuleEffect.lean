import Stillflow.Core.Fields
import Stillflow.Plan.Semantics

/-! The compiler's schema effect of one rule and of a projection: full rebuilds of the schema. -/

namespace Stillflow.Plan

open Stillflow.Core Lib.Fallible Capability

/-- The literal kinds a column type accepts. -/
def literalCompatible : LogicalType → ScalarValue → Bool
  | _, .null => true
  | .boolean, .boolean _ => true
  | .int64, .int64 _ => true
  | .uint64, .uint64 _ => true
  | .float64, .float64 _ => true
  | .utf8, .utf8 _ => true
  | .int8, .int64 _ | .int16, .int64 _ | .int32, .int64 _ => true
  | .uint8, .uint64 _ | .uint16, .uint64 _ | .uint32, .uint64 _ => true
  | .float32, .float64 _ => true
  | _, _ => false

def validateLiteralForColumn (columnType : LogicalType) (value : ScalarValue) :
    Except SemanticError Unit :=
  require (literalCompatible columnType value) (SemanticError.new .literalIncompatibleWithColumn)

def rebuild (source : LogicalSchema) (fields : List LogicalField) :
    Except SemanticError LogicalSchema :=
  (LogicalSchema.fromParts source.version fields source.metadata).mapError fun _ =>
    .new .schemaRebuildInvalid

/-- Edit one column of a cloned field list and rebuild the schema. -/
def rebuildWith (schema : LogicalSchema) (column : ColumnId) (edit : LogicalField → LogicalField) :
    Except SemanticError LogicalSchema :=
  match modifyColumn edit column schema.fields with
  | some fields => rebuild schema fields
  | none => .error (.forColumn .unknownColumn column)

/-- The field after a cast: the target type, nullable when failures become NULL. -/
def castField (dataType : LogicalType) (onFailure : CastFailurePolicy) (field : LogicalField) :
    LogicalField :=
  { field with dataType := dataType, nullable := field.nullable || onFailure == .setNull }

def ruleEffect (schema : LogicalSchema) (rule : Rule) : Except SemanticError LogicalSchema :=
  let resolver : ColumnResolver := schema.field
  match rule with
  | .rename column target => rebuildWith schema column fun field => { field with name := target }
  | .trim column => do
    let field ← resolver.require column
    require (field.dataType = .utf8) (SemanticError.forColumn .trimRequiresUtf8 column)
    return schema
  | .normalizeText column _ => do
    let field ← resolver.require column
    require (field.dataType = .utf8) (SemanticError.forColumn .textRequiresUtf8 column)
    return schema
  | .cast column dataType onFailure => do
    let field ← resolver.require column
    rejectPausedType dataType
    rejectPausedCast field.dataType dataType
    rebuildWith schema column (castField dataType onFailure)
  | .parseTemporal column dataType onFailure _ => do
    let field ← resolver.require column
    require (field.dataType = .utf8) (SemanticError.forColumn .temporalParseRequiresUtf8 column)
    require (isDateOrTimestamp dataType) (SemanticError.forColumn .invalidLogicalType column)
    rejectPausedType dataType
    rebuildWith schema column (castField dataType onFailure)
  | .replaceLiteral column source target => do
    let field ← resolver.require column
    validateLiteralForColumn field.dataType source
    validateLiteralForColumn field.dataType target
    require (¬(field.dataType = .binary ∧ ¬(source = .null ∧ target = .null)))
      (SemanticError.forColumn .binaryReplaceOnlyNullToNull column)
    if target = .null then rebuildWith schema column fun field => { field with nullable := true }
    else return schema
  | .fillNull column value => do
    require (value ≠ .null) (SemanticError.forColumn .fillNullValueMustNotBeNull column)
    let field ← resolver.require column
    require (field.dataType ≠ .binary)
      (SemanticError.forColumn .fillNullNotAuthorizedOnBinary column)
    validateLiteralForColumn field.dataType value
    rebuildWith schema column fun field => { field with nullable := false }
  | .dropColumn column => do
    require (1 < schema.fields.length) (SemanticError.new .dropLastRemainingField)
    let _ ← resolver.require column
    rebuild schema (schema.fields.filter (·.id != column))
  | .deriveColumn id name dataType nullable expression => do
    let analysis ← analyzeExpr expression resolver
    rejectPausedType dataType
    require (¬(analysis.1 ≠ .null ∧ analysis.1 ≠ dataType)) (SemanticError.new .derivedTypeMismatch)
    require (¬((schema.field id).isSome ∨ schema.fields.any (·.name == name)))
      (SemanticError.new .derivedIdentityNotUnique)
    rejectPausedCastsInExpr resolver expression
    require (¬(nullable = false ∧ analysis.2 = true))
      (SemanticError.new .derivedNullabilityNarrower)
    let field ← (LogicalField.new id name dataType nullable).mapError fun _ =>
      SemanticError.new .derivedFieldInvalid
    rebuild schema (schema.fields ++ [field])
  | .filterRows _ | .validate _ _ _ | .deduplicate _ => .error (.new .ruleNotAdmitted)

/-- The loop of `project_effect`: refuse repeats, then resolve. -/
def projectColumns (resolver : ColumnResolver) : List ColumnId → List ColumnId →
    Except SemanticError (List LogicalField)
  | [], _ => .ok []
  | column :: rest, seen => do
    require (column ∉ seen) (SemanticError.new .projectionDuplicate)
    let field ← resolver.require column
    let fields ← projectColumns resolver rest (column :: seen)
    return field :: fields

def projectEffect (schema : LogicalSchema) (columns : List ColumnId) :
    Except SemanticError LogicalSchema := do
  require (columns ≠ []) (SemanticError.new .projectionEmpty)
  let fields ← projectColumns schema.field columns []
  rebuild schema fields

end Stillflow.Plan
