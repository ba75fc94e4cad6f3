import Stillflow.Engine.KeyEncoding
import Stillflow.Engine.Linearize

/-!
The verification-compiled plan: the linear plan as executable steps, with Validate and Deduplicate
split out of their rule groups, and the preflight checks made while it is built.
-/

namespace Stillflow.Engine

open Stillflow.Core Stillflow.Plan Lib.Fallible

inductive VStep where
  | project (columns : List ColumnId)
  | filter (predicate : Expr)
  | filterRows (predicate : Expr)
  | transformRules (rules : List Rule)
  | validate (nodeId : Uuid) (ruleOrdinal : Nat) (predicate : Expr) (severity : ValidationSeverity)
      (message : String)
  | deduplicate (nodeId : Uuid) (ruleOrdinal : Nat) (keys : List ColumnId)
      (keyTypes : List LogicalType)

structure VerificationPlan where
  vsteps : List VStep
  scanBoundary : Nat

/-- The part of a prepared plan that verification reads. -/
structure PreparedPlan where
  pushProjection : Bool
  scanProjection : List ColumnId
  expectedConnector : LogicalSchema
  scanOutput : LogicalSchema
  materializeSchema : LogicalSchema

def maxDedupKeyColumns : Nat := 64

def maxValidationMessageBytes : Nat := 1024

def reservedControlNames : List String :=
  ["input_kind", "input_id", "input_version_digest", "plan_fingerprint", "canonical_plan_digest",
    "node_id", "rule_ordinal", "message", "evaluated_count", "pass_count", "fail_count",
    "warning_count", "error_count", "null_count", "false_count", "source_row_ordinal", "severity",
    "predicate_outcome", "rejection_kind", "key_column_count", "unique_count", "duplicate_count",
    "first_source_row_ordinal", "encoded_key_byte_count"]

/-- Inclusive suffix ranges of the reserved control column ids. -/
def reservedControlRanges : List (Nat × Nat) :=
  [(0x11, 0x19), (0x21, 0x2F), (0x31, 0x3A), (0x41, 0x4B), (0x51, 0x5B)]

def reservedControlIds : List ColumnId :=
  reservedControlRanges.flatMap fun range =>
    (List.range' range.1 (range.2 + 1 - range.1)).map fun suffix =>
      BitVec.ofNat 128 (0xE4C00000000040008000000000000000 + suffix)

def rejectReservedCollision (schema : LogicalSchema) : Except EngineError Unit :=
  schema.fields.forM fun field =>
    require (¬(field.id ∈ reservedControlIds ∨ field.name ∈ reservedControlNames))
      (EngineError.invalidPlan
        "source schema collides with reserved verification control identities")

/-- The greatest encoded length of a fixed-width component; `none` for a variable-width one. -/
def staticComponentMax : LogicalType → Option Nat
  | .null => some 1
  | .boolean | .int8 | .uint8 => some 2
  | .int16 | .uint16 => some 3
  | .int32 | .uint32 | .float32 | .date32 => some 5
  | .int64 | .uint64 | .float64 => some 9
  | .timestamp _ none => some 11
  | .timestamp _ (some timezone) => some (1 + 1 + 1 + (4 + byteLen timezone) + 8)
  | .utf8 | .binary | .list _ | .struct _ => none

/-- `str::trim`. -/
def trimText (text : String) : String :=
  String.ofList (((text.toList.dropWhile isWhitespace).reverse.dropWhile isWhitespace).reverse)

def validateMessageContract (message : String) : Except EngineError String := do
  let trimmed := trimText message
  require (trimmed ≠ "") (EngineError.invalidPlan "validation message must not be empty")
  require (byteLen trimmed ≤ maxValidationMessageBytes)
    (EngineError.invalidPlan "validation message exceeds MAX_VALIDATION_MESSAGE_BYTES")
  require (isSecretValue trimmed = false)
    (EngineError.invalidPlan "validation message carries secret-like fields")
  (Expr.literal (.utf8 trimmed)).validateShape.mapError fun _ =>
    EngineError.invalidPlan "validation message is not a valid literal"
  return trimmed

/-- Key types and the static bound of a `Deduplicate` rule; the bound is dropped at the first
variable-width key. -/
def keyTypesOf (schema : LogicalSchema) : List ColumnId →
    Except EngineError (List LogicalType × Option Nat)
  | [] => .ok ([], some 0)
  | key :: keys => do
    let field ← ofOption (schema.field key) (.unknownColumn key)
    rejectPausedKeyType field.dataType
    let rest ← keyTypesOf schema keys
    let bound := do return (← staticComponentMax field.dataType) + (← rest.2)
    return (field.dataType :: rest.1, bound)

/-- `apply_rule_schema` with `verification = true`: the routing rules leave the schema alone. -/
def applyRuleSchemaE4 (schema : LogicalSchema) (rule : Rule) : Except EngineError LogicalSchema :=
  match rule with
  | .validate _ _ _ | .deduplicate _ => .ok schema
  | rule => applyRuleSchema schema rule

/-- Steps built so far, the pending transform group and the working schema. -/
structure PlanBuilder where
  vsteps : List VStep
  group : List Rule
  working : LogicalSchema

def PlanBuilder.flushTransform (builder : PlanBuilder) : PlanBuilder :=
  if builder.group = [] then builder
  else { builder with vsteps := builder.vsteps ++ [.transformRules builder.group], group := [] }

def PlanBuilder.push (builder : PlanBuilder) (step : VStep) : PlanBuilder :=
  { builder with vsteps := builder.vsteps ++ [step] }

def buildRule (nodeId : Uuid) (builder : PlanBuilder) (entry : Rule × Nat) :
    Except EngineError PlanBuilder :=
  match entry.1 with
  | .validate predicate severity message => do
    let builder := builder.flushTransform
    requireBooleanIn predicate builder.working.field
    let storedMessage ← validateMessageContract message
    return builder.push (.validate nodeId entry.2 predicate severity storedMessage)
  | .deduplicate keys => do
    let builder := builder.flushTransform
    require (keys.length ≤ maxDedupKeyColumns)
      (EngineError.boundExceeded "dedup key column count exceeds MAX_DEDUP_KEY_COLUMNS")
    let types ← keyTypesOf builder.working keys
    require (types.2.all (· ≤ maxDedupKeyBytes) = true)
      (EngineError.boundExceeded "fixed-width dedup key exceeds MAX_DEDUP_KEY_BYTES")
    return builder.push (.deduplicate nodeId entry.2 keys types.1)
  | .filterRows predicate => do
    let builder := builder.flushTransform
    requireBooleanIn predicate builder.working.field
    return builder.push (.filterRows predicate)
  | other => do
    let working ← applyRuleSchemaE4 builder.working other
    return { builder with group := builder.group ++ [other], working := working }

def buildNode (builder : PlanBuilder) (entry : PlanNodeId × PlanNode) :
    Except EngineError PlanBuilder :=
  match entry.2.kind with
  | .project columns => do
    let working ← projectSchema builder.working columns
    return { builder.push (.project columns) with working := working }
  | .filter predicate => do
    requireBooleanIn predicate builder.working.field
    return builder.push (.filter predicate)
  | .applyRules rules => do
    let builder ← rules.zipIdx.foldlM (buildRule entry.1) builder
    return builder.flushTransform
  | _ => .error (.internal "unexpected plan node kind in verification preflight")

/-- The steps before the scan boundary: projection when the connector could not, then the scan's
own predicate. -/
def leadingSteps (prepared : PreparedPlan) (predicate : Option Expr) : List VStep :=
  (if prepared.pushProjection then [] else [.project prepared.scanProjection]) ++
    (predicate.map VStep.filter).toList

def checkLeading (working : LogicalSchema) (step : VStep) : Except EngineError LogicalSchema :=
  match step with
  | .project columns => projectSchema working columns
  | .filter predicate => do
    requireBooleanIn predicate working.field
    return working
  | _ => .ok working

def buildVerificationPlan (plan : LogicalPlan) (prepared : PreparedPlan) :
    Except EngineError VerificationPlan := do
  let linear ← linearize plan
  match linear with
  | (_, ⟨_, .scan _ _ predicate⟩) :: rest => do
    let leading := leadingSteps prepared predicate
    let working ← leading.foldlM checkLeading prepared.expectedConnector
    rejectReservedCollision prepared.scanOutput
    require (prepared.scanOutput.fields.length + 9 ≤ maxSchemaFields)
      (EngineError.invalidPlan
        "source schema leaves no room for the nine rejected-row control fields")
    let builder ← rest.dropLast.foldlM buildNode ⟨leading, [], working⟩
    return ⟨builder.vsteps, leading.length⟩
  | _ => .error (.internal "verification scan node missing")

end Stillflow.Engine
