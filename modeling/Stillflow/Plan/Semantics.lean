import Stillflow.Core.Join
import Stillflow.Core.NodeGraph
import Stillflow.Plan.Rule

/-!
The shared semantic analyzer: expression bounds, references, types and nullability, and the paused
capability gate.
-/

namespace Stillflow.Plan

open Stillflow.Core Lib.Fallible Lib.WorkStack

inductive SemanticKind where
  | shapeInvalid
  | exprBounds
  | unknownColumn
  | notRequiresBoolean
  | logicalOperandsMustBeBoolean
  | containsRequiresUtf8
  | concatRequiresUtf8
  | conditionalBranchesIncompatible
  | substringRequiresUtf8
  | checkedArithmeticPaused
  | listStructPaused
  | timestampSecondPaused
  | invalidLogicalType
  | dateToUtf8CastPaused
  | binaryCastUnauthorized
  | comparisonIncomparable
  | orderedComparisonIncompatible
  | orderedComparisonRequiresNumeric
  | coalesceArmsIncompatible
  | trimRequiresUtf8
  | textRequiresUtf8
  | temporalParseRequiresUtf8
  | literalIncompatibleWithColumn
  | binaryReplaceOnlyNullToNull
  | fillNullValueMustNotBeNull
  | fillNullNotAuthorizedOnBinary
  | dropLastRemainingField
  | derivedTypeMismatch
  | derivedIdentityNotUnique
  | derivedNullabilityNarrower
  | derivedFieldInvalid
  | projectionEmpty
  | projectionDuplicate
  | schemaRebuildInvalid
  | ruleNotAdmitted
  deriving DecidableEq

/-- The compile path's message for a failure. -/
def SemanticKind.compileMessage : SemanticKind → String
  | .shapeInvalid => "expression shape is invalid"
  | .exprBounds => "expression exceeds the contract limit"
  | .unknownColumn => "column is absent from the working schema"
  | .notRequiresBoolean => "not requires a boolean expression"
  | .logicalOperandsMustBeBoolean => "logical operands must be boolean"
  | .containsRequiresUtf8 => "contains requires utf8 operands"
  | .concatRequiresUtf8 => "concat requires utf8 operands"
  | .conditionalBranchesIncompatible => "conditional branches must share one logical type"
  | .substringRequiresUtf8 => "substring requires a utf8 input"
  | .checkedArithmeticPaused => "checked arithmetic is not authorized"
  | .listStructPaused => "list and struct execution is paused"
  | .timestampSecondPaused => "timestamp second unit is paused"
  | .invalidLogicalType => "logical type is invalid"
  | .dateToUtf8CastPaused => "date or timestamp to utf8 cast is paused"
  | .binaryCastUnauthorized => "cast to or from binary is not authorized"
  | .comparisonIncomparable => "comparison operands are not comparable"
  | .orderedComparisonIncompatible => "ordered comparison operands are not compatible"
  | .orderedComparisonRequiresNumeric => "ordered comparison requires numeric or date values"
  | .coalesceArmsIncompatible => "coalesce arms are not type-compatible"
  | .trimRequiresUtf8 => "trim requires a utf8 column"
  | .textRequiresUtf8 => "text normalization requires a utf8 column"
  | .temporalParseRequiresUtf8 => "temporal parsing requires a utf8 column"
  | .literalIncompatibleWithColumn => "literal is not type-compatible with the column"
  | .binaryReplaceOnlyNullToNull => "binary replace-literal only permits null-to-null"
  | .fillNullValueMustNotBeNull => "fill-null value must not be null"
  | .fillNullNotAuthorizedOnBinary => "fill-null is not authorized on binary"
  | .dropLastRemainingField => "drop-column cannot remove the final field"
  | .derivedTypeMismatch => "derived column type does not match the expression"
  | .derivedIdentityNotUnique => "derived column id or name is not unique"
  | .derivedNullabilityNarrower => "derived column nullability is narrower than the expression"
  | .derivedFieldInvalid => "derived field is invalid"
  | .projectionEmpty => "projection must contain at least one column"
  | .projectionDuplicate => "projection contains duplicate columns"
  | .schemaRebuildInvalid => "node produced an invalid logical schema"
  | .ruleNotAdmitted => "rule is not admitted in the product path"

/-- The frozen class of a failure on the compile path. -/
def SemanticKind.code : SemanticKind → NodeGraphErrorCode
  | .shapeInvalid | .fillNullValueMustNotBeNull | .dropLastRemainingField
  | .derivedIdentityNotUnique | .derivedFieldInvalid | .projectionEmpty | .projectionDuplicate
  | .schemaRebuildInvalid | .ruleNotAdmitted => .invalidConfig
  | .unknownColumn => .unknownColumn
  | .exprBounds => .limitNestingDepth
  | .notRequiresBoolean | .logicalOperandsMustBeBoolean | .containsRequiresUtf8
  | .concatRequiresUtf8 | .conditionalBranchesIncompatible | .substringRequiresUtf8
  | .checkedArithmeticPaused | .listStructPaused | .timestampSecondPaused | .invalidLogicalType
  | .dateToUtf8CastPaused | .binaryCastUnauthorized | .comparisonIncomparable
  | .orderedComparisonIncompatible | .orderedComparisonRequiresNumeric
  | .coalesceArmsIncompatible | .trimRequiresUtf8 | .textRequiresUtf8
  | .temporalParseRequiresUtf8 | .literalIncompatibleWithColumn | .binaryReplaceOnlyNullToNull
  | .fillNullNotAuthorizedOnBinary | .derivedTypeMismatch
  | .derivedNullabilityNarrower => .incompatibleType

structure SemanticError where
  kind : SemanticKind
  columnId : Option ColumnId
  deriving DecidableEq

def SemanticError.new (kind : SemanticKind) : SemanticError := ⟨kind, none⟩

def SemanticError.forColumn (kind : SemanticKind) (columnId : ColumnId) : SemanticError :=
  ⟨kind, some columnId⟩

/-- Resolution of a column against the working schema. -/
abbrev ColumnResolver := ColumnId → Option LogicalField

/-- Resolve a column or report it as unknown. -/
def ColumnResolver.require (resolver : ColumnResolver) (id : ColumnId) :
    Except SemanticError LogicalField :=
  match resolver id with
  | some field => .ok field
  | none => .error (.forColumn .unknownColumn id)

/-- `validate_shape` through the analyzer's error surface. -/
def shapeGate (expr : Expr) : Except SemanticError Unit :=
  expr.validateShape.mapError fun _ => .new .shapeInvalid

/-- A column node must resolve; other nodes carry no reference of their own. -/
def checkReference (resolver : ColumnResolver) : Expr → Except SemanticError Unit
  | .column id => do
    let _ ← resolver.require id
    return ()
  | _ => .ok ()

/-- One iteration of `validate_expr_refs`, counting nodes. -/
def exprRefsNode (resolver : ColumnResolver) (task : Expr × Nat) (nodes : Nat) :
    Except SemanticError (List (Expr × Nat) × Nat) := do
  let nodes := saturatingAdd nodes 1
  require (¬(nodes > maxExprNodes ∨ task.2 > maxExprDepth)) (SemanticError.new .exprBounds)
  checkReference resolver task.1
  return ((operands task.1).map (·, task.2 + 1), nodes)

def exprRefsWalk (resolver : ColumnResolver) : Walk (Expr × Nat) Nat SemanticError where
  visit := exprRefsNode resolver
  size task := task.1.weight
  size_pos := task_weight_pos
  size_lt {task nodes ts nodes'} h := by
    obtain ⟨-, -, h⟩ := of_bind h
    obtain ⟨-, -, h⟩ := of_bind h
    cases h
    exact operandTasks_weight task

def validateExprRefs (expr : Expr) (resolver : ColumnResolver) : Except SemanticError Unit := do
  shapeGate expr
  let _ ← (exprRefsWalk resolver).run [(expr, 1)] 0
  return ()

/-- One iteration of `check_shape_bounds`, counting nodes and the largest depth seen. -/
def shapeBoundsNode (task : Expr × Nat) (seen : Nat × Nat) :
    Except SemanticError (List (Expr × Nat) × (Nat × Nat)) := do
  let nodes := saturatingAdd seen.1 1
  let maxDepth := max seen.2 task.2
  require (¬(nodes > maxExprNodes ∨ maxDepth > maxExprDepth)) (SemanticError.new .exprBounds)
  return ((operands task.1).map (·, task.2 + 1), (nodes, maxDepth))

def shapeBoundsWalk : Walk (Expr × Nat) (Nat × Nat) SemanticError where
  visit := shapeBoundsNode
  size task := task.1.weight
  size_pos := task_weight_pos
  size_lt {task seen ts seen'} h := by
    obtain ⟨-, -, h⟩ := of_bind h
    cases h
    exact operandTasks_weight task

def checkShapeBounds (expr : Expr) : Except SemanticError Unit := do
  let _ ← shapeBoundsWalk.run [(expr, 1)] (0, 0)
  return ()

namespace Capability

def rejectPausedType (dataType : LogicalType) : Except SemanticError Unit :=
  match dataType with
  | .list _ | .struct _ => .error (.new .listStructPaused)
  | .timestamp .second _ => .error (.new .timestampSecondPaused)
  | _ => dataType.validate.mapError fun _ => .new .invalidLogicalType

def isDateOrTimestamp : LogicalType → Bool
  | .date32 | .timestamp _ _ => true
  | _ => false

def rejectPausedCast (source target : LogicalType) : Except SemanticError Unit := do
  require (¬(isDateOrTimestamp source ∧ target = .utf8)) (SemanticError.new .dateToUtf8CastPaused)
  require (¬((target = .binary ∧ source ≠ .binary) ∨ (source = .binary ∧ target ≠ .binary)))
    (SemanticError.new .binaryCastUnauthorized)

def isArithmetic : BinaryOperator → Bool
  | .add | .subtract | .multiply | .divide | .modulo => true
  | _ => false

mutual

def rejectPausedCapability : Expr → Except SemanticError Unit
  | .unary .negate _ => .error (.new .checkedArithmeticPaused)
  | .unary _ e | .isNull e _ | .substring e _ _ => rejectPausedCapability e
  | .cast e dataType => do
    rejectPausedType dataType
    rejectPausedCapability e
  | .binary left operator right => do
    require (isArithmetic operator = false) (SemanticError.new .checkedArithmeticPaused)
    rejectPausedCapability left
    rejectPausedCapability right
  | .conditional predicate thenBranch otherwise => do
    rejectPausedCapability predicate
    rejectPausedCapability thenBranch
    rejectPausedCapability otherwise
  | .concat es | .coalesce es => rejectPausedCapabilities es
  | .column _ | .literal _ => .ok ()

def rejectPausedCapabilities : List Expr → Except SemanticError Unit
  | [] => .ok ()
  | e :: es => do
    rejectPausedCapability e
    rejectPausedCapabilities es

end

end Capability

open Capability

def comparablePair (left right : LogicalType) : Except SemanticError Unit := do
  let _ ← (left.leastUpperBound right).mapError fun _ => SemanticError.new .comparisonIncomparable
  return ()

def isOrdered : LogicalType → Bool
  | .int8 | .int16 | .int32 | .int64 | .uint8 | .uint16 | .uint32 | .uint64 | .float32 | .float64
  | .date32 | .timestamp _ _ => true
  | _ => false

def orderedPair (left right : LogicalType) : Except SemanticError Unit := do
  let joined ← (left.leastUpperBound right).mapError fun _ =>
    SemanticError.new .orderedComparisonIncompatible
  require (isOrdered joined) (SemanticError.new .orderedComparisonRequiresNumeric)
  rejectPausedType joined

/-- `Utf8`, or the type of a NULL literal. -/
def isTextOperand (dataType : LogicalType) : Bool := dataType == .utf8 || dataType == .null

/-- The type and nullability of a binary operation over analyzed operands. -/
def inferBinary (operator : BinaryOperator) (left right : LogicalType × Bool) :
    Except SemanticError (LogicalType × Bool) :=
  let nullable := left.2 || right.2
  match operator with
  | .and | .or => do
    require (left.1 = .boolean ∧ right.1 = .boolean) (SemanticError.new .logicalOperandsMustBeBoolean)
    return (.boolean, nullable)
  | .contains => do
    require (isTextOperand left.1 ∧ isTextOperand right.1) (SemanticError.new .containsRequiresUtf8)
    return (.boolean, nullable || (left.1 == .null || right.1 == .null))
  | .add | .subtract | .multiply | .divide | .modulo => .error (.new .checkedArithmeticPaused)
  | .equal | .notEqual => do
    comparablePair left.1 right.1
    return (.boolean, nullable)
  | .lessThan | .lessThanOrEqual | .greaterThan | .greaterThanOrEqual => do
    orderedPair left.1 right.1
    return (.boolean, nullable)

/-- The common type of two conditional branches, and whether one of them is the NULL type. -/
def branchType (thenType otherwiseType : LogicalType) : Except SemanticError (LogicalType × Bool) :=
  if thenType = .null then .ok (otherwiseType, true)
  else if otherwiseType = .null then .ok (thenType, true)
  else if thenType = otherwiseType then .ok (thenType, false)
  else .error (.new .conditionalBranchesIncompatible)

def literalType : ScalarValue → LogicalType × Bool
  | .boolean _ => (.boolean, false)
  | .int64 _ => (.int64, false)
  | .uint64 _ => (.uint64, false)
  | .float64 _ => (.float64, false)
  | .utf8 _ => (.utf8, false)
  | .null => (.null, true)

/-- The running type of a `Coalesce` after one more arm. -/
def joinArm (joined : Option LogicalType) (next : LogicalType) : Except SemanticError LogicalType :=
  match joined with
  | some current => (current.leastUpperBound next).mapError fun _ => .new .coalesceArmsIncompatible
  | none => .ok next

mutual

def inferExpr (resolver : ColumnResolver) : Expr → Except SemanticError (LogicalType × Bool)
  | .column id => do
    let field ← resolver.require id
    rejectPausedType field.dataType
    return (field.dataType, field.nullable)
  | .literal value => return literalType value
  | .unary .not e => do
    let inner ← inferExpr resolver e
    require (inner.1 = .boolean) (SemanticError.new .notRequiresBoolean)
    return (.boolean, inner.2)
  | .unary .negate _ => .error (.new .checkedArithmeticPaused)
  | .isNull e _ => do
    let _ ← inferExpr resolver e
    return (.boolean, false)
  | .cast e dataType => do
    let inner ← inferExpr resolver e
    rejectPausedType dataType
    rejectPausedCast inner.1 dataType
    return (dataType, inner.2)
  | .binary left operator right => do
    let l ← inferExpr resolver left
    let r ← inferExpr resolver right
    inferBinary operator l r
  | .substring e _ _ => do
    let inner ← inferExpr resolver e
    require (isTextOperand inner.1) (SemanticError.new .substringRequiresUtf8)
    return (.utf8, inner.2 || inner.1 == .null)
  | .conditional predicate thenBranch otherwise => do
    let p ← inferExpr resolver predicate
    require (p.1 = .boolean) (SemanticError.new .logicalOperandsMustBeBoolean)
    let t ← inferExpr resolver thenBranch
    let o ← inferExpr resolver otherwise
    let result ← branchType t.1 o.1
    return (result.1, t.2 || o.2 || result.2)
  | .concat es => do
    require (2 ≤ es.length ∧ es.length ≤ 8) (SemanticError.new .shapeInvalid)
    let nullable ← inferConcatArms resolver es false
    return (.utf8, nullable)
  | .coalesce es => do
    let arms ← inferCoalesceArms resolver es (none, true)
    match arms.1 with
    | none => .error (.new .shapeInvalid)
    | some joined => do
      rejectPausedType joined
      return (joined, arms.2)

/-- The operand loop of `Concat`, threading the nullability seen so far. -/
def inferConcatArms (resolver : ColumnResolver) : List Expr → Bool → Except SemanticError Bool
  | [], nullable => .ok nullable
  | e :: es, nullable => do
    let arm ← inferExpr resolver e
    require (isTextOperand arm.1) (SemanticError.new .concatRequiresUtf8)
    inferConcatArms resolver es (nullable || arm.2 || arm.1 == .null)

/-- The operand loop of `Coalesce`, threading the joined type and nullability. -/
def inferCoalesceArms (resolver : ColumnResolver) : List Expr → Option LogicalType × Bool →
    Except SemanticError (Option LogicalType × Bool)
  | [], seen => .ok seen
  | e :: es, (joined, nullable) => do
    let arm ← inferExpr resolver e
    let joined ← joinArm joined arm.1
    inferCoalesceArms resolver es (some joined, nullable && arm.2)

end

/-- `analyze_expr`: the logical type and the nullability of the result. -/
def analyzeExpr (expr : Expr) (resolver : ColumnResolver) :
    Except SemanticError (LogicalType × Bool) := do
  shapeGate expr
  checkShapeBounds expr
  inferExpr resolver expr

namespace Capability

mutual

def rejectPausedCastsInExpr (resolver : ColumnResolver) : Expr → Except SemanticError Unit
  | .cast e dataType => do
    let analysis ← analyzeExpr e resolver
    rejectPausedCast analysis.1 dataType
    rejectPausedCastsInExpr resolver e
  | .unary _ e | .isNull e _ | .substring e _ _ => rejectPausedCastsInExpr resolver e
  | .binary left _ right => do
    rejectPausedCastsInExpr resolver left
    rejectPausedCastsInExpr resolver right
  | .conditional predicate thenBranch otherwise => do
    rejectPausedCastsInExpr resolver predicate
    rejectPausedCastsInExpr resolver thenBranch
    rejectPausedCastsInExpr resolver otherwise
  | .coalesce es | .concat es => rejectPausedCastsInExprs resolver es
  | .column _ | .literal _ => .ok ()

def rejectPausedCastsInExprs (resolver : ColumnResolver) : List Expr → Except SemanticError Unit
  | [] => .ok ()
  | e :: es => do
    rejectPausedCastsInExpr resolver e
    rejectPausedCastsInExprs resolver es

end

end Capability
end Stillflow.Plan
