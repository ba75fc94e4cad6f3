import Stillflow.Plan.Semantics

/-! The engine's error surface and its mapping of shared semantic failures. -/

namespace Stillflow.Engine

open Stillflow.Core Stillflow.Plan

inductive EngineError where
  | unsupportedOperator (node : Uuid) (kind : String)
  | unsupportedRule (node : Uuid) (kind : String)
  | unsupportedCapability (kind : String)
  | sourceBinding
  | invalidPlan (message : String)
  | unknownColumn (column : ColumnId)
  | typeError (message : String)
  | castFailure (column : ColumnId) (sequence row : Nat)
  | arithmetic (column : ColumnId) (sequence row : Nat)
  | schemaDrift (sequence : Nat)
  | boundExceeded (message : String)
  | ffi
  | cancelled
  | timeout
  | busy
  | internal (message : String)
  | connector
  | storage
  deriving DecidableEq

def semanticError (error : SemanticError) : EngineError :=
  match error.kind with
  | .shapeInvalid => .invalidPlan "expression failed shape validation"
  | .exprBounds => .boundExceeded "expression exceeds node or depth limits"
  | .unknownColumn => .unknownColumn (error.columnId.getD 0)
  | .notRequiresBoolean => .typeError "predicate must be boolean"
  | .logicalOperandsMustBeBoolean => .typeError "logical operands must be boolean"
  | .checkedArithmeticPaused =>
    .typeError "checked arithmetic is paused until overflow semantics are implemented"
  | .listStructPaused => .typeError "list and struct execution is paused"
  | .timestampSecondPaused => .typeError "timestamp second unit is paused"
  | .invalidLogicalType => .typeError "logical type is invalid"
  | .dateToUtf8CastPaused => .typeError "cast from date32 or timestamp to utf8 is paused"
  | .binaryCastUnauthorized => .typeError "cast to/from binary is not authorized"
  | .comparisonIncomparable => .typeError "comparison operands are not comparable"
  | .orderedComparisonIncompatible => .typeError "ordered comparison operands are not compatible"
  | .orderedComparisonRequiresNumeric =>
    .typeError "ordered comparison requires numeric, date32, or timestamp operands"
  | .coalesceArmsIncompatible => .typeError "coalesce arms are not type-compatible"
  | kind => .invalidPlan kind.compileMessage

end Stillflow.Engine
