import Stillflow.Core.Expr

/-! The closed rule language of logical plans. -/

namespace Stillflow.Plan

open Stillflow.Core Lib.Fallible

inductive CastFailurePolicy where
  | error
  | setNull
  deriving DecidableEq

inductive ValidationSeverity where
  | warning
  | error
  deriving DecidableEq

inductive TextOperation where
  | trim
  | collapseWhitespace
  | lowercase
  | uppercase
  | unicodeNfc
  deriving DecidableEq

inductive Rule where
  | rename (column : ColumnId) (target : String)
  | cast (column : ColumnId) (dataType : LogicalType) (onFailure : CastFailurePolicy)
  | parseTemporal (column : ColumnId) (dataType : LogicalType) (onFailure : CastFailurePolicy)
      (format : String)
  | trim (column : ColumnId)
  | replaceLiteral (column : ColumnId) (source target : ScalarValue)
  | fillNull (column : ColumnId) (value : ScalarValue)
  | dropColumn (column : ColumnId)
  | deriveColumn (id : ColumnId) (name : String) (dataType : LogicalType) (nullable : Bool)
      (expression : Expr)
  | filterRows (predicate : Expr)
  | deduplicate (keys : List ColumnId)
  | validate (predicate : Expr) (severity : ValidationSeverity) (message : String)
  | normalizeText (column : ColumnId) (operation : TextOperation)

/-- The nine rule kinds that change or check a schema on the product path. -/
def Rule.isProduct : Rule → Bool
  | .filterRows _ | .deduplicate _ | .validate _ _ _ => false
  | _ => true

inductive RuleError where
  | emptyName
  | emptyDeduplicationKeys
  | duplicateDeduplicationKey (column : ColumnId)
  | emptyValidationMessage
  | logical (error : LogicalError)

/-- The first element that a duplicate-refusing set already holds. -/
def firstDuplicate {α : Type} [DecidableEq α] : List α → List α → Option α
  | _, [] => none
  | seen, a :: rest => if a ∈ seen then some a else firstDuplicate (a :: seen) rest

def Rule.validateRule : Rule → Except RuleError Unit
  | .rename _ target => require (isBlank target = false) .emptyName
  | .cast _ dataType _ => dataType.validate.mapError .logical
  | .replaceLiteral _ source target => do
    (Expr.literal source).validateShape.mapError .logical
    (Expr.literal target).validateShape.mapError .logical
  | .fillNull _ value => (Expr.literal value).validateShape.mapError .logical
  | .deriveColumn _ name dataType _ expression => do
    require (isBlank name = false) .emptyName
    dataType.validate.mapError .logical
    expression.validateShape.mapError .logical
  | .filterRows predicate => predicate.validateShape.mapError .logical
  | .deduplicate keys => do
    require (keys ≠ []) .emptyDeduplicationKeys
    match firstDuplicate [] keys with
    | some key => .error (.duplicateDeduplicationKey key)
    | none => .ok ()
  | .validate predicate _ message => do
    require (isBlank message = false) .emptyValidationMessage
    (Expr.literal (.utf8 message)).validateShape.mapError .logical
    predicate.validateShape.mapError .logical
  | .normalizeText _ _ | .parseTemporal _ _ _ _ | .trim _ | .dropColumn _ => .ok ()

end Stillflow.Plan
