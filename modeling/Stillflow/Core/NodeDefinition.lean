import Stillflow.Core.Expr
import Stillflow.Core.NodeGraph

/-!
Node definitions: the typed configs that validation produces and the helpers every node's config
validator is built from. `Serde` stands for the derived decoders of the nested value types.
-/

namespace Stillflow.Core

open Lib.Fallible Lib.WorkStack

inductive NodeSortDirection where
  | ascending
  | descending
  deriving DecidableEq

inductive NodeNullPlacement where
  | first
  | last
  deriving DecidableEq

structure NodeSortKey where
  column : ColumnId
  direction : NodeSortDirection
  nulls : NodeNullPlacement
  deriving DecidableEq

inductive NodeCastFailurePolicy where
  | error
  | setNull
  deriving DecidableEq

inductive NodeTextOperation where
  | trim
  | collapseWhitespace
  | lowercase
  | uppercase
  | unicodeNfc
  deriving DecidableEq

inductive ValidatedNodeConfig where
  | composite (steps : List ValidatedNodeConfig)
  | source (sourceAssetId : Uuid) (projection : Option (List ColumnId))
  | select (columns : List ColumnId)
  | filter (predicate : Expr)
  | rename (column : ColumnId) (target : String)
  | trim (column : ColumnId)
  | normalizeText (column : ColumnId) (operation : NodeTextOperation)
  | cast (column : ColumnId) (dataType : LogicalType) (onFailure : NodeCastFailurePolicy)
      (format : Option String)
  | replaceLiteral (column : ColumnId) (source target : ScalarValue)
  | fillNull (column : ColumnId) (value : ScalarValue)
  | dropColumn (column : ColumnId)
  | deriveColumn (id : ColumnId) (name : String) (dataType : LogicalType) (nullable : Bool)
      (expression : Expr)
  | output (outputLabel : String)
  | sort (keys : List NodeSortKey)

inductive ConfigValueKind where
  | uuid
  | columnId
  | columnIdList
  | string
  | boolean
  | expression
  | logicalType
  | scalarValue
  | castFailurePolicy
  deriving DecidableEq

structure ConfigField where
  name : String
  valueKind : ConfigValueKind
  required : Bool
  deriving DecidableEq

structure ConfigSchema where
  fields : List ConfigField
  deriving DecidableEq

inductive NodeRole where
  | source
  | transform
  | output
  deriving DecidableEq

/-- Binding forms of an expansion step: the composite's column, or a constant. -/
inductive CompositeBinding where
  | identity
  | literal (value : Value)

structure CompositeStep where
  operator : String
  bindings : Std.ExtTreeMap String CompositeBinding

/-- An atomic node validates through its own function, a composite through its expansion. -/
inductive DefinitionKind where
  | atomic (validate : NodeConfig → Except NodeGraphError ValidatedNodeConfig)
  | composite (steps : List CompositeStep)

structure NodeDefinition where
  typeId : String
  configVersion : UInt16
  configSchema : ConfigSchema
  inputPorts : List PortId
  outputPorts : List PortId
  role : NodeRole
  kind : DefinitionKind

namespace NodeDefinition

def compositeExpansion (definition : NodeDefinition) : Option (List CompositeStep) :=
  match definition.kind with
  | .atomic _ => none
  | .composite steps => some steps

def isSource (definition : NodeDefinition) : Bool := definition.role = .source

def isOutput (definition : NodeDefinition) : Bool := definition.role = .output

def validateNodeConfig (definition : NodeDefinition) (node : NodeConfig) :
    Except NodeGraphError ValidatedNodeConfig := do
  require (node.typeId = definition.typeId) (.new .unknownNodeType (some node.id)
    "node type does not match its resolved definition")
  require (node.configVersion = definition.configVersion)
    (.new .unsupportedConfigVersion (some node.id)
      ("config version " ++ toString node.configVersion.toNat ++ " is not supported for " ++
        definition.typeId))
  match definition.kind with
  | .atomic validate => validate node
  | .composite _ => .error (.new .internal (some node.id)
      "composite definitions resolve through the graph traversal")

end NodeDefinition

/-- The derived decoders of nested values, and the UUID text parser. -/
structure Serde where
  parseUuid : String → Option Uuid
  expr : Value → Option Expr
  logicalType : Value → Option LogicalType
  scalarValue : Value → Option ScalarValue
  castFailurePolicy : Value → Option NodeCastFailurePolicy
  textOperation : Value → Option NodeTextOperation
  sortKey : Value → Option NodeSortKey

namespace Serde

variable (serde : Serde)

def uuid (value : Value) : Option Uuid := value.asStr.bind serde.parseUuid

def columnIdList (value : Value) : Option (List ColumnId) :=
  value.asArray.bind fun items => items.mapM serde.uuid

end Serde

/-- A field that must be present. -/
def decodeField {α : Type} (object : List (String × Value)) (key : String)
    (decode : Value → Option α) : Option α :=
  (getKey object key).bind decode

/-- An `Option` field: absent and `null` both decode to none. -/
def decodeOptional {α : Type} (object : List (String × Value)) (key : String)
    (decode : Value → Option α) : Option (Option α) :=
  match getKey object key with
  | none | some .null => some none
  | some value => (decode value).map some

def invalidConfig (node : NodeConfig) (field : String) : NodeGraphError :=
  (NodeGraphError.new .invalidConfig (some node.id)
    ("node config field " ++ field ++ " is missing or invalid")).withFieldPath field

def parseConfig {T : Type} (node : NodeConfig) (required : List (String × Bool))
    (optional : List String) (decode : List (String × Value) → Option T) :
    Except NodeGraphError T :=
  match node.config.asObject with
  | none => .error (.new .invalidConfig (some node.id) "node config must be an object")
  | some object => do
    object.forM fun entry =>
      require (entry.1 ∈ required.map Prod.fst ++ optional) (invalidConfig node entry.1)
    required.forM fun field =>
      require (field.2 = false ∨ (getKey object field.1).isSome = true)
        (invalidConfig node field.1)
    match decode object with
    | some data => .ok data
    | none => .error (.new .invalidConfig (some node.id)
        "node config has an invalid field shape or primitive type")

def validateName (node : NodeConfig) (value field : String) : Except NodeGraphError Unit := do
  validateString value (some node.id) field
  require (isBlank value = false) (invalidConfig node field)

def validateColumn (node : NodeConfig) (column : ColumnId) (field : String) :
    Except NodeGraphError Unit :=
  require (column ≠ 0) (invalidConfig node field)

def validateColumns (node : NodeConfig) (columns : List ColumnId) (field : String) :
    Except NodeGraphError Unit := do
  let _ ← columns.foldlM (fun unique column => do
    validateColumn node column field
    require (column ∉ unique) (invalidConfig node field)
    return unique ++ [column]) ([] : List ColumnId)

def Expr.isNilColumn : Expr → Bool
  | .column id => id = 0
  | _ => false

/-- One iteration of the expression bound loop of `validate_expression`. -/
def expressionNode (node : NodeConfig) (field : String) (task : Expr × Nat) (count : Nat) :
    Except NodeGraphError (List (Expr × Nat) × Nat) := do
  let count ← checkedAdd
    (.new .limitCompileWork (some node.id) "expression node count overflowed") count 1
  require (count ≤ maxExprNodes)
    (.new .limitCompileWork (some node.id) "expression node bound exceeded")
  require (task.2 ≤ maxExprDepth)
    (.new .limitNestingDepth (some node.id) "expression depth bound exceeded")
  require (task.1.isNilColumn = false) (invalidConfig node field)
  return ((operands task.1).map fun e => (e, task.2 + 1), count)

def expressionWalk (node : NodeConfig) (field : String) : Walk (Expr × Nat) Nat NodeGraphError where
  visit := expressionNode node field
  size task := task.1.weight
  size_pos := task_weight_pos
  size_lt {task count tasks count'} h := by
    unfold expressionNode at h
    obtain ⟨_, _, h⟩ := of_bind h
    obtain ⟨_, _, h⟩ := of_bind h
    obtain ⟨_, _, h⟩ := of_bind h
    obtain ⟨_, _, h⟩ := of_bind h
    cases h
    exact operandTasks_weight task

def validateExpression (node : NodeConfig) (expression : Expr) (field : String) :
    Except NodeGraphError Unit := do
  expression.validateShape.mapError fun _ => invalidConfig node field
  let _ ← (expressionWalk node field).run [(expression, 1)] 0

def validateLogicalType (node : NodeConfig) (dataType : LogicalType) (field : String) :
    Except NodeGraphError Unit :=
  dataType.validate.mapError fun _ => invalidConfig node field

def validateScalar (node : NodeConfig) (value : ScalarValue) (field : String) :
    Except NodeGraphError Unit :=
  (Expr.literal value).validateShape.mapError fun _ => invalidConfig node field

end Stillflow.Core
