import Stillflow.Core.NodeRegistry

/-! Resolution of a composite node into the validated configs of its atomic steps. -/

namespace Stillflow.Core

open Lib.Fallible

inductive CompositeValue where
  | uuid (id : Uuid)
  | columnId (id : ColumnId)
  | columnIdList (ids : List ColumnId)
  | string (text : String)
  | boolean (value : Bool)
  | expression (expression : Expr)
  | logicalType (dataType : LogicalType)
  | scalar (value : ScalarValue)
  | castFailurePolicy (policy : NodeCastFailurePolicy)

variable (serde : Serde)

def Serde.compositeValue (kind : ConfigValueKind) (value : Value) : Option CompositeValue :=
  match kind with
  | .uuid => (serde.uuid value).map .uuid
  | .columnId => (serde.uuid value).map .columnId
  | .columnIdList => (serde.columnIdList value).map .columnIdList
  | .string => value.asStr.map .string
  | .boolean => value.asBool.map .boolean
  | .expression => (serde.expr value).map .expression
  | .logicalType => (serde.logicalType value).map .logicalType
  | .scalarValue => (serde.scalarValue value).map .scalar
  | .castFailurePolicy => (serde.castFailurePolicy value).map .castFailurePolicy

def parseCompositeValue (node : NodeConfig) (kind : ConfigValueKind) (value : Value) :
    Except NodeGraphError CompositeValue :=
  match serde.compositeValue kind value with
  | some parsed => .ok parsed
  | none => .error (.new .invalidConfig (some node.id)
      "composite config field is missing or invalid")

/-- One declared field of the composite's config. -/
def compositeField (node : NodeConfig) (object : List (String × Value))
    (values : Std.ExtTreeMap String CompositeValue) (field : ConfigField) :
    Except NodeGraphError (Std.ExtTreeMap String CompositeValue) :=
  match getKey object field.name with
  | some value => do
    require (value.isNull = false) (invalidConfig node field.name)
    let parsed ← parseCompositeValue serde node field.valueKind value
    return values.insert field.name parsed
  | none => do
    require (field.required = false) (invalidConfig node field.name)
    return values

def identityColumn (node : NodeConfig) (values : Std.ExtTreeMap String CompositeValue) :
    Except NodeGraphError ColumnId :=
  match values["column"]? with
  | some (.columnId column) => .ok column
  | _ => .error ((NodeGraphError.new .invalidConfig (some node.id)
      "composite expansion requires a column parameter").withFieldPath "column")

/-- The value that a binding gives to one field of a step's config. -/
def bindField (node : NodeConfig) (column : ColumnId) (entry : String × CompositeBinding) :
    Except NodeGraphError (String × Value) :=
  match entry.2 with
  | .identity => do
    require (entry.1 = "column") (.new .invalidConfig (some node.id)
      "identity bindings resolve to the column parameter")
    return (entry.1, .string (String.ofList (uuidText column)))
  | .literal value => .ok (entry.1, value)

def resolveStep (node : NodeConfig) (column : ColumnId) (registry : NodeRegistry)
    (step : CompositeStep × Nat) : Except NodeGraphError ValidatedNodeConfig := do
  let atomic ← (registry.lookup step.1.operator 1).mapError fun error =>
    .new .invalidConfig (some node.id) ("composite step " ++ toString step.2 ++
      " targets an unknown operator: " ++ error.message)
  let stepConfig ← step.1.bindings.toList.mapM (bindField node column)
  let synthetic ← NodeConfig.new node.id step.1.operator 1 (.object stepConfig) ∅
  (atomic.validateNodeConfig synthetic).mapError fun error =>
    (NodeGraphError.new error.code (some node.id) ("composite step " ++ toString step.2 ++
      " rejected: " ++ error.message)).withFieldPath ("steps[" ++ toString step.2 ++ "]")

def resolveComposite (node : NodeConfig) (expansion : List CompositeStep)
    (configSchema : ConfigSchema) (registry : NodeRegistry) :
    Except NodeGraphError ValidatedNodeConfig :=
  match node.config.asObject with
  | none => .error (.new .invalidConfig (some node.id) "node config must be an object")
  | some object => do
    let values ← configSchema.fields.foldlM (compositeField serde node object) ∅
    object.forM fun entry =>
      require (entry.1 ∈ configSchema.fields.map ConfigField.name) (invalidConfig node entry.1)
    let column ← identityColumn node values
    let steps ← expansion.zipIdx.mapM (resolveStep node column registry)
    return .composite steps

/-- The typed config of a node under its definition. -/
def resolveConfig (registry : NodeRegistry) (node : NodeConfig) (definition : NodeDefinition) :
    Except NodeGraphError ValidatedNodeConfig :=
  match definition.compositeExpansion with
  | some expansion => resolveComposite serde node expansion definition.configSchema registry
  | none => definition.validateNodeConfig node

end Stillflow.Core
