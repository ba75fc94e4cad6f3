import Stillflow.Core.NodeDefinition

/-! The built-in node definitions with their config validators. -/

namespace Stillflow.Core

open Lib.Fallible

variable (serde : Serde)

namespace SourceNode

def validate (node : NodeConfig) : Except NodeGraphError ValidatedNodeConfig := do
  let (sourceAssetId, projection) ← parseConfig node [("sourceAssetId", true)] ["projection"]
    fun object => do
      return (← decodeField object "sourceAssetId" serde.uuid,
        ← decodeOptional object "projection" serde.columnIdList)
  require (sourceAssetId ≠ 0) (invalidConfig node "sourceAssetId")
  require ((node.config.get "projection").any Value.isNull = false)
    (invalidConfig node "projection")
  require (projection ≠ some []) (invalidConfig node "projection")
  validateColumns node (projection.getD []) "projection"
  return .source sourceAssetId projection

def definition : NodeDefinition where
  typeId := "stillflow.node.source"
  configVersion := 1
  configSchema := ⟨[⟨"sourceAssetId", .uuid, true⟩, ⟨"projection", .columnIdList, false⟩]⟩
  inputPorts := []
  outputPorts := ["out"]
  role := .source
  kind := .atomic (validate serde)

end SourceNode

/-- The record every transform node shares: one input, one output. -/
def transformDefinition (typeId : String) (fields : List ConfigField)
    (validate : NodeConfig → Except NodeGraphError ValidatedNodeConfig) : NodeDefinition where
  typeId := typeId
  configVersion := 1
  configSchema := ⟨fields⟩
  inputPorts := ["in"]
  outputPorts := ["out"]
  role := .transform
  kind := .atomic validate

namespace SelectNode

def validate (node : NodeConfig) : Except NodeGraphError ValidatedNodeConfig := do
  let columns ← parseConfig node [("columns", true)] [] fun object =>
    decodeField object "columns" serde.columnIdList
  require (columns ≠ []) (invalidConfig node "columns")
  validateColumns node columns "columns"
  return .select columns

def definition : NodeDefinition :=
  transformDefinition "stillflow.node.select" [⟨"columns", .columnIdList, true⟩] (validate serde)

end SelectNode

namespace FilterNode

def validate (node : NodeConfig) : Except NodeGraphError ValidatedNodeConfig := do
  let predicate ← parseConfig node [("predicate", true)] [] fun object =>
    decodeField object "predicate" serde.expr
  validateExpression node predicate "predicate"
  return .filter predicate

def definition : NodeDefinition :=
  transformDefinition "stillflow.node.filter" [⟨"predicate", .expression, true⟩] (validate serde)

end FilterNode

namespace RenameNode

def validate (node : NodeConfig) : Except NodeGraphError ValidatedNodeConfig := do
  let (column, target) ← parseConfig node [("column", true), ("to", true)] [] fun object => do
    return (← decodeField object "column" serde.uuid, ← decodeField object "to" Value.asStr)
  validateColumn node column "column"
  validateName node target "to"
  return .rename column target

def definition : NodeDefinition :=
  transformDefinition "stillflow.node.rename" [⟨"column", .columnId, true⟩, ⟨"to", .string, true⟩]
    (validate serde)

end RenameNode

namespace TrimNode

def validate (node : NodeConfig) : Except NodeGraphError ValidatedNodeConfig := do
  let column ← parseConfig node [("column", true)] [] fun object =>
    decodeField object "column" serde.uuid
  validateColumn node column "column"
  return .trim column

def definition : NodeDefinition :=
  transformDefinition "stillflow.node.trim" [⟨"column", .columnId, true⟩] (validate serde)

end TrimNode

namespace CastNode

def isTemporal : LogicalType → Bool
  | .date32 | .timestamp _ _ => true
  | _ => false

def validate (node : NodeConfig) : Except NodeGraphError ValidatedNodeConfig := do
  let (column, dataType, onFailure, format, timezone) ← parseConfig node
    [("column", true), ("dataType", true), ("onFailure", true)] ["format", "timezone"]
    fun object => do
      return (← decodeField object "column" serde.uuid,
        ← decodeField object "dataType" serde.logicalType,
        ← decodeField object "onFailure" serde.castFailurePolicy,
        ← decodeOptional object "format" Value.asStr,
        ← decodeOptional object "timezone" Value.asStr)
  validateColumn node column "column"
  validateLogicalType node dataType "dataType"
  -- a format is a temporal parsing instruction, and a timezone is refused for every target
  require (format.isSome = true → isTemporal dataType = true) (invalidConfig node "format")
  require (format.any isBlank = false) (invalidConfig node "format")
  require (timezone = none) (invalidConfig node "timezone")
  return .cast column dataType onFailure format

def definition : NodeDefinition :=
  transformDefinition "stillflow.node.cast"
    [⟨"column", .columnId, true⟩, ⟨"dataType", .logicalType, true⟩,
      ⟨"onFailure", .castFailurePolicy, true⟩, ⟨"format", .string, false⟩,
      ⟨"timezone", .string, false⟩] (validate serde)

end CastNode

namespace ReplaceLiteralNode

def validate (node : NodeConfig) : Except NodeGraphError ValidatedNodeConfig := do
  let (column, source, target) ← parseConfig node
    [("column", true), ("from", true), ("to", true)] [] fun object => do
      return (← decodeField object "column" serde.uuid,
        ← decodeField object "from" serde.scalarValue,
        ← decodeField object "to" serde.scalarValue)
  validateColumn node column "column"
  validateScalar node source "from"
  validateScalar node target "to"
  return .replaceLiteral column source target

def definition : NodeDefinition :=
  transformDefinition "stillflow.node.replace-literal"
    [⟨"column", .columnId, true⟩, ⟨"from", .scalarValue, true⟩, ⟨"to", .scalarValue, true⟩]
    (validate serde)

end ReplaceLiteralNode

namespace FillNullNode

def validate (node : NodeConfig) : Except NodeGraphError ValidatedNodeConfig := do
  let (column, value) ← parseConfig node [("column", true), ("value", true)] [] fun object => do
    return (← decodeField object "column" serde.uuid,
      ← decodeField object "value" serde.scalarValue)
  validateColumn node column "column"
  require (value ≠ .null) (invalidConfig node "value")
  validateScalar node value "value"
  return .fillNull column value

def definition : NodeDefinition :=
  transformDefinition "stillflow.node.fill-null"
    [⟨"column", .columnId, true⟩, ⟨"value", .scalarValue, true⟩] (validate serde)

end FillNullNode

namespace DropColumnNode

def validate (node : NodeConfig) : Except NodeGraphError ValidatedNodeConfig := do
  let column ← parseConfig node [("column", true)] [] fun object =>
    decodeField object "column" serde.uuid
  validateColumn node column "column"
  return .dropColumn column

def definition : NodeDefinition :=
  transformDefinition "stillflow.node.drop-column" [⟨"column", .columnId, true⟩] (validate serde)

end DropColumnNode

namespace DeriveColumnNode

def validate (node : NodeConfig) : Except NodeGraphError ValidatedNodeConfig := do
  let (id, name, dataType, nullable, expression) ← parseConfig node
    [("id", true), ("name", true), ("dataType", true), ("nullable", true), ("expression", true)] []
    fun object => do
      return (← decodeField object "id" serde.uuid, ← decodeField object "name" Value.asStr,
        ← decodeField object "dataType" serde.logicalType,
        ← decodeField object "nullable" Value.asBool, ← decodeField object "expression" serde.expr)
  validateColumn node id "id"
  validateName node name "name"
  validateLogicalType node dataType "dataType"
  validateExpression node expression "expression"
  return .deriveColumn id name dataType nullable expression

def definition : NodeDefinition :=
  transformDefinition "stillflow.node.derive-column"
    [⟨"id", .columnId, true⟩, ⟨"name", .string, true⟩, ⟨"dataType", .logicalType, true⟩,
      ⟨"nullable", .boolean, true⟩, ⟨"expression", .expression, true⟩] (validate serde)

end DeriveColumnNode

namespace NormalizeTextNode

def validate (node : NodeConfig) : Except NodeGraphError ValidatedNodeConfig := do
  let (column, operation) ← parseConfig node [("column", true), ("operation", true)] []
    fun object => do
      return (← decodeField object "column" serde.uuid,
        ← decodeField object "operation" serde.textOperation)
  validateColumn node column "column"
  return .normalizeText column operation

def definition : NodeDefinition :=
  transformDefinition "stillflow.node.normalize-text"
    [⟨"column", .columnId, true⟩, ⟨"operation", .string, true⟩] (validate serde)

end NormalizeTextNode

namespace SortNode

def minSortKeys : Nat := 1

def maxSortKeys : Nat := 8

def validate (node : NodeConfig) : Except NodeGraphError ValidatedNodeConfig := do
  let data ← parseConfig node [("keys", true)] [] fun object =>
    decodeField object "keys" fun value => value.asArray.bind fun items => items.mapM serde.sortKey
  require (minSortKeys ≤ data.length ∧ data.length ≤ maxSortKeys)
    ((NodeGraphError.new .invalidConfig (some node.id)
      ("sort keys must number between " ++ toString minSortKeys ++ " and " ++
        toString maxSortKeys)).withFieldPath "keys")
  let keys ← data.foldlM (fun (keys : List NodeSortKey) key => do
    require (key.column ≠ 0) (invalidConfig node "keys")
    require (key.column ∉ keys.map NodeSortKey.column) (invalidConfig node "keys")
    return keys ++ [key]) []
  return .sort keys

def definition : NodeDefinition :=
  transformDefinition "stillflow.node.sort" [⟨"keys", .columnIdList, true⟩] (validate serde)

end SortNode

namespace OutputNode

def validate (node : NodeConfig) : Except NodeGraphError ValidatedNodeConfig := do
  let outputLabel ← parseConfig node [("outputLabel", true)] [] fun object =>
    decodeField object "outputLabel" Value.asStr
  validateName node outputLabel "outputLabel"
  return .output outputLabel

def definition : NodeDefinition where
  typeId := "stillflow.node.output"
  configVersion := 1
  configSchema := ⟨[⟨"outputLabel", .string, true⟩]⟩
  inputPorts := ["in"]
  outputPorts := []
  role := .output
  kind := .atomic validate

end OutputNode

def productionDefinitions : List NodeDefinition :=
  [SourceNode.definition serde, SelectNode.definition serde, FilterNode.definition serde,
    RenameNode.definition serde, TrimNode.definition serde, CastNode.definition serde,
    ReplaceLiteralNode.definition serde, FillNullNode.definition serde,
    DropColumnNode.definition serde, DeriveColumnNode.definition serde,
    NormalizeTextNode.definition serde, SortNode.definition serde, OutputNode.definition]

end Stillflow.Core
