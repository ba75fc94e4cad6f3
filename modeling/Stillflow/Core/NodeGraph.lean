import Stillflow.Core.Json
import Stillflow.Lib.WorkStack

/-! Product node graphs and the bounds every graph meets before any registry is consulted. -/

namespace Stillflow.Core

open Lib.Fallible Lib.WorkStack

def nodeGraphVersion : UInt16 := 1

def maxGraphBytes : Nat := 2 * 1024 * 1024

def maxNodes : Nat := 64

def maxEdges : Nat := maxNodes - 1

def maxConfigBytes : Nat := 64 * 1024

def maxTotalConfigBytes : Nat := 1024 * 1024

def maxStringBytes : Nat := 4 * 1024

def maxMetadataBytes : Nat := 64 * 1024

def maxNestingDepth : Nat := 64

inductive NodeGraphErrorCode where
  | unsupportedGraphVersion
  | unknownNodeType
  | unsupportedConfigVersion
  | invalidConfig
  | invalidPort
  | invalidTopology
  | sourceBinding
  | unknownColumn
  | incompatibleType
  | unsupportedTarget
  | limitGraphBytes
  | limitNodes
  | limitEdges
  | limitConfigBytes
  | limitMetadataBytes
  | limitStringBytes
  | limitNestingDepth
  | limitRulesPerNode
  | limitRules
  | limitCompileWork
  | planInvalid
  | internal
  deriving DecidableEq

abbrev NodeId := Uuid

abbrev PortId := String

structure NodeGraphError where
  code : NodeGraphErrorCode
  nodeId : Option NodeId
  fieldPath : Option String
  message : String
  deriving DecidableEq

def NodeGraphError.new (code : NodeGraphErrorCode) (nodeId : Option NodeId) (message : String) :
    NodeGraphError :=
  ⟨code, nodeId, none, message⟩

def NodeGraphError.withFieldPath (error : NodeGraphError) (field : String) : NodeGraphError :=
  { error with fieldPath := some field }

structure NodePort where
  nodeId : NodeId
  port : PortId
  deriving DecidableEq

structure NodeEdge where
  source : NodePort
  target : NodePort
  deriving DecidableEq

structure NodeConfig where
  id : NodeId
  typeId : String
  configVersion : UInt16
  config : Value
  metadata : Metadata

structure NodeGraph where
  version : UInt16
  graphId : Uuid
  sourceNodeId : NodeId
  outputNodeId : NodeId
  nodes : List NodeConfig
  edges : List NodeEdge
  metadata : Metadata

/-- The metadata member, which is skipped when the map is empty. -/
def metadataMember (metadata : Metadata) : List (List Char) :=
  if metadata.isEmpty then []
  else [memberText "metadata" (objectText (metadata.toList.map fun entry =>
    memberText entry.1 (quote entry.2.toList)))]

def NodePort.text (port : NodePort) : List Char :=
  objectText [memberText "nodeId" (uuidJson port.nodeId), memberText "port" (quote port.port.toList)]

def NodeEdge.text (edge : NodeEdge) : List Char :=
  objectText [memberText "from" edge.source.text, memberText "to" edge.target.text]

def versionText (version : UInt16) : List Char := (toString version.toNat).toList

def NodeConfig.text (node : NodeConfig) : List Char :=
  objectText ([memberText "id" (uuidJson node.id), memberText "typeId" (quote node.typeId.toList),
    memberText "configVersion" (versionText node.configVersion),
    memberText "config" node.config.text] ++ metadataMember node.metadata)

def NodeGraph.text (graph : NodeGraph) : List Char :=
  objectText ([memberText "version" (versionText graph.version),
    memberText "graphId" (uuidJson graph.graphId),
    memberText "sourceNodeId" (uuidJson graph.sourceNodeId),
    memberText "outputNodeId" (uuidJson graph.outputNodeId),
    memberText "nodes" (arrayText (graph.nodes.map NodeConfig.text)),
    memberText "edges" (arrayText (graph.edges.map NodeEdge.text))] ++
    metadataMember graph.metadata)

def checkedAdd {ε : Type} (error : ε) (total bytes : Nat) : Except ε Nat :=
  if total + bytes ≤ usizeMax then .ok (total + bytes) else .error error

def validateString (value : String) (nodeId : Option NodeId) (field : String) :
    Except NodeGraphError Unit :=
  require (byteLen value ≤ maxStringBytes) (.new .limitStringBytes nodeId
    (field ++ " exceeds " ++ toString maxStringBytes ++ " UTF-8 bytes"))

def validateMetadataMap (metadata : Metadata) (nodeId : Option NodeId) :
    Except NodeGraphError Nat := do
  let bytes ← metadata.toList.foldlM (fun bytes entry => do
    validateString entry.1 nodeId "metadata key"
    validateString entry.2 nodeId "metadata value"
    checkedAdd (.new .limitMetadataBytes nodeId "metadata size overflowed") bytes
      (byteLen entry.1 + byteLen entry.2)) 0
  require (metadataSafe metadata = true)
    (.new .invalidConfig nodeId "metadata contains secret-like data")
  return bytes

/-- One iteration of `validate_json_limits`; the pushed values are listed top first. -/
def jsonLimitsNode (nodeId : Option NodeId) (task : Value × Nat) :
    Except NodeGraphError (List (Value × Nat)) := do
  require (task.2 ≤ maxNestingDepth)
    (.new .limitNestingDepth nodeId "JSON nesting depth bound exceeded")
  match task.1 with
  | .object entries =>
    entries.forM fun entry => validateString entry.1 nodeId "config key"
    return (entries.map fun entry => (entry.2, task.2 + 1)).reverse
  | .array items => return (items.map fun item => (item, task.2 + 1)).reverse
  | .string text =>
    validateString text nodeId "config string"
    return []
  | .null | .bool _ | .number _ => return []

theorem jsonLimitsNode_size {nodeId : Option NodeId} {task : Value × Nat}
    {tasks : List (Value × Nat)} (h : jsonLimitsNode nodeId task = .ok tasks) :
    (tasks.map fun t => t.1.weight).sum < task.1.weight := by
  obtain ⟨value, depth⟩ := task
  obtain ⟨_, _, h⟩ := of_bind h
  cases value with
  | object entries =>
    obtain ⟨_, _, h⟩ := of_bind h
    cases h
    simp [Value.weight, entriesWeight_eq_sum, Function.comp_def]
  | array items =>
    cases h
    simp [Value.weight, itemsWeight_eq_sum, Function.comp_def]
  | string text =>
    obtain ⟨_, _, h⟩ := of_bind h
    cases h
    simp [Value.weight]
  | null | bool | number =>
    cases h
    simp [Value.weight]

def jsonLimitsWalk (nodeId : Option NodeId) : Walk (Value × Nat) Unit NodeGraphError where
  visit task _ := do return (← jsonLimitsNode nodeId task, ())
  size task := task.1.weight
  size_pos task := task.1.weight_pos
  size_lt {task s tasks s'} h := by
    obtain ⟨tasks', htasks, heq⟩ := of_bind h
    cases heq
    exact jsonLimitsNode_size htasks

def validateJsonLimits (value : Value) (nodeId : Option NodeId) : Except NodeGraphError Unit :=
  (jsonLimitsWalk nodeId).run [(value, 1)] ()

/-- The bytes of the config of a node that is valid on its own. -/
def NodeConfig.validateLocal (node : NodeConfig) : Except NodeGraphError Nat := do
  require (node.id ≠ 0) (.new .invalidConfig (some node.id) "node id must not be nil")
  validateString node.typeId (some node.id) "type id"
  require (node.typeId ≠ "") (.new .invalidConfig (some node.id) "type id must not be empty")
  require (node.config.isObject = true)
    (.new .invalidConfig (some node.id) "node config must be a JSON object")
  require (node.config.byteLen ≤ maxConfigBytes) (.new .limitConfigBytes (some node.id)
    ("node config exceeds " ++ toString maxConfigBytes ++ " bytes"))
  validateJsonLimits node.config (some node.id)
  require (node.config.noSecretFields = true)
    (.new .invalidConfig (some node.id) "node config contains secret-like data")
  let _ ← validateMetadataMap node.metadata (some node.id)
  return node.config.byteLen

def NodeConfig.new (id : NodeId) (typeId : String) (configVersion : UInt16) (config : Value)
    (metadata : Metadata) : Except NodeGraphError NodeConfig := do
  let node : NodeConfig := ⟨id, typeId, configVersion, config, metadata⟩
  let _ ← node.validateLocal
  return node

/-- One node of the `validate_basic` loop: the ids seen and the config bytes so far. -/
def basicNode (state : List NodeId × Nat) (node : NodeConfig) :
    Except NodeGraphError (List NodeId × Nat) := do
  require (node.id ∉ state.1)
    (.new .invalidTopology (some node.id) "node ids must be unique")
  let total ← checkedAdd
    (.new .limitConfigBytes (some node.id) "aggregate config size overflowed")
    state.2 (← node.validateLocal)
  require (total ≤ maxTotalConfigBytes) (.new .limitConfigBytes (some node.id)
    ("aggregate config exceeds " ++ toString maxTotalConfigBytes ++ " bytes"))
  return (state.1 ++ [node.id], total)

def basicEdge (nodeIds : List NodeId) (seen : List NodeEdge) (edge : NodeEdge) :
    Except NodeGraphError (List NodeEdge) := do
  require (edge ∉ seen)
    (.new .invalidTopology (some edge.source.nodeId) "edge tuples must be unique")
  require (edge.source.nodeId ∈ nodeIds ∧ edge.target.nodeId ∈ nodeIds)
    (.new .invalidTopology none "edge endpoints must reference existing nodes")
  return seen ++ [edge]

def metadataTotal (total : Nat) (node : NodeConfig) : Except NodeGraphError Nat := do
  checkedAdd (.new .limitMetadataBytes (some node.id) "aggregate metadata size overflowed") total
    (← validateMetadataMap node.metadata (some node.id))

def NodeGraph.validateBasic (graph : NodeGraph) : Except NodeGraphError Nat := do
  require (graph.version = nodeGraphVersion) (.new .unsupportedGraphVersion none
    ("graph version " ++ toString graph.version.toNat ++ " is not supported"))
  require (graph.graphId ≠ 0) (.new .invalidConfig none "graph id must not be nil")
  require (graph.sourceNodeId ≠ graph.outputNodeId) (.new .invalidTopology
    (some graph.sourceNodeId) "source and output must be different nodes")
  require (graph.nodes.length ≤ maxNodes) (.new .limitNodes none
    ("graph contains more than " ++ toString maxNodes ++ " nodes"))
  require (graph.edges.length ≤ maxEdges) (.new .limitEdges none
    ("graph contains more than " ++ toString maxEdges ++ " edges"))
  require (graph.nodes ≠ []) (.new .invalidTopology none "graph must contain nodes")
  require (graph.edges.length = graph.nodes.length - 1) (.new .invalidTopology none
    "Phase-1 graph must have exactly nodes minus one edges")
  let (nodeIds, totalConfigBytes) ← graph.nodes.foldlM basicNode ([], 0)
  require (graph.sourceNodeId ∈ nodeIds ∧ graph.outputNodeId ∈ nodeIds)
    (.new .invalidTopology none "source and output nodes must be present")
  let _ ← graph.edges.foldlM (basicEdge nodeIds) []
  let metadataBytes ← validateMetadataMap graph.metadata none
  let totalMetadataBytes ← graph.nodes.foldlM metadataTotal metadataBytes
  require (totalMetadataBytes ≤ maxMetadataBytes) (.new .limitMetadataBytes none
    ("aggregate metadata exceeds " ++ toString maxMetadataBytes ++ " bytes"))
  require (textBytes graph.text ≤ maxGraphBytes) (.new .limitGraphBytes none
    ("serialized graph exceeds " ++ toString maxGraphBytes ++ " bytes"))
  return totalConfigBytes

def NodeGraph.new (graphId sourceNodeId outputNodeId : Uuid) (nodes : List NodeConfig)
    (edges : List NodeEdge) (metadata : Metadata) : Except NodeGraphError NodeGraph := do
  let graph : NodeGraph :=
    ⟨nodeGraphVersion, graphId, sourceNodeId, outputNodeId, nodes, edges, metadata⟩
  let _ ← graph.validateBasic
  return graph

end Stillflow.Core
