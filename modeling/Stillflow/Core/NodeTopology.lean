import Stillflow.Core.Composite
import Stillflow.Lib.Trail

/-! Validation of a graph against a registry: configs, ports, degrees and the linear path. -/

namespace Stillflow.Core

open Lib Lib.Fallible

variable (serde : Serde)

abbrev Definitions := Std.ExtTreeMap NodeId NodeDefinition

abbrev Configs := Std.ExtTreeMap NodeId ValidatedNodeConfig

/-- What the node loop of `validated_configs` accumulates. -/
structure NodeScan where
  definitions : Definitions := ∅
  configs : Configs := ∅
  sourceCount : Nat := 0
  outputCount : Nat := 0

def resolveNode (registry : NodeRegistry) (node : NodeConfig) :
    Except NodeGraphError (NodeDefinition × ValidatedNodeConfig) := do
  let definition ← (registry.lookup node.typeId node.configVersion).mapError fun error =>
    .new error.code (some node.id) error.message
  let typed ← resolveConfig serde registry node definition
  return (definition, typed)

def NodeScan.add (scan : NodeScan) (id : NodeId)
    (resolved : NodeDefinition × ValidatedNodeConfig) : NodeScan where
  definitions := scan.definitions.insert id resolved.1
  configs := scan.configs.insert id resolved.2
  sourceCount := scan.sourceCount + if resolved.1.isSource then 1 else 0
  outputCount := scan.outputCount + if resolved.1.isOutput then 1 else 0

def scanNode (registry : NodeRegistry) (scan : NodeScan) (node : NodeConfig) :
    Except NodeGraphError NodeScan := do
  return scan.add node.id (← resolveNode serde registry node)

/-- Nodes by ascending id; the source sorts stably, and ids are unique by now. -/
def orderedNodes (nodes : List NodeConfig) : List NodeConfig :=
  nodes.insertionSort fun left right => left.id ≤ right.id

def topologyError (nodeId : Option NodeId) (message : String) : NodeGraphError :=
  .new .invalidTopology nodeId message

def resolveDefinition (definitions : Definitions) (id : NodeId) (message : String) :
    Except NodeGraphError NodeDefinition :=
  match definitions[id]? with
  | some definition => .ok definition
  | none => .error (topologyError (some id) message)

/-- Edges by endpoint, in the order in which the edge loop pushed them. -/
abbrev Adjacency := Std.ExtTreeMap NodeId (List NodeEdge)

def emptyAdjacency (nodes : List NodeConfig) : Adjacency :=
  nodes.foldl (fun adjacency node => adjacency.insert node.id []) ∅

def pushEdge (adjacency : Adjacency) (id : NodeId) (edge : NodeEdge) (message : String) :
    Except NodeGraphError Adjacency :=
  match adjacency[id]? with
  | some edges => .ok (adjacency.insert id (edges ++ [edge]))
  | none => .error (.new .internal (some id) message)

/-- The port and self-edge checks of one edge. -/
def checkEdge (definitions : Definitions) (edge : NodeEdge) : Except NodeGraphError Unit := do
  let fromDefinition ←
    resolveDefinition definitions edge.source.nodeId "edge source node is absent"
  let toDefinition ← resolveDefinition definitions edge.target.nodeId "edge target node is absent"
  require (edge.source.port ∈ fromDefinition.outputPorts)
    (.new .invalidPort (some edge.source.nodeId) "edge source port is not declared")
  require (edge.target.port ∈ toDefinition.inputPorts)
    (.new .invalidPort (some edge.target.nodeId) "edge target port is not declared")
  require (edge.source.nodeId ≠ edge.target.nodeId)
    (topologyError (some edge.source.nodeId) "self-edge is not supported")

def addEdge (definitions : Definitions) (state : Adjacency × Adjacency) (edge : NodeEdge) :
    Except NodeGraphError (Adjacency × Adjacency) := do
  checkEdge definitions edge
  let outgoing ← pushEdge state.2 edge.source.nodeId edge "resolved outgoing node is absent"
  let incoming ← pushEdge state.1 edge.target.nodeId edge "resolved incoming node is absent"
  return (incoming, outgoing)

def lookupNode {α : Type} (map : Std.ExtTreeMap NodeId α) (id : NodeId) (message : String) :
    Except NodeGraphError α :=
  match map[id]? with
  | some value => .ok value
  | none => .error (.new .internal (some id) message)

/-- The degree law of the linear path for one node. -/
def checkDegree (definitions : Definitions) (incoming outgoing : Adjacency) (node : NodeConfig) :
    Except NodeGraphError Unit := do
  let definition ← lookupNode definitions node.id "resolved node definition is absent"
  let inEdges ← lookupNode incoming node.id "resolved incoming node is absent"
  let outEdges ← lookupNode outgoing node.id "resolved outgoing node is absent"
  require (¬((definition.isSource = true ∧ inEdges.length ≠ 0) ∨
      (definition.isSource = false ∧ inEdges.length ≠ 1) ∨
      (definition.isOutput = true ∧ outEdges.length ≠ 0) ∨
      (definition.isOutput = false ∧ outEdges.length ≠ 1)))
    (topologyError (some node.id) "Phase-1 graph must be one connected linear path")

/-- The walk along first outgoing edges from the source to the output. -/
def pathTrail (outgoing : Adjacency) (output : NodeId) : Trail NodeId Unit NodeGraphError where
  visit _ := .ok ()
  next id :=
    match outgoing[id]?.bind List.head? with
    | some edge => .ok edge.target.nodeId
    | none => .error (topologyError (some id) "path terminates before output")
  cycle id := topologyError (some id) "graph contains a cycle"
  stop := output
  keys := outgoing.keys
  next_mem {id target} h := by
    rw [Std.ExtTreeMap.mem_keys, Std.ExtTreeMap.mem_iff_isSome_getElem?]
    cases hget : outgoing[id]? with
    | none => simp [hget] at h
    | some edges => rfl

/-- The checks on counts and declared endpoints that follow the node loop. -/
def checkEndpoints (graph : NodeGraph) (scan : NodeScan) : Except NodeGraphError Unit := do
  require (scan.sourceCount = 1 ∧ scan.outputCount = 1)
    (topologyError none "graph must contain exactly one source and one output")
  let sourceDefinition ←
    resolveDefinition scan.definitions graph.sourceNodeId "declared source node is absent"
  require (sourceDefinition.isSource = true)
    (topologyError (some graph.sourceNodeId) "declared source node is not a source")
  let outputDefinition ←
    resolveDefinition scan.definitions graph.outputNodeId "declared output node is absent"
  require (outputDefinition.isOutput = true)
    (topologyError (some graph.outputNodeId) "declared output node is not an output")

namespace NodeGraph

/-- Everything before the edge loop: bounds, configs, counts and declared endpoints. -/
def scanNodes (graph : NodeGraph) (registry : NodeRegistry) : Except NodeGraphError NodeScan := do
  let _ ← graph.validateBasic
  require (2 ≤ graph.nodes.length)
    (topologyError none "graph must contain a source and output")
  let scan ← (orderedNodes graph.nodes).foldlM (scanNode serde registry) {}
  checkEndpoints graph scan
  return scan

/-- The edge loop, in the order of the caller's array. -/
def connect (graph : NodeGraph) (definitions : Definitions) :
    Except NodeGraphError (Adjacency × Adjacency) :=
  graph.edges.foldlM (addEdge definitions)
    (emptyAdjacency graph.nodes, emptyAdjacency graph.nodes)

def checkPath (graph : NodeGraph) (outgoing : Adjacency) : Except NodeGraphError Unit := do
  let visited ← (pathTrail outgoing graph.outputNodeId).follow graph.sourceNodeId
  require (visited.length = graph.nodes.length)
    (topologyError none "graph contains disconnected nodes or an alternate path")

def validatedConfigs (graph : NodeGraph) (registry : NodeRegistry) :
    Except NodeGraphError Configs := do
  let scan ← graph.scanNodes serde registry
  let (incoming, outgoing) ← graph.connect scan.definitions
  -- the degree loop also follows the caller's array
  graph.nodes.forM (checkDegree scan.definitions incoming outgoing)
  graph.checkPath outgoing
  return scan.configs

end NodeGraph

end Stillflow.Core
