import Stillflow.Plan.CompileWork
import Stillflow.Plan.LogicalPlan
import Stillflow.Plan.RuleEffect

/-!
The node graph compiler: validated configs along the unique source-to-output path are lowered one
after another into a linear logical plan.
-/

namespace Stillflow.Plan

open Stillflow.Core Lib Lib.Fallible Lib.Maps

structure AuthorizedSourceContext where
  sourceAssetId : Uuid
  schema : LogicalSchema

inductive CompileTarget where
  | execution
  | preview (node : NodeId)
  deriving DecidableEq

structure CompiledNodeGraph where
  plan : LogicalPlan
  outputSchema : LogicalSchema
  nodePlanIds : Std.ExtTreeMap NodeId PlanNodeId
  nodeSchemas : Std.ExtTreeMap NodeId LogicalSchema

def graphErrorMessage : NodeGraphErrorCode → String
  | .unsupportedGraphVersion => "graph version is not supported"
  | .unknownNodeType => "node type is not registered"
  | .unsupportedConfigVersion => "node config version is not supported"
  | .invalidConfig => "node config is invalid"
  | .invalidPort => "node port is invalid"
  | .invalidTopology => "graph topology is not authorized"
  | .sourceBinding => "graph source binding is invalid"
  | .limitGraphBytes => "graph byte limit exceeded"
  | .limitNodes => "graph node limit exceeded"
  | .limitEdges => "graph edge limit exceeded"
  | .limitConfigBytes => "graph config byte limit exceeded"
  | .limitMetadataBytes => "graph metadata byte limit exceeded"
  | .limitStringBytes => "graph string limit exceeded"
  | .limitNestingDepth => "graph nesting limit exceeded"
  | .limitRulesPerNode => "node rule limit exceeded"
  | .limitRules => "graph rule limit exceeded"
  | .limitCompileWork => "compile work limit exceeded"
  | _ => "graph validation failed"

def mapGraphError (error : NodeGraphError) : NodeGraphCompileError :=
  (NodeGraphCompileError.new error.code error.nodeId (graphErrorMessage error.code)).withLocation
    none error.fieldPath none none

def semanticError (nodeId : NodeId) (error : SemanticError) : NodeGraphCompileError :=
  .new error.kind.code (some nodeId) error.kind.compileMessage

def planError (_ : PlanError) : NodeGraphCompileError :=
  .new .planInvalid none "compiled logical plan failed validation or canonicalization"

def pathError (nodeId : Option NodeId) (message : String) : NodeGraphCompileError :=
  .new .invalidTopology nodeId message

/-- Edges by endpoint tuple. -/
def edgeLe (left right : NodeEdge) : Bool :=
  (compare left.source.nodeId right.source.nodeId |>.then
    (compare left.source.port right.source.port) |>.then
    (compare left.target.nodeId right.target.nodeId) |>.then
    (compare left.target.port right.target.port)).isLE

abbrev Successors := Std.ExtTreeMap NodeId NodeId

def addSuccessor (outgoing : Successors) (edge : NodeEdge) :
    Except NodeGraphCompileError Successors := do
  require (outgoing.contains edge.source.nodeId = false)
    (pathError (some edge.source.nodeId) "graph has more than one outgoing edge")
  return outgoing.insert edge.source.nodeId edge.target.nodeId

def successorTrail (outgoing : Successors) (output : NodeId) :
    Trail NodeId Unit NodeGraphCompileError where
  visit _ := .ok ()
  next id :=
    match outgoing[id]? with
    | some target => .ok target
    | none => .error (pathError (some id) "graph path terminates before output")
  cycle id := pathError (some id) "graph path contains a cycle"
  stop := output
  keys := outgoing.keys
  next_mem {id target} h := by
    rw [Std.ExtTreeMap.mem_keys, Std.ExtTreeMap.mem_iff_isSome_getElem?]
    cases hget : outgoing[id]? with
    | none => simp [hget] at h
    | some target => rfl

def uniquePath (graph : NodeGraph) : Except NodeGraphCompileError (List NodeId) := do
  let outgoing ← (graph.edges.insertionSort fun left right => edgeLe left right = true).foldlM
    addSuccessor ∅
  let path ← (successorTrail outgoing graph.outputNodeId).follow graph.sourceNodeId
  require (path.length = graph.nodes.length) (pathError none "graph contains disconnected nodes")
  return path.map Prod.fst

def textOperation : NodeTextOperation → TextOperation
  | .trim => .trim
  | .collapseWhitespace => .collapseWhitespace
  | .lowercase => .lowercase
  | .uppercase => .uppercase
  | .unicodeNfc => .unicodeNfc

def castFailurePolicy : NodeCastFailurePolicy → CastFailurePolicy
  | .error => .error
  | .setNull => .setNull

/-- The one rule of a rule-producing config; a cast with a format is a temporal parse. -/
def productRule : ValidatedNodeConfig → Option Rule
  | .rename column target => some (.rename column target)
  | .trim column => some (.trim column)
  | .normalizeText column operation => some (.normalizeText column (textOperation operation))
  | .cast column dataType onFailure (some format) =>
    some (.parseTemporal column dataType (castFailurePolicy onFailure) format)
  | .cast column dataType onFailure none =>
    some (.cast column dataType (castFailurePolicy onFailure))
  | .replaceLiteral column source target => some (.replaceLiteral column source target)
  | .fillNull column value => some (.fillNull column value)
  | .dropColumn column => some (.dropColumn column)
  | .deriveColumn id name dataType nullable expression =>
    some (.deriveColumn id name dataType nullable expression)
  | .select _ | .filter _ | .source _ _ | .output _ | .composite _ | .sort _ => none

def isSortableType : LogicalType → Bool
  | .int8 | .int16 | .int32 | .int64 | .uint8 | .uint16 | .uint32 | .uint64 | .float32 | .float64
  | .date32 | .timestamp _ _ => true
  | _ => false

def planSortKey (key : NodeSortKey) : SortKey where
  column := key.column
  direction := match key.direction with
    | .ascending => .ascending
    | .descending => .descending
  nulls := match key.nulls with
    | .first => .first
    | .last => .last

def sortKey (nodeId : NodeId) (schema : LogicalSchema) (key : NodeSortKey) :
    Except NodeGraphCompileError SortKey :=
  match schema.field key.column with
  | none => .error (.new .unknownColumn (some nodeId)
      "sort key column is absent from the working schema")
  | some field => do
    require (isSortableType field.dataType = true)
      (.new .incompatibleType (some nodeId) "sort key column type is not ordered")
    (Capability.rejectPausedType field.dataType).mapError (semanticError nodeId)
    return planSortKey key

/-- The configs that are not one rule. -/
def compileOperator (nodeId : NodeId) (config : ValidatedNodeConfig) (schema : LogicalSchema) :
    Except NodeGraphCompileError (PlanNodeKind × LogicalSchema) :=
  match config with
  | .select columns => do
    let next ← (projectEffect schema columns).mapError (semanticError nodeId)
    return (.project columns, next)
  | .filter predicate => do
    let analysis ← (analyzeExpr predicate schema.field).mapError (semanticError nodeId)
    require (analysis.1 = .boolean)
      (.new .incompatibleType (some nodeId) "filter predicate must be boolean")
    return (.filter predicate, schema)
  | .sort keys => do
    let planKeys ← keys.mapM (sortKey nodeId schema)
    return (.sort planKeys, schema)
  | .composite _ => .error (pathError (some nodeId)
      "composite nodes are expanded by the graph traversal")
  | _ => .error (pathError (some nodeId) "source and output configs are not transform nodes")

def compileTransform (nodeId : NodeId) (config : ValidatedNodeConfig) (schema : LogicalSchema) :
    Except NodeGraphCompileError (PlanNodeKind × LogicalSchema) :=
  match productRule config with
  | some rule => do
    let next ← (ruleEffect schema rule).mapError (semanticError nodeId)
    return (.applyRules [rule], next)
  | none => compileOperator nodeId config schema

/-- The product id with its low 16 bits replaced by `0x8000 | ordinal`. -/
def internalPlanNodeId (product : PlanNodeId) (ordinal : UInt16) : PlanNodeId :=
  (product &&& ~~~(0xFFFF : Uuid)) ||| 0x8000 ||| ordinal.toBitVec.setWidth 128

structure CompileState where
  nodePlanIds : Std.ExtTreeMap NodeId PlanNodeId
  planNodes : Std.ExtTreeMap PlanNodeId PlanNode
  nodeSchemas : Std.ExtTreeMap NodeId LogicalSchema
  workingSchema : LogicalSchema
  previous : Option PlanNodeId

/-- Emit one plan node under the previous one. -/
def CompileState.emit (state : CompileState) (id : PlanNodeId) (kind : PlanNodeKind)
    (next : LogicalSchema) : CompileState :=
  { state with
    planNodes := state.planNodes.insert id ⟨state.previous.toList, kind⟩
    nodeSchemas := state.nodeSchemas.insert id next
    workingSchema := next
    previous := some id }

/-- One step of a composite expansion under its derived id. -/
def compileStep (nodeId : NodeId) (planId : PlanNodeId) (state : CompileState)
    (step : ValidatedNodeConfig × Nat) : Except NodeGraphCompileError CompileState := do
  let internal := internalPlanNodeId planId (UInt16.ofNat step.2)
  require (internal ∉ values state.nodePlanIds) (.new .invalidConfig (some nodeId)
    "internal plan node id collides with a product node id")
  let (kind, next) ← compileTransform nodeId step.1 state.workingSchema
  return state.emit internal kind next

def compileComposite (nodeId : NodeId) (planId : PlanNodeId) (steps : List ValidatedNodeConfig)
    (state : CompileState) : Except NodeGraphCompileError CompileState := do
  let expanded ← steps.zipIdx.foldlM (compileStep nodeId planId) state
  let lastInternal := if steps.isEmpty then planId else expanded.previous.getD planId
  return { expanded with
    nodePlanIds := expanded.nodePlanIds.insert nodeId lastInternal
    nodeSchemas := expanded.nodeSchemas.insert nodeId expanded.workingSchema
    previous := some lastInternal }

/-- The kind and schema of an atomic path node. -/
def compileAtomic (graph : NodeGraph) (sourceAssetId : Uuid) (nodeId : NodeId)
    (config : ValidatedNodeConfig) (schema : LogicalSchema) :
    Except NodeGraphCompileError (PlanNodeKind × LogicalSchema) :=
  if nodeId = graph.sourceNodeId then
    .ok (.scan sourceAssetId (schema.fields.map (·.id)) none, schema)
  else if nodeId = graph.outputNodeId then
    match config with
    | .output outputLabel => .ok (.materialize outputLabel, schema)
    | _ => .error (pathError (some nodeId)
        "declared output node did not resolve to an output config")
  else compileTransform nodeId config schema

def compileNode (graph : NodeGraph) (configs : Configs) (sourceAssetId : Uuid)
    (state : CompileState) (nodeId : NodeId) : Except NodeGraphCompileError CompileState :=
  let planId := state.nodePlanIds[nodeId]?.getD nodeId
  match configs[nodeId]? with
  | none => .error (.new .internal (some nodeId) "validated node config is absent")
  | some (.composite steps) => compileComposite nodeId planId steps state
  | some config => do
    let (kind, next) ← compileAtomic graph sourceAssetId nodeId config state.workingSchema
    return { state.emit planId kind next with
      nodeSchemas := state.nodeSchemas.insert nodeId next }

def projectSourceSchema (schema : LogicalSchema) (projection : Option (List ColumnId))
    (nodeId : NodeId) : Except NodeGraphCompileError LogicalSchema :=
  (projectEffect schema (projection.getD (schema.fields.map (·.id)))).mapError
    (semanticError nodeId)

/-- The asset and projection of the declared source. -/
def sourceConfig (graph : NodeGraph) (configs : Configs) :
    Except NodeGraphCompileError (Uuid × Option (List ColumnId)) :=
  match configs[graph.sourceNodeId]? with
  | some (.source sourceAssetId projection) => .ok (sourceAssetId, projection)
  | _ => .error (pathError (some graph.sourceNodeId)
      "declared source node did not resolve to a source config")

def checkTarget (graph : NodeGraph) (configs : Configs) :
    CompileTarget → Except NodeGraphCompileError Unit
  | .execution => .ok ()
  | .preview node => require (node ≠ graph.outputNodeId ∧ configs.contains node = true)
      (.new .unsupportedTarget (some node)
        "preview target is not an emitted non-materialize node")

def initialPlanIds (path : List NodeId) : Std.ExtTreeMap NodeId PlanNodeId :=
  path.foldl (fun ids nodeId => ids.insert nodeId nodeId) ∅

namespace CompiledNodeGraph

def previewPlanNodeId (compiled : CompiledNodeGraph) (target : NodeId) :
    Except NodeGraphCompileError PlanNodeId :=
  match compiled.nodePlanIds[target]? with
  | none => .error (.new .unsupportedTarget (some target)
      "preview target is not present in the compiled graph")
  | some planId => do
    require (planId ≠ compiled.plan.root) (.new .unsupportedTarget (some target)
      "materialize node is not a preview target")
    return planId

def checkPreview (compiled : CompiledNodeGraph) : CompileTarget → Except NodeGraphCompileError Unit
  | .execution => .ok ()
  | .preview node => do
    let _ ← compiled.previewPlanNodeId node

end CompiledNodeGraph

/-- The plan of a lowered path, with its canonical bytes and fingerprint computed once. -/
def finishPlan (toVec : LogicalPlan → Except String (List UInt8)) (graph : NodeGraph)
    (state : CompileState) : Except NodeGraphCompileError CompiledNodeGraph := do
  let root := state.nodePlanIds[graph.outputNodeId]?.getD graph.outputNodeId
  let plan ← (LogicalPlan.new root state.planNodes).mapError planError
  let _ ← (plan.canonicalBytes toVec).mapError planError
  let _ ← (plan.fingerprint toVec).mapError planError
  return ⟨plan, state.workingSchema, state.nodePlanIds, state.nodeSchemas⟩

/-- The stages after the work checks and the path. -/
def lowerAlong (toVec : LogicalPlan → Except String (List UInt8)) (graph : NodeGraph)
    (configs : Configs) (source : AuthorizedSourceContext) (target : CompileTarget)
    (path : List NodeId) : Except NodeGraphCompileError CompiledNodeGraph := do
  let (sourceAssetId, projection) ← sourceConfig graph configs
  require (sourceAssetId = source.sourceAssetId) (.new .sourceBinding (some graph.sourceNodeId)
    "graph source asset is not the authorized source asset")
  checkTarget graph configs target
  let workingSchema ← projectSourceSchema source.schema projection graph.sourceNodeId
  let state ← path.foldlM (compileNode graph configs sourceAssetId)
    ⟨initialPlanIds path, ∅, ∅, workingSchema, none⟩
  let compiled ← finishPlan toVec graph state
  compiled.checkPreview target
  return compiled

/-- The stages after graph validation. -/
def lowerGraph (toVec : LogicalPlan → Except String (List UInt8)) (graph : NodeGraph)
    (configs : Configs) (source : AuthorizedSourceContext) (target : CompileTarget) :
    Except NodeGraphCompileError CompiledNodeGraph := do
  checkCompileWork graph configs (some source.schema)
  lowerAlong toVec graph configs source target (← uniquePath graph)

def compile (serde : Serde) (toVec : LogicalPlan → Except String (List UInt8))
    (registry : NodeRegistry) (graph : NodeGraph) (source : AuthorizedSourceContext)
    (target : CompileTarget) : Except NodeGraphCompileError CompiledNodeGraph := do
  checkShapeWork graph
  source.schema.validate.mapError fun _ =>
    .new .invalidConfig none "authorized source schema is invalid"
  let configs ← (graph.validatedConfigs serde registry).mapError mapGraphError
  lowerGraph toVec graph configs source target

/-- Whether the declared source is bound to the requested asset. -/
def checkBinding (graph : NodeGraph) (configs : Configs) (sourceAssetId : Uuid) :
    Except NodeGraphCompileError Unit := do
  let (bound, _) ← sourceConfig graph configs
  require (bound = sourceAssetId) (.new .sourceBinding (some graph.sourceNodeId)
    "graph source asset is not the authorized source asset")

def validateNodeGraph (serde : Serde) (registry : NodeRegistry) (graph : NodeGraph)
    (sourceAssetId : Uuid) : Except NodeGraphCompileError Unit := do
  checkShapeWork graph
  let configs ← (graph.validatedConfigs serde registry).mapError mapGraphError
  checkCompileWork graph configs none
  let _ ← uniquePath graph
  checkBinding graph configs sourceAssetId

end Stillflow.Plan
