import Stillflow.Plan.Presentation

/-! Which fault a rejected graph reports. -/

namespace Stillflow.Plan

open Stillflow.Core Lib Lib.Fallible Lib.Maps Lib.FirstFault List Option

variable {serde : Serde} {registry : NodeRegistry} {graph graph' : NodeGraph} {scan : NodeScan}

/-- The registered definition of a node of the graph. -/
def nodeDefinition (registry : NodeRegistry) (graph : NodeGraph) (id : NodeId) :
    Option NodeDefinition :=
  (graph.nodes.find? (·.id = id)).bind fun node =>
    (registry.lookup node.typeId node.configVersion).toOption

/-- The fault of one edge: an undeclared source port, an undeclared target port, a self-edge. -/
def edgeFault (registry : NodeRegistry) (graph : NodeGraph) (edge : NodeEdge) :
    Option (NodeGraphErrorCode × Option NodeId) :=
  match nodeDefinition registry graph edge.source.nodeId,
    nodeDefinition registry graph edge.target.nodeId with
  | none, _ => some (.invalidTopology, edge.source.nodeId)
  | some _, none => some (.invalidTopology, edge.target.nodeId)
  | some source, some target =>
    if edge.source.port ∉ source.outputPorts then some (.invalidPort, edge.source.nodeId)
    else if edge.target.port ∉ target.inputPorts then some (.invalidPort, edge.target.nodeId)
    else if edge.source.nodeId = edge.target.nodeId then
      some (.invalidTopology, edge.source.nodeId)
    else none

/-- The fault of a node that breaks the degree law of the linear path. -/
def degreeFault (registry : NodeRegistry) (graph : NodeGraph) (node : NodeConfig) :
    Option (NodeGraphErrorCode × Option NodeId) :=
  if (nodeDefinition registry graph node.id).any fun definition =>
    decide (DegreeLaw definition graph.edges node.id) then none
  else some (.invalidTopology, node.id)

/-- A graph that reaches the edge loop has one edge fault at most, up to its code and node, and if
it has none, one node at most breaks the degree law. -/
def SingleFault (serde : Serde) (registry : NodeRegistry) (graph : NodeGraph) : Prop :=
  (checkShapeWork graph).isOk = true → (graph.scanNodes serde registry).isOk = true →
    (∀ edge ∈ graph.edges, ∀ other ∈ graph.edges, ∀ fault fault',
      edgeFault registry graph edge = some fault → edgeFault registry graph other = some fault' →
        fault = fault') ∧
    ((∀ edge ∈ graph.edges, edgeFault registry graph edge = none) →
      ∀ node ∈ graph.nodes, ∀ other ∈ graph.nodes, ∀ fault fault',
        degreeFault registry graph node = some fault →
        degreeFault registry graph other = some fault' → fault = fault')

def graphKey (error : NodeGraphError) : NodeGraphErrorCode × Option NodeId :=
  (error.code, error.nodeId)

def compileKey (error : NodeGraphCompileError) : NodeGraphErrorCode × Option NodeId :=
  (error.code, error.nodeId)

def reportedFault {α : Type} : Except NodeGraphCompileError α →
    Option (NodeGraphErrorCode × Option NodeId)
  | .ok _ => none
  | .error error => some (compileKey error)

theorem compileKey_mapGraphError (error : NodeGraphError) :
    compileKey (mapGraphError error) = graphKey error := by
  unfold mapGraphError NodeGraphCompileError.withLocation
  split_ifs <;> rfl

theorem nodeDefinition_eq (h : graph.Scanned serde registry scan) {id : NodeId}
    (hid : id ∈ graph.nodeIds) : nodeDefinition registry graph id = scan.definitions[id]? := by
  obtain ⟨node, hnode, rfl⟩ := mem_map.mp hid
  obtain ⟨resolved, hresolved, hdefinition, -⟩ := h.resolved node hnode
  have hfind : graph.nodes.find? (·.id = node.id) = some node := by
    cases hfound : graph.nodes.find? (·.id = node.id) with
    | none => simpa using find?_eq_none.mp hfound node hnode
    | some other =>
      have hother := mem_of_find?_eq_some hfound
      have hsame : other.id = node.id := by simpa using find?_some hfound
      rw [inj_on_of_nodup_map h.basic.ids_nodup hother hnode hsame]
  unfold resolveNode at hresolved
  obtain ⟨definition, hlookup, hresolved⟩ := of_bind hresolved
  obtain ⟨config, -, hresolved⟩ := of_bind hresolved
  cases hresolved
  rw [hdefinition, nodeDefinition, hfind, bind_some, mapError_eq_ok.mp hlookup]
  rfl

/-- The fault that the declared order names: of the nodes with a faulty config the one with the least
id; without such a node, of the faulty edges the one with the least endpoints; without such an edge,
of the nodes that break the degree law the one with the least id. -/
inductive DeclaredFault (serde : Serde) (registry : NodeRegistry) (graph : NodeGraph) :
    NodeGraphErrorCode × Option NodeId → Prop where
  | config {node : NodeConfig} {key : NodeGraphErrorCode × Option NodeId} {e : NodeGraphError}
    (hcount : 2 ≤ graph.nodes.length) (hnode : node ∈ graph.nodes)
    (hfault : resolveNode serde registry node = .error e) (hkey : graphKey e = key)
    (hleast : ∀ other ∈ graph.nodes, other.id < node.id →
      (resolveNode serde registry other).isOk = true) : DeclaredFault serde registry graph key
  | edge {edge : NodeEdge} {key : NodeGraphErrorCode × Option NodeId}
    (hscan : (graph.scanNodes serde registry).isOk = true) (hedge : edge ∈ graph.edges)
    (hfault : edgeFault registry graph edge = some key)
    (hleast : ∀ other ∈ graph.edges, edgeFault registry graph other ≠ none →
      edgeLe edge other = true) : DeclaredFault serde registry graph key
  | degree {node : NodeConfig} {key : NodeGraphErrorCode × Option NodeId}
    (hscan : (graph.scanNodes serde registry).isOk = true)
    (hedges : ∀ edge ∈ graph.edges, edgeFault registry graph edge = none)
    (hnode : node ∈ graph.nodes) (hfault : degreeFault registry graph node = some key)
    (hleast : ∀ other ∈ graph.nodes, other.id < node.id →
      degreeFault registry graph other = none) : DeclaredFault serde registry graph key

theorem describes_edges (h : graph.Scanned serde registry scan) :
    Describes graphKey (checkEdge scan.definitions) (edgeFault registry graph) graph.edges := by
  intro edge hedge
  obtain ⟨hsource, htarget⟩ := h.basic.edges_mem edge hedge
  unfold checkEdge edgeFault resolveDefinition
  rw [nodeDefinition_eq h hsource, nodeDefinition_eq h htarget]
  cases scan.definitions[edge.source.nodeId]? with
  | none => exact .inr ⟨_, rfl, rfl⟩
  | some source =>
    cases scan.definitions[edge.target.nodeId]? with
    | none => exact .inr ⟨_, rfl, rfl⟩
    | some target =>
      simp only [ok_bind, require]
      by_cases hout : edge.source.port ∈ source.outputPorts
      · by_cases hin : edge.target.port ∈ target.inputPorts
        · by_cases hself : edge.source.nodeId = edge.target.nodeId
          · exact .inr ⟨_, by simp [hout, hin, hself]; rfl, by simp [hout, hin, hself]; rfl⟩
          · exact .inl ⟨by simp [hout, hin, hself], by simp [hout, hin, hself]⟩
        · exact .inr ⟨_, by simp [hout, hin]; rfl, by simp [hout, hin]; rfl⟩
      · exact .inr ⟨_, by simp [hout]; rfl, by simp [hout]; rfl⟩

theorem describes_degrees (h : graph.Scanned serde registry scan) :
    Describes graphKey (degreeCheck scan.definitions graph.edges) (degreeFault registry graph)
      graph.nodes := by
  intro node hnode
  have hid : node.id ∈ graph.nodeIds := mem_map.mpr ⟨node, hnode, rfl⟩
  obtain ⟨resolved, -, hdefinition, -⟩ := h.resolved node hnode
  unfold degreeFault degreeCheck
  rw [nodeDefinition_eq h hid, hdefinition]
  by_cases hlaw : DegreeLaw resolved.1 graph.edges node.id
  · exact .inl ⟨require_eq_ok.mpr hlaw, by simp [hlaw]⟩
  · exact .inr ⟨_, require_eq_error.mpr ⟨hlaw, rfl⟩, by simp [hlaw]; rfl⟩

/-- The node loop stops at the faulty config with the least id. -/
theorem scanNodes_error (hbasic : graph.Basic) {node : NodeConfig} {e : NodeGraphError}
    (hcount : 2 ≤ graph.nodes.length) (hnode : node ∈ graph.nodes) (hfault : resolveNode serde registry node = .error e)
    (hleast : ∀ other ∈ graph.nodes, other.id < node.id →
      (resolveNode serde registry other).isOk = true) :
    graph.scanNodes serde registry = .error e := by
  obtain ⟨total, htotal⟩ := validateBasic_eq_ok.mpr hbasic
  have hperm := orderedNodes_perm graph.nodes
  have hids : ((orderedNodes graph.nodes).map NodeConfig.id).Nodup :=
    (hperm.map _).nodup_iff.mpr hbasic.ids_nodup
  have hsorted : (orderedNodes graph.nodes).Pairwise fun left right => left.id ≤ right.id :=
    pairwise_insertionSort _ _
  obtain ⟨before, after, hsplit⟩ := append_of_mem (hperm.mem_iff.mpr hnode)
  have hloop : (orderedNodes graph.nodes).foldlM (scanNode serde registry) {} = .error e := by
    rw [hsplit, map_append, map_cons] at hids
    rw [hsplit] at hsorted ⊢
    refine foldlM_append_error (fun other hother scan => ?_) (fun scan => ?_) _
    · have hle := (pairwise_append.mp hsorted).2.2 other hother node (by simp)
      have hne := (nodup_append.mp hids).2.2 _ (mem_map_of_mem hother) node.id (by simp)
      have hmem : other ∈ graph.nodes := hperm.mem_iff.mp (by simp [hsplit, hother])
      obtain ⟨resolved, hresolved⟩ := exists_of_isOk (hleast other hmem (BitVec.lt_of_le_ne hle hne))
      rw [scanNode, hresolved]
      rfl
    · rw [scanNode, hfault, error_bind]
  unfold NodeGraph.scanNodes
  rw [htotal, ok_bind, require, if_pos hcount, ok_bind, hloop, error_bind]

/-- A check that faults on a list faults on every rearrangement of it. -/
theorem forM_ok_perm {ε α : Type} {check : α → Except ε Unit} {l l' : List α} (h : l'.Perm l) :
    l'.forM check = .ok () ↔ l.forM check = .ok () := by
  rw [forM_eq_ok, forM_eq_ok]
  exact ⟨fun hall a ha => hall a (h.mem_iff.mpr ha), fun hall a ha => hall a (h.mem_iff.mp ha)⟩

/-- The condition on the loops as they run. -/
def LoopsAgree (serde : Serde) (registry : NodeRegistry) (graph : NodeGraph) : Prop :=
  ∀ scan, graph.scanNodes serde registry = .ok scan →
    FaultsAgree graphKey (checkEdge scan.definitions) graph.edges ∧
    (graph.edges.forM (checkEdge scan.definitions) = .ok () →
      FaultsAgree graphKey (degreeCheck scan.definitions graph.edges) graph.nodes)

theorem SingleFault.agree (h : SingleFault serde registry graph)
    (hshape : checkShapeWork graph = .ok ()) : LoopsAgree serde registry graph := by
  intro scan hscan
  have hscanned := scanned_of_scanNodes hscan
  obtain ⟨hedges, hdegrees⟩ := h (by rw [hshape]; rfl) (by rw [hscan]; rfl)
  refine ⟨(describes_edges hscanned).agree_iff.mpr hedges, fun hok => ?_⟩
  exact (describes_degrees hscanned).agree_iff.mpr
    (hdegrees ((describes_edges hscanned).ok_iff.mp hok))

section Rearranged

variable (hsingle : LoopsAgree serde registry graph) (h : Rearranged graph graph')
  (hbasic : graph.Basic) (hbasic' : graph'.Basic)

include hsingle h hbasic hbasic'

/-- Every order of the arrays reports the declared fault. -/
theorem DeclaredFault.reported {key : NodeGraphErrorCode × Option NodeId}
    (hdeclared : DeclaredFault serde registry graph key) :
    ∃ e, graph'.validatedConfigs serde registry = .error e ∧ graphKey e = key := by
  have hscan_eq : graph'.scanNodes serde registry = graph.scanNodes serde registry :=
    h.scanNodes_eq hbasic hbasic'
  cases hdeclared with
  | config hcount hnode hfault hkey hleast =>
    refine ⟨_, ?_, hkey⟩
    unfold NodeGraph.validatedConfigs
    rw [hscan_eq, scanNodes_error hbasic hcount hnode hfault hleast, error_bind]
  | edge hscan hedge hfault _ =>
    obtain ⟨scan, hscan⟩ := exists_of_isOk hscan
    have hdescribes := describes_edges (scanned_of_scanNodes hscan)
    obtain ⟨e, he, hkey⟩ := hdescribes.reports (hsingle scan hscan).1 h.edges hedge hfault
    exact ⟨e, by rw [validatedConfigs_staged hbasic' (hscan_eq.trans hscan), he, error_bind], hkey⟩
  | degree hscan hedges hnode hfault _ =>
    obtain ⟨scan, hscan⟩ := exists_of_isOk hscan
    have hscanned := scanned_of_scanNodes hscan
    have hok := (describes_edges hscanned).ok_iff.mpr hedges
    obtain ⟨e, he, hkey⟩ :=
      (describes_degrees hscanned).reports ((hsingle scan hscan).2 hok) h.nodes hnode hfault
    refine ⟨e, ?_, hkey⟩
    rw [validatedConfigs_staged hbasic' (hscan_eq.trans hscan), (forM_ok_perm h.edges).mpr hok,
      ok_bind, funext (h.degreeCheck_eq scan.definitions), he, error_bind]

theorem validatedConfigs_sameFault :
    SameFault graphKey (graph.validatedConfigs serde registry)
      (graph'.validatedConfigs serde registry) := by
  have hscan_eq : graph'.scanNodes serde registry = graph.scanNodes serde registry :=
    h.scanNodes_eq hbasic hbasic'
  cases hscan : graph.scanNodes serde registry with
  | error e =>
    unfold NodeGraph.validatedConfigs
    rw [hscan_eq, hscan]
    exact sameFault_of_eq rfl
  | ok scan =>
    obtain ⟨hedges, hdegrees⟩ := hsingle scan hscan
    rw [validatedConfigs_staged hbasic hscan,
      validatedConfigs_staged hbasic' (hscan_eq.trans hscan)]
    refine SameFault.bind (sameFault_of_agree h.edges hedges)
      (fun _ hok => (forM_ok_perm h.edges).mpr hok) fun _ hok => ?_
    have hcheck : ∀ node, degreeCheck scan.definitions graph'.edges node =
        degreeCheck scan.definitions graph.edges node := h.degreeCheck_eq scan.definitions
    rw [funext hcheck]
    refine SameFault.bind (sameFault_of_agree h.nodes (hdegrees hok))
      (fun _ hok' => (forM_ok_perm h.nodes).mpr hok') fun _ hok' => ?_
    rw [pathStage_eq h hbasic hbasic' hok hok']
    exact sameFault_of_eq rfl

end Rearranged

variable {toVec : LogicalPlan → Except String (List UInt8)} {source : AuthorizedSourceContext}
  {target : CompileTarget} {sourceAssetId : Uuid}

theorem sameFault_of_single (hsingle : SingleFault serde registry graph)
    (h : Rearranged graph graph') (hbasic : graph.Basic) (hbasic' : graph'.Basic) :
    SameFault compileKey (compile serde toVec registry graph source target)
        (compile serde toVec registry graph' source target) ∧
      SameFault compileKey (validateNodeGraph serde registry graph sourceAssetId)
        (validateNodeGraph serde registry graph' sourceAssetId) := by
  have hid' := hbasic'.graphId_ne
  have hstage : checkShapeWork graph = .ok () →
      SameFault compileKey ((graph.validatedConfigs serde registry).mapError mapGraphError)
        ((graph'.validatedConfigs serde registry).mapError mapGraphError) := by
    intro hshape
    have hvalidated := validatedConfigs_sameFault (hsingle.agree hshape) h hbasic hbasic'
    exact hvalidated.mapError compileKey_mapGraphError
  have hconfigs : ∀ configs,
      (graph.validatedConfigs serde registry).mapError mapGraphError = .ok configs →
      (graph'.validatedConfigs serde registry).mapError mapGraphError = .ok configs := by
    intro configs hok
    rw [mapError_eq_ok] at hok ⊢
    exact validatedConfigs_rearranged h hid' hok
  have hbinding : checkBinding graph' = checkBinding graph := by
    funext configs asset
    unfold checkBinding sourceConfig
    rw [h.source_eq]
  unfold compile validateNodeGraph
  rw [checkShapeWork_eq h hbasic hbasic']
  constructor
  · refine SameFault.bind (sameFault_of_eq rfl) (fun _ hok => hok) fun _ hshape => ?_
    refine SameFault.bind (sameFault_of_eq rfl) (fun _ hok => hok) fun _ _ => ?_
    refine SameFault.bind (hstage hshape) hconfigs fun configs _ => ?_
    exact sameFault_of_eq (lowerGraph_rearranged h configs).symm
  · refine SameFault.bind (sameFault_of_eq rfl) (fun _ hok => hok) fun _ hshape => ?_
    refine SameFault.bind (hstage hshape) hconfigs fun configs _ => ?_
    rw [checkCompileWork_eq h, uniquePath_eq h.edges h.source_eq h.output_eq h.nodes.length_eq,
      hbinding]
    exact sameFault_of_eq rfl

theorem validateNodeGraph_error {e : NodeGraphError} (hshape : checkShapeWork graph = .ok ())
    (h : graph.validatedConfigs serde registry = .error e) :
    validateNodeGraph serde registry graph sourceAssetId = .error (mapGraphError e) := by
  unfold validateNodeGraph
  rw [hshape, ok_bind, h]
  rfl

theorem compile_error {e : NodeGraphError} (hschema : source.schema.validate.isOk = true)
    (hshape : checkShapeWork graph = .ok ())
    (h : graph.validatedConfigs serde registry = .error e) :
    compile serde toVec registry graph source target = .error (mapGraphError e) := by
  obtain ⟨_, hschema⟩ := exists_of_isOk hschema
  unfold compile
  rw [hshape, ok_bind, hschema, h]
  rfl

/-- If validation reports the same key for every order, so does each loop that a fault reaches. -/
theorem sameFault_stage {α : Type} {l l' : List α} {check : α → Except NodeGraphError Unit}
    (hperm : l'.Perm l) (hshape : checkShapeWork graph = .ok ())
    (hshape' : checkShapeWork graph' = .ok ())
    (hfault : ∀ e, l.forM check = .error e → graph.validatedConfigs serde registry = .error e)
    (hfault' : ∀ e, l'.forM check = .error e → graph'.validatedConfigs serde registry = .error e)
    (h : SameFault compileKey (validateNodeGraph serde registry graph sourceAssetId)
      (validateNodeGraph serde registry graph' sourceAssetId)) :
    SameFault graphKey (l.forM check) (l'.forM check) := by
  intro e he
  obtain ⟨reported, hreported, hkey⟩ := h _ (validateNodeGraph_error hshape (hfault e he))
  cases hrun : l'.forM check with
  | ok u =>
    rw [(forM_ok_perm hperm).mp hrun] at he
    cases he
  | error e' =>
    rw [validateNodeGraph_error hshape' (hfault' e' hrun), Except.error.injEq] at hreported
    rw [← hreported, compileKey_mapGraphError, compileKey_mapGraphError] at hkey
    exact ⟨e', rfl, hkey⟩

theorem single_of_sameFault (hbasic : graph.Basic)
    (h : ∀ graph', Rearranged graph graph' → graph'.graphId = graph.graphId →
      SameFault compileKey (validateNodeGraph serde registry graph sourceAssetId)
        (validateNodeGraph serde registry graph' sourceAssetId)) :
    SingleFault serde registry graph := by
  intro hshape hscan
  obtain ⟨_, hshape⟩ := exists_of_isOk hshape
  obtain ⟨scan, hscan⟩ := exists_of_isOk hscan
  have hscanned := scanned_of_scanNodes hscan
  -- each permutation of one array is a rearranged graph that reaches the same loop
  have hreach : ∀ {graph'}, Rearranged graph graph' → graph'.graphId = graph.graphId →
      graph'.Basic ∧ checkShapeWork graph' = .ok () ∧
        graph'.scanNodes serde registry = .ok scan := by
    intro graph' hre hid
    have hbasic' := hre.basic (hid ▸ hbasic.graphId_ne) hbasic
    exact ⟨hbasic', (checkShapeWork_eq hre hbasic hbasic').trans hshape,
      (hre.scanNodes_eq hbasic hbasic').trans hscan⟩
  constructor
  · rw [← (describes_edges hscanned).agree_iff, ← sameFault_iff_agree]
    intro edges' hperm
    have hre : Rearranged graph { graph with edges := edges' } :=
      ⟨rfl, rfl, rfl, rfl, .refl _, hperm⟩
    obtain ⟨hbasic', hshape', hscan'⟩ := hreach hre rfl
    refine sameFault_stage hperm hshape hshape' (fun e he => ?_) (fun e he => ?_) (h _ hre rfl)
    · rw [validatedConfigs_staged hbasic hscan, he, error_bind]
    · rw [validatedConfigs_staged hbasic' hscan', he, error_bind]
  · intro hedges
    rw [← (describes_edges hscanned).ok_iff] at hedges
    rw [← (describes_degrees hscanned).agree_iff, ← sameFault_iff_agree]
    intro nodes' hperm
    have hre : Rearranged graph { graph with nodes := nodes' } :=
      ⟨rfl, rfl, rfl, rfl, hperm, .refl _⟩
    obtain ⟨hbasic', hshape', hscan'⟩ := hreach hre rfl
    refine sameFault_stage hperm hshape hshape' (fun e he => ?_) (fun e he => ?_) (h _ hre rfl)
    · rw [validatedConfigs_staged hbasic hscan, hedges, ok_bind, he, error_bind]
    · rw [validatedConfigs_staged hbasic' hscan', hedges, ok_bind, he, error_bind]

theorem new_eq_ok {graphId sourceNodeId outputNodeId : Uuid} {nodes : List NodeConfig}
    {edges : List NodeEdge} {metadata : Metadata}
    (h : NodeGraph.new graphId sourceNodeId outputNodeId nodes edges metadata = .ok graph) :
    graph = ⟨nodeGraphVersion, graphId, sourceNodeId, outputNodeId, nodes, edges, metadata⟩ ∧
      graph.Basic := by
  unfold NodeGraph.new at h
  obtain ⟨total, htotal, h⟩ := of_bind h
  cases h
  exact ⟨rfl, validateBasic_eq_ok.mp ⟨total, htotal⟩⟩

/-- For an accepted graph, the reported code and node are the same for every order of its arrays
exactly when the edge and degree loops have at most one fault to choose from. The fault reported is
then the declared one. -/
theorem fault_order_iff {graphId sourceNodeId outputNodeId : Uuid} {nodes : List NodeConfig}
    {edges : List NodeEdge} {metadata : Metadata}
    (haccept : NodeGraph.new graphId sourceNodeId outputNodeId nodes edges metadata = .ok graph) :
    ((∀ nodes' edges' graph', nodes'.Perm nodes → edges'.Perm edges →
      NodeGraph.new graphId sourceNodeId outputNodeId nodes' edges' metadata = .ok graph' →
      SameFault compileKey (compile serde toVec registry graph source target)
          (compile serde toVec registry graph' source target) ∧
        SameFault compileKey (validateNodeGraph serde registry graph sourceAssetId)
          (validateNodeGraph serde registry graph' sourceAssetId)) ↔
      SingleFault serde registry graph) ∧
    (SingleFault serde registry graph → (checkShapeWork graph).isOk = true →
      ∀ key, DeclaredFault serde registry graph key → ∀ nodes' edges' graph',
        nodes'.Perm nodes → edges'.Perm edges →
        NodeGraph.new graphId sourceNodeId outputNodeId nodes' edges' metadata = .ok graph' →
        reportedFault (validateNodeGraph serde registry graph' sourceAssetId) = some key ∧
          (source.schema.validate.isOk = true →
            reportedFault (compile serde toVec registry graph' source target) = some key)) := by
  obtain ⟨rfl, hbasic⟩ := new_eq_ok haccept
  refine ⟨⟨fun h => ?_, ?_⟩, ?_⟩
  · refine single_of_sameFault hbasic fun graph' hre hid => (h _ _ _ hre.nodes hre.edges ?_).2
    have hbasic' := hre.basic (hid ▸ hbasic.graphId_ne) hbasic
    have hparts : graph' = ⟨nodeGraphVersion, graphId, sourceNodeId, outputNodeId, graph'.nodes,
        graph'.edges, metadata⟩ := by
      cases graph'
      rw [NodeGraph.mk.injEq]
      exact ⟨hre.version_eq, hid, hre.source_eq, hre.output_eq, rfl, rfl, hre.metadata_eq⟩
    obtain ⟨total, htotal⟩ := validateBasic_eq_ok.mpr hbasic'
    unfold NodeGraph.new
    rw [← hparts]
    exact bind_eq_ok.mpr ⟨total, htotal, rfl⟩
  · intro hsingle nodes' edges' graph' hnodes hedges haccept'
    obtain ⟨rfl, hbasic'⟩ := new_eq_ok haccept'
    exact sameFault_of_single hsingle ⟨rfl, rfl, rfl, rfl, hnodes, hedges⟩ hbasic hbasic'
  · intro hsingle hshape key hdeclared nodes' edges' graph' hnodes hedges haccept'
    obtain ⟨rfl, hbasic'⟩ := new_eq_ok haccept'
    have hre : Rearranged ⟨nodeGraphVersion, graphId, sourceNodeId, outputNodeId, nodes, edges,
        metadata⟩ ⟨_, graphId, _, _, nodes', edges', _⟩ := ⟨rfl, rfl, rfl, rfl, hnodes, hedges⟩
    obtain ⟨_, hshape⟩ := exists_of_isOk hshape
    obtain ⟨e, he, rfl⟩ := hdeclared.reported (hsingle.agree hshape) hre hbasic hbasic'
    have hshape' := (checkShapeWork_eq hre hbasic hbasic').trans hshape
    refine ⟨?_, fun hschema => ?_⟩
    · rw [validateNodeGraph_error hshape' he, reportedFault, compileKey_mapGraphError]
    · rw [compile_error hschema hshape' he, reportedFault, compileKey_mapGraphError]

/-- The nodes of the sample graph, each with an unregistered type, the output first. -/
def strayNodes : List NodeConfig :=
  trimGraph.nodes.reverse.map fun node => { node with typeId := "stillflow.node.stray" }

/-- An edge that leaves the source through an undeclared port, before a sound one. -/
def strayEdges : List NodeEdge := [⟨⟨2, "left"⟩, ⟨4, "in"⟩⟩, ⟨⟨4, "out"⟩, ⟨3, "in"⟩⟩]

/-- Of three stray nodes the least is reported, and the one stray edge, in every order. -/
theorem stray_reported :
    (∀ nodes' edges' graph', nodes'.Perm strayNodes → edges'.Perm strayEdges →
      NodeGraph.new 1 2 3 nodes' edges' ∅ = .ok graph' →
      reportedFault (validateNodeGraph sampleSerde (.new sampleSerde) graph' 7) =
          some (.unknownNodeType, some 2) ∧
        reportedFault (compileSample graph') = some (.unknownNodeType, some 2)) ∧
    (∀ nodes' edges' graph', nodes'.Perm trimGraph.nodes → edges'.Perm strayEdges →
      NodeGraph.new 1 2 3 nodes' edges' ∅ = .ok graph' →
      reportedFault (validateNodeGraph sampleSerde (.new sampleSerde) graph' 7) =
          some (.invalidPort, some 2) ∧
        reportedFault (compileSample graph') = some (.invalidPort, some 2)) := by
  have hschema : sampleSource.schema.validate.isOk = true := by decide +kernel
  have hnodes : (NodeGraph.new 1 2 3 strayNodes strayEdges ∅).isOk = true := by decide +kernel
  have hedges : (NodeGraph.new 1 2 3 trimGraph.nodes strayEdges ∅).isOk = true := by decide +kernel
  obtain ⟨byNode, hnodes⟩ := exists_of_isOk hnodes
  obtain ⟨byEdge, hedges⟩ := exists_of_isOk hedges
  obtain ⟨rfl, -⟩ := new_eq_ok hnodes
  obtain ⟨rfl, -⟩ := new_eq_ok hedges
  constructor
  · intro nodes' edges' graph' hnodes' hedges' haccept'
    have hscan : (NodeGraph.scanNodes sampleSerde
        ⟨nodeGraphVersion, 1, 2, 3, strayNodes, strayEdges, ∅⟩ (.new sampleSerde)).isOk = false := by
      decide +kernel
    obtain ⟨hvalidate, hcompile⟩ := (fault_order_iff hnodes).2
      (fun _ hok => absurd hok (by rw [hscan]; decide)) (by decide +kernel) _
      (.config (by decide +kernel) (mem_map_of_mem (mem_reverse.mpr (mem_cons_self ..))) rfl rfl
        (by decide +kernel)) nodes' edges' graph' hnodes' hedges' haccept'
    exact ⟨hvalidate, hcompile hschema⟩
  · intro nodes' edges' graph' hnodes' hedges' haccept'
    have hsingle : SingleFault sampleSerde (.new sampleSerde)
        ⟨nodeGraphVersion, 1, 2, 3, trimGraph.nodes, strayEdges, ∅⟩ := by
      refine fun _ _ => ⟨fun edge hedge other hother fault fault' h h' => ?_, fun hok => ?_⟩
      · have hfaults : ∀ edge ∈ strayEdges, edgeFault (.new sampleSerde)
            ⟨nodeGraphVersion, 1, 2, 3, trimGraph.nodes, strayEdges, ∅⟩ edge ∈
              [none, some (.invalidPort, some 2)] := by decide +kernel
        have hedge := hfaults edge hedge
        have hother := hfaults other hother
        rw [h] at hedge
        rw [h'] at hother
        simp_all
      · exact absurd hok (by decide +kernel)
    obtain ⟨hvalidate, hcompile⟩ := (fault_order_iff hedges).2 hsingle (by decide +kernel) _
      (.edge (by decide +kernel) (mem_cons_self ..) rfl (by decide +kernel))
      nodes' edges' graph' hnodes' hedges' haccept'
    exact ⟨hvalidate, hcompile hschema⟩

/-- Two edges of the sample graph that both leave through an undeclared port. -/
def faultyEdges : List NodeEdge :=
  [⟨⟨2, "left"⟩, ⟨4, "in"⟩⟩, ⟨⟨4, "right"⟩, ⟨3, "in"⟩⟩]

/-- Both orders of the edges are accepted, and each reports its own first edge. -/
theorem fault_follows_edge_order :
    (NodeGraph.new 1 2 3 trimGraph.nodes faultyEdges ∅).isOk = true ∧
      (NodeGraph.new 1 2 3 trimGraph.nodes faultyEdges.reverse ∅).isOk = true ∧
      reportedFault (compileSample { trimGraph with edges := faultyEdges }) =
        some (.invalidPort, some 2) ∧
      reportedFault (compileSample { trimGraph with edges := faultyEdges.reverse }) =
        some (.invalidPort, some 4) := by
  decide +kernel

end Stillflow.Plan
