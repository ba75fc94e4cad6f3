import Stillflow.Core.BasicGraph
import Stillflow.Core.Deployment
import Stillflow.Lib.Maps

/-! What a graph that reached the edge loop holds for each of its nodes. -/

namespace Stillflow.Core

open Lib Lib.Fallible Lib.Maps List

variable {serde : Serde} {registry : NodeRegistry} {scan scan' : NodeScan} {configs : Configs}

theorem scanNode_eq_ok {node : NodeConfig} (h : scanNode serde registry scan node = .ok scan') :
    ∃ resolved, resolveNode serde registry node = .ok resolved ∧ scan' = scan.add node.id resolved := by
  obtain ⟨resolved, hresolved, hscan⟩ := of_bind h
  cases hscan
  exact ⟨resolved, hresolved, rfl⟩

theorem scan_frame {nodes : List NodeConfig}
    (h : nodes.foldlM (scanNode serde registry) scan = .ok scan') {id : NodeId}
    (hid : id ∉ nodes.map NodeConfig.id) :
    scan'.definitions[id]? = scan.definitions[id]? ∧ scan'.configs[id]? = scan.configs[id]? := by
  refine foldlM_invariant (fun state => state.definitions[id]? = scan.definitions[id]? ∧
    state.configs[id]? = scan.configs[id]?) (fun {state node state'} hnode hstate hstep => ?_)
    ⟨rfl, rfl⟩ h
  obtain ⟨resolved, -, rfl⟩ := scanNode_eq_ok hstep
  have hne : id ≠ node.id := fun heq => hid (mem_map.mpr ⟨node, hnode, heq.symm⟩)
  dsimp only [NodeScan.add]
  rw [getElem?_insert_ne hne, getElem?_insert_ne hne]
  exact hstate

theorem scan_resolved {nodes : List NodeConfig}
    (h : nodes.foldlM (scanNode serde registry) scan = .ok scan')
    (hn : (nodes.map NodeConfig.id).Nodup) :
    ∀ node ∈ nodes, ∃ resolved, resolveNode serde registry node = .ok resolved ∧
      scan'.definitions[node.id]? = some resolved.1 ∧
      scan'.configs[node.id]? = some resolved.2 := by
  induction nodes generalizing scan with
  | nil => simp
  | cons first rest ih =>
    rw [foldlM_cons] at h
    rw [map_cons, nodup_cons] at hn
    obtain ⟨mid, hmid, hrest⟩ := of_bind h
    intro node hnode
    rcases mem_cons.mp hnode with rfl | hnode
    · obtain ⟨resolved, hresolved, rfl⟩ := scanNode_eq_ok hmid
      obtain ⟨hdefinitions, hconfigs⟩ := scan_frame hrest hn.1
      refine ⟨resolved, hresolved, ?_, ?_⟩
      · rw [hdefinitions]
        exact Std.ExtTreeMap.getElem?_insert_self
      · rw [hconfigs]
        exact Std.ExtTreeMap.getElem?_insert_self
    · exact ih hrest hn.2 node hnode

theorem orderedNodes_perm (nodes : List NodeConfig) : (orderedNodes nodes).Perm nodes :=
  perm_insertionSort _ _

/-- What the stages before the edge loop establish. -/
structure NodeGraph.Scanned (serde : Serde) (registry : NodeRegistry) (graph : NodeGraph)
    (scan : NodeScan) : Prop where
  basic : graph.Basic
  resolved : ∀ node ∈ graph.nodes, ∃ resolved, resolveNode serde registry node = .ok resolved ∧
    scan.definitions[node.id]? = some resolved.1 ∧ scan.configs[node.id]? = some resolved.2
  absent : ∀ id, id ∉ graph.nodeIds → scan.definitions[id]? = none ∧ scan.configs[id]? = none
  endpoints : checkEndpoints graph scan = .ok ()

theorem scanned_of_scanNodes {graph : NodeGraph} (h : graph.scanNodes serde registry = .ok scan) :
    graph.Scanned serde registry scan := by
  obtain ⟨total, htotal, h⟩ := of_bind h
  obtain ⟨_, _, h⟩ := of_bind h
  obtain ⟨found, hfound, h⟩ := of_bind h
  obtain ⟨_, hends, h⟩ := of_bind h
  cases h
  have hbasic := validateBasic_eq_ok.mp ⟨total, htotal⟩
  have hperm := (orderedNodes_perm graph.nodes).map NodeConfig.id
  refine ⟨hbasic, fun node hnode => ?_, fun id hid => ?_, hends⟩
  · exact scan_resolved hfound (hperm.nodup_iff.mpr hbasic.ids_nodup) node
      ((orderedNodes_perm _).mem_iff.mpr hnode)
  · obtain ⟨hdefinitions, hconfigs⟩ := scan_frame hfound fun hmem => hid (hperm.mem_iff.mp hmem)
    exact ⟨hdefinitions.trans (by simp), hconfigs.trans (by simp)⟩

theorem validatedConfigs_eq_ok {graph : NodeGraph}
    (h : graph.validatedConfigs serde registry = .ok configs) :
    ∃ scan, graph.scanNodes serde registry = .ok scan ∧ configs = scan.configs := by
  obtain ⟨scan, hscan, h⟩ := of_bind h
  obtain ⟨⟨incoming, outgoing⟩, _, h⟩ := of_bind h
  obtain ⟨_, _, h⟩ := of_bind h
  obtain ⟨_, _, h⟩ := of_bind h
  cases h
  exact ⟨scan, hscan, rfl⟩

variable {registry : NodeRegistry} {graph : NodeGraph}

theorem resolveNode_eq_ok (hreg : Registered serde registry) {node : NodeConfig}
    {resolved : NodeDefinition × ValidatedNodeConfig}
    (h : resolveNode serde registry node = .ok resolved) :
    registry.lookup node.typeId node.configVersion = .ok resolved.1 ∧
      Deployable serde resolved.1 ∧
      resolveConfig serde registry node resolved.1 = .ok resolved.2 := by
  obtain ⟨definition, hdefinition, h⟩ := of_bind h
  obtain ⟨config, hconfig, h⟩ := of_bind h
  cases h
  have hlookup := mapError_eq_ok.mp hdefinition
  exact ⟨hlookup, deployable_of_registered hreg definition (NodeRegistry.lookup_eq_ok hlookup),
    hconfig⟩

/-- Every node of a validated graph has a config with as many steps as its definition expands to. -/
theorem config_of_validated (hreg : Registered serde registry)
    (h : graph.validatedConfigs serde registry = .ok configs) :
    ∀ node ∈ graph.nodes, ∃ definition config,
      registry.lookup node.typeId node.configVersion = .ok definition ∧
      configs[node.id]? = some config ∧
      config.stepCount = definition.expansionSize ∧ 0 < config.stepCount := by
  obtain ⟨scan, hscan, rfl⟩ := validatedConfigs_eq_ok h
  intro node hnode
  obtain ⟨resolved, hresolved, -, hconfig⟩ := (scanned_of_scanNodes hscan).resolved node hnode
  obtain ⟨hlookup, hdeploy, hresolve⟩ := resolveNode_eq_ok hreg hresolved
  exact ⟨resolved.1, resolved.2, hlookup, hconfig, resolveConfig_stepCount hdeploy hresolve⟩

theorem output_of_validated (hreg : Registered serde registry)
    (h : graph.validatedConfigs serde registry = .ok configs) :
    ∃ label, configs[graph.outputNodeId]? = some (.output label) := by
  obtain ⟨scan, hscan, rfl⟩ := validatedConfigs_eq_ok h
  have hscanned := scanned_of_scanNodes hscan
  have hends := hscanned.endpoints
  obtain ⟨_, _, hends⟩ := of_bind hends
  obtain ⟨_, _, hends⟩ := of_bind hends
  obtain ⟨_, _, hends⟩ := of_bind hends
  obtain ⟨definition, hdefinition, houtput⟩ := of_bind hends
  obtain ⟨node, hnode, hid⟩ := mem_map.mp hscanned.basic.endpoints_mem.2
  obtain ⟨resolved, hresolved, hfound, hconfig⟩ := hscanned.resolved node hnode
  obtain ⟨-, hdeploy, hresolve⟩ := resolveNode_eq_ok hreg hresolved
  have hsame : resolved.1 = definition := by
    rw [resolveDefinition, ← hid, hfound] at hdefinition
    exact Except.ok.inj hdefinition
  obtain ⟨label, hlabel⟩ :=
    resolveConfig_output hdeploy (hsame ▸ require_eq_ok.mp houtput) hresolve
  exact ⟨label, by rw [← hid, hconfig, hlabel]⟩

end Stillflow.Core
