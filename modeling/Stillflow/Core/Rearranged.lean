import Stillflow.Core.Adjacency

/-! Graphs with the same content in a different array order. -/

namespace Stillflow.Core

open Lib Lib.Fallible Lib.Maps Lib.FirstFault List

/-- The same graph with its nodes and edges listed in another order, under any graph id. -/
structure Rearranged (graph graph' : NodeGraph) : Prop where
  version_eq : graph'.version = graph.version
  source_eq : graph'.sourceNodeId = graph.sourceNodeId
  output_eq : graph'.outputNodeId = graph.outputNodeId
  metadata_eq : graph'.metadata = graph.metadata
  nodes : graph'.nodes.Perm graph.nodes
  edges : graph'.edges.Perm graph.edges

variable {serde : Serde} {registry : NodeRegistry} {graph graph' : NodeGraph}

namespace Rearranged

variable (h : Rearranged graph graph')
include h

theorem symm : Rearranged graph' graph :=
  ⟨h.version_eq.symm, h.source_eq.symm, h.output_eq.symm, h.metadata_eq.symm, h.nodes.symm,
    h.edges.symm⟩

theorem nodeIds : graph'.nodeIds.Perm graph.nodeIds :=
  h.nodes.map NodeConfig.id

theorem textBytes_eq : textBytes graph'.text = textBytes graph.text := by
  have hnodes := textBytes_arrayText_perm (h.nodes.map NodeConfig.text)
  have hedges := textBytes_arrayText_perm (h.edges.map NodeEdge.text)
  unfold NodeGraph.text
  simp only [objectText, textBytes_append, textBytes_commaSeparated, map_append, map_cons,
    map_nil, length_append, length_cons, sum_append, sum_cons, memberText,
    textBytes_uuidJson, h.version_eq, h.metadata_eq, hnodes, hedges]

/-- `validate_basic` does not read the array order, nor the graph id beyond its being set. -/
theorem basic (hid : graph'.graphId ≠ 0) (hbasic : graph.Basic) :
    graph'.Basic where
  version_eq := h.version_eq.trans hbasic.version_eq
  graphId_ne := hid
  endpoints_ne := by rw [h.source_eq, h.output_eq]; exact hbasic.endpoints_ne
  nodes_le := by rw [h.nodes.length_eq]; exact hbasic.nodes_le
  edges_le := by rw [h.edges.length_eq]; exact hbasic.edges_le
  nodes_ne := fun hnil => hbasic.nodes_ne (nil_perm.mp (hnil ▸ h.nodes))
  edges_length := by rw [h.edges.length_eq, h.nodes.length_eq]; exact hbasic.edges_length
  ids_nodup := h.nodeIds.nodup_iff.mpr hbasic.ids_nodup
  locals node hnode := hbasic.locals node (h.nodes.mem_iff.mp hnode)
  config_le := by rw [(h.nodes.map _).sum_eq]; exact hbasic.config_le
  endpoints_mem := by
    rw [h.source_eq, h.output_eq, h.nodeIds.mem_iff, h.nodeIds.mem_iff]
    exact hbasic.endpoints_mem
  edges_nodup := h.edges.nodup_iff.mpr hbasic.edges_nodup
  edges_mem edge hedge := by
    rw [h.nodeIds.mem_iff, h.nodeIds.mem_iff]
    exact hbasic.edges_mem edge (h.edges.mem_iff.mp hedge)
  metadata_eq := by rw [h.metadata_eq]; exact hbasic.metadata_eq
  metadata_le := by rw [h.metadata_eq, (h.nodes.map _).sum_eq]; exact hbasic.metadata_le
  text_le := by rw [h.textBytes_eq]; exact hbasic.text_le

theorem orderedNodes_eq (hbasic : graph.Basic) :
    orderedNodes graph'.nodes = orderedNodes graph.nodes := by
  refine insertionSort_eq_of_perm (fun a b => BitVec.le_total a.id b.id)
    (fun a b c => BitVec.le_trans) (fun a ha b hb hab hba => ?_) h.nodes
  exact inj_on_of_nodup_map hbasic.ids_nodup ha hb (BitVec.le_antisymm hab hba)

theorem scanNodes_eq (hbasic : graph.Basic)
    (hbasic' : graph'.Basic) :
    graph'.scanNodes serde registry = graph.scanNodes serde registry := by
  obtain ⟨total, htotal⟩ := validateBasic_eq_ok.mpr hbasic
  obtain ⟨total', htotal'⟩ := validateBasic_eq_ok.mpr hbasic'
  unfold NodeGraph.scanNodes checkEndpoints
  rw [htotal, htotal', ok_bind, ok_bind, h.orderedNodes_eq hbasic, h.nodes.length_eq, h.source_eq,
    h.output_eq]

theorem edgesFrom_perm (id : NodeId) :
    (edgesFrom graph'.edges id).Perm (edgesFrom graph.edges id) :=
  h.edges.filter _

theorem degreeCheck_eq (definitions : Definitions)
    (node : NodeConfig) :
    degreeCheck definitions graph'.edges node = degreeCheck definitions graph.edges node := by
  unfold degreeCheck
  cases definitions[node.id]? with
  | none => rfl
  | some definition =>
    refine require_congr ?_
    unfold DegreeLaw edgesInto edgesFrom
    rw [(h.edges.filter _).length_eq, (h.edges.filter _).length_eq]

end Rearranged

theorem outgoing_eq {definitions : Definitions} {incoming outgoing incoming' outgoing' : Adjacency}
    (h : Rearranged graph graph')
    (hconnect : graph.connect definitions = .ok (incoming, outgoing))
    (hconnect' : graph'.connect definitions = .ok (incoming', outgoing'))
    (hdegree : ∀ node ∈ graph.nodes, degreeCheck definitions graph.edges node = .ok ()) :
    outgoing' = outgoing := by
  refine Std.ExtTreeMap.ext_getElem? fun id => ?_
  rw [(connect_eq_ok hconnect id).2, (connect_eq_ok hconnect' id).2]
  by_cases hid : id ∈ graph.nodeIds
  · rw [if_pos hid, if_pos (h.nodeIds.mem_iff.mpr hid), Option.some.injEq]
    obtain ⟨node, hnode, rfl⟩ := mem_map.mp hid
    have hlaw := hdegree node hnode
    unfold degreeCheck at hlaw
    split at hlaw
    · obtain ⟨-, hout⟩ := require_eq_ok.mp hlaw
      have hperm := h.edgesFrom_perm node.id
      -- at most one edge leaves a node, so the order of its list is no choice
      cases hlist : edgesFrom graph.edges node.id with
      | nil =>
        rw [hlist] at hperm
        exact perm_nil.mp hperm
      | cons edge rest =>
        rw [hlist, length_cons] at hout
        have hrest : rest = [] := by
          refine length_eq_zero_iff.mp ?_
          split_ifs at hout
          omega
        rw [hlist, hrest] at hperm
        rw [hrest]
        exact perm_singleton.mp hperm
    · cases hlaw
  · rw [if_neg hid, if_neg fun hid' => hid (h.nodeIds.mem_iff.mp hid')]

/-- The path stage on the adjacency that the edge loop builds. -/
def NodeGraph.pathStage (graph : NodeGraph) (definitions : Definitions) :
    Except NodeGraphError Unit := do
  let (_, outgoing) ← graph.connect definitions
  graph.checkPath outgoing

/-- Validation after the node loop, with the edge and degree loops as checks of one element. -/
theorem validatedConfigs_staged {scan : NodeScan} (hbasic : graph.Basic)
    (hscan : graph.scanNodes serde registry = .ok scan) :
    graph.validatedConfigs serde registry = (do
      graph.edges.forM (checkEdge scan.definitions)
      graph.nodes.forM (degreeCheck scan.definitions graph.edges)
      graph.pathStage scan.definitions
      return scan.configs) := by
  unfold NodeGraph.validatedConfigs NodeGraph.pathStage
  rw [hscan, ok_bind]
  rcases connect_cases scan.definitions hbasic with
    ⟨⟨incoming, outgoing⟩, hconnect, hedges⟩ | ⟨e, hconnect, hedges⟩
  · have hdegrees := forM_congr fun node (hnode : node ∈ graph.nodes) =>
      checkDegree_eq hconnect hnode
    simp only [hconnect, hedges, ok_bind, hdegrees]
  · simp only [hconnect, hedges, error_bind]

theorem pathStage_eq {definitions : Definitions} (h : Rearranged graph graph')
    (hbasic : graph.Basic) (hbasic' : graph'.Basic)
    (hedges : graph.edges.forM (checkEdge definitions) = .ok ())
    (hdegrees : graph.nodes.forM (degreeCheck definitions graph.edges) = .ok ()) :
    graph'.pathStage definitions = graph.pathStage definitions := by
  have hedges' : graph'.edges.forM (checkEdge definitions) = .ok () :=
    forM_eq_ok.mpr fun edge hedge => forM_eq_ok.mp hedges edge (h.edges.mem_iff.mp hedge)
  rcases connect_cases definitions hbasic with
    ⟨⟨incoming, outgoing⟩, hconnect, -⟩ | ⟨e, -, hfault⟩
  · rcases connect_cases definitions hbasic' with
      ⟨⟨incoming', outgoing'⟩, hconnect', -⟩ | ⟨e, -, hfault⟩
    · unfold NodeGraph.pathStage NodeGraph.checkPath
      rw [hconnect, hconnect', ok_bind, ok_bind,
        outgoing_eq h hconnect hconnect' (forM_eq_ok.mp hdegrees), h.source_eq, h.output_eq,
        h.nodes.length_eq]
    · rw [hedges'] at hfault
      cases hfault
  · rw [hedges] at hfault
    cases hfault

theorem validatedConfigs_rearranged {configs : Configs} (h : Rearranged graph graph')
    (hid : graph'.graphId ≠ 0) (hok : graph.validatedConfigs serde registry = .ok configs) :
    graph'.validatedConfigs serde registry = .ok configs := by
  obtain ⟨scan, hscan, rfl⟩ := validatedConfigs_eq_ok hok
  have hbasic := (scanned_of_scanNodes hscan).basic
  have hbasic' := h.basic hid hbasic
  have hscan' := (h.scanNodes_eq hbasic hbasic').trans hscan
  rw [validatedConfigs_staged hbasic hscan] at hok
  obtain ⟨_, hedges, hok⟩ := of_bind hok
  obtain ⟨_, hdegrees, hok⟩ := of_bind hok
  obtain ⟨_, hpath, -⟩ := of_bind hok
  rw [validatedConfigs_staged hbasic' hscan', pathStage_eq h hbasic hbasic' hedges hdegrees, hpath]
  have hedges' : graph'.edges.forM (checkEdge scan.definitions) = .ok () :=
    forM_eq_ok.mpr fun edge hedge => forM_eq_ok.mp hedges edge (h.edges.mem_iff.mp hedge)
  have hdegrees' : graph'.nodes.forM (degreeCheck scan.definitions graph'.edges) = .ok () := by
    refine forM_eq_ok.mpr fun node hnode => ?_
    rw [h.degreeCheck_eq]
    exact forM_eq_ok.mp hdegrees node (h.nodes.mem_iff.mp hnode)
  rw [hedges', hdegrees']
  rfl

end Stillflow.Core
