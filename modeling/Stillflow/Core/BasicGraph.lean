import Stillflow.Core.NodeGraph

/-! What `validate_basic` accepts, as conditions that do not follow the order of the arrays. -/

namespace Stillflow.Core

open Lib.Fallible List

/-- The size `validate_metadata_map` returns for a map it accepts. -/
def metadataMapBytes (metadata : Metadata) : Nat :=
  (metadata.toList.map fun entry => byteLen entry.1 + byteLen entry.2).sum

def NodeGraph.nodeIds (graph : NodeGraph) : List NodeId := graph.nodes.map NodeConfig.id

/-- A graph within the bounds and with unique, resolvable ids and edges. -/
structure NodeGraph.Basic (graph : NodeGraph) : Prop where
  version_eq : graph.version = nodeGraphVersion
  graphId_ne : graph.graphId ≠ 0
  endpoints_ne : graph.sourceNodeId ≠ graph.outputNodeId
  nodes_le : graph.nodes.length ≤ maxNodes
  edges_le : graph.edges.length ≤ maxEdges
  nodes_ne : graph.nodes ≠ []
  edges_length : graph.edges.length = graph.nodes.length - 1
  ids_nodup : graph.nodeIds.Nodup
  locals : ∀ node ∈ graph.nodes, node.validateLocal = .ok node.config.byteLen
  config_le : (graph.nodes.map (·.config.byteLen)).sum ≤ maxTotalConfigBytes
  endpoints_mem : graph.sourceNodeId ∈ graph.nodeIds ∧ graph.outputNodeId ∈ graph.nodeIds
  edges_nodup : graph.edges.Nodup
  edges_mem : ∀ edge ∈ graph.edges,
    edge.source.nodeId ∈ graph.nodeIds ∧ edge.target.nodeId ∈ graph.nodeIds
  metadata_eq : validateMetadataMap graph.metadata none = .ok (metadataMapBytes graph.metadata)
  metadata_le : metadataMapBytes graph.metadata +
    (graph.nodes.map (metadataMapBytes ·.metadata)).sum ≤ maxMetadataBytes
  text_le : textBytes graph.text ≤ maxGraphBytes

theorem checkedAdd_eq_ok {ε : Type} {error : ε} {total bytes sum : Nat} :
    checkedAdd error total bytes = .ok sum ↔ total + bytes ≤ usizeMax ∧ sum = total + bytes := by
  unfold checkedAdd
  split_ifs with h
  · simp [h, eq_comm]
  · simp [h]

theorem validateMetadataMap_bytes {metadata : Metadata} {nodeId : Option NodeId} {bytes : Nat}
    (h : validateMetadataMap metadata nodeId = .ok bytes) : bytes = metadataMapBytes metadata := by
  have hfold : ∀ (entries : List (String × String)) (total : Nat),
      Yields (entries.foldlM (fun bytes entry => do
        validateString entry.1 nodeId "metadata key"
        validateString entry.2 nodeId "metadata value"
        checkedAdd (NodeGraphError.new .limitMetadataBytes nodeId "metadata size overflowed") bytes
          (byteLen entry.1 + byteLen entry.2)) total)
        fun bytes => bytes =
          total + (entries.map fun entry => byteLen entry.1 + byteLen entry.2).sum := by
    intro entries
    induction entries with
    | nil =>
      intro total
      exact yields_pure rfl
    | cons entry entries ih =>
      intro total bytes hbytes
      rw [foldlM_cons] at hbytes
      obtain ⟨mid, hmid, hrest⟩ := of_bind hbytes
      obtain ⟨_, _, hmid⟩ := of_bind hmid
      obtain ⟨_, _, hmid⟩ := of_bind hmid
      rw [ih mid bytes hrest, (checkedAdd_eq_ok.mp hmid).2, map_cons, sum_cons]
      omega
  obtain ⟨total, htotal, h⟩ := of_bind h
  obtain ⟨_, _, h⟩ := of_bind h
  cases h
  rw [hfold _ 0 _ htotal, Nat.zero_add]
  rfl

theorem validateLocal_eq_ok {node : NodeConfig} {bytes : Nat}
    (h : node.validateLocal = .ok bytes) : bytes = node.config.byteLen ∧
      validateMetadataMap node.metadata (some node.id) = .ok (metadataMapBytes node.metadata) := by
  simp only [NodeConfig.validateLocal, bind_eq_ok, exists_unit_iff] at h
  obtain ⟨-, -, -, -, -, -, -, size, hsize, h⟩ := h
  cases h
  exact ⟨rfl, validateMetadataMap_bytes hsize ▸ hsize⟩

theorem basicNodes_eq_ok {nodes : List NodeConfig} {state state' : List NodeId × Nat}
    (hle : state.2 ≤ maxTotalConfigBytes) :
    nodes.foldlM basicNode state = .ok state' ↔
      (nodes.map NodeConfig.id).Nodup ∧ (∀ node ∈ nodes, node.id ∉ state.1) ∧
      (∀ node ∈ nodes, node.validateLocal = .ok node.config.byteLen) ∧
      state.2 + (nodes.map (·.config.byteLen)).sum ≤ maxTotalConfigBytes ∧
      state' = (state.1 ++ nodes.map NodeConfig.id,
        state.2 + (nodes.map (·.config.byteLen)).sum) := by
  induction nodes generalizing state with
  | nil => simp [hle, eq_comm]
  | cons node nodes ih =>
    have hmax : maxTotalConfigBytes ≤ usizeMax := by decide
    have hstep : ∀ {mid}, basicNode state node = .ok mid ↔ node.id ∉ state.1 ∧
        node.validateLocal = .ok node.config.byteLen ∧
        state.2 + node.config.byteLen ≤ maxTotalConfigBytes ∧
        mid = (state.1 ++ [node.id], state.2 + node.config.byteLen) := by
      intro mid
      unfold basicNode
      simp only [bind_eq_ok, require_eq_ok, exists_unit_iff, checkedAdd_eq_ok, pure_eq_ok,
        Except.ok.injEq]
      constructor
      · rintro ⟨hfresh, bytes, hbytes, total, ⟨-, rfl⟩, htotal, rfl⟩
        obtain ⟨rfl, -⟩ := validateLocal_eq_ok hbytes
        exact ⟨hfresh, hbytes, htotal, rfl⟩
      · rintro ⟨hfresh, hlocal, htotal, rfl⟩
        exact ⟨hfresh, _, hlocal, _, ⟨htotal.trans hmax, rfl⟩, htotal, rfl⟩
    rw [foldlM_cons, bind_eq_ok]
    simp only [map_cons, nodup_cons, forall_mem_cons, sum_cons]
    constructor
    · rintro ⟨mid, hmid, hrest⟩
      obtain ⟨hfresh, hlocal, htotal, rfl⟩ := hstep.mp hmid
      obtain ⟨hnodup, hall, hlocals, hsum, rfl⟩ := (ih htotal).mp hrest
      refine ⟨⟨fun hmem => ?_, hnodup⟩, ⟨hfresh, fun other hother => ?_⟩, ⟨hlocal, hlocals⟩,
        by omega, by simp [Nat.add_assoc]⟩
      · obtain ⟨other, hother, hid⟩ := mem_map.mp hmem
        exact hall other hother (by simp [hid])
      · exact fun hmem => hall other hother (mem_append_left _ hmem)
    · rintro ⟨⟨hid, hnodup⟩, ⟨hfresh, hall⟩, ⟨hlocal, hlocals⟩, hsum, rfl⟩
      refine ⟨_, hstep.mpr ⟨hfresh, hlocal, by omega, rfl⟩, (ih (by dsimp only; omega)).mpr ?_⟩
      refine ⟨hnodup, fun other hother => ?_, hlocals, by dsimp only; omega, by
        simp [Nat.add_assoc]⟩
      rw [mem_append, mem_singleton, not_or]
      exact ⟨hall other hother, fun heq => hid (mem_map.mpr ⟨other, hother, heq⟩)⟩

theorem basicEdges_eq_ok {nodeIds : List NodeId} {edges seen seen' : List NodeEdge} :
    edges.foldlM (basicEdge nodeIds) seen = .ok seen' ↔
      edges.Nodup ∧ (∀ edge ∈ edges, edge ∉ seen) ∧
      (∀ edge ∈ edges, edge.source.nodeId ∈ nodeIds ∧ edge.target.nodeId ∈ nodeIds) ∧
      seen' = seen ++ edges := by
  induction edges generalizing seen with
  | nil => simp [eq_comm]
  | cons edge edges ih =>
    have hstep : ∀ {mid}, basicEdge nodeIds seen edge = .ok mid ↔ edge ∉ seen ∧
        (edge.source.nodeId ∈ nodeIds ∧ edge.target.nodeId ∈ nodeIds) ∧ mid = seen ++ [edge] := by
      intro mid
      unfold basicEdge
      simp only [bind_eq_ok, require_eq_ok, exists_unit_iff, pure_eq_ok, Except.ok.injEq]
      rw [eq_comm (a := mid)]
    rw [foldlM_cons, bind_eq_ok]
    simp only [hstep, nodup_cons, forall_mem_cons]
    constructor
    · rintro ⟨mid, ⟨hfresh, hmem, rfl⟩, hrest⟩
      obtain ⟨hnodup, hall, hmems, rfl⟩ := ih.mp hrest
      refine ⟨⟨fun h => hall edge h (by simp), hnodup⟩, ⟨hfresh, fun other hother h => ?_⟩,
        ⟨hmem, hmems⟩, by simp⟩
      exact hall other hother (mem_append_left _ h)
    · rintro ⟨⟨hnotin, hnodup⟩, ⟨hfresh, hall⟩, ⟨hmem, hmems⟩, rfl⟩
      refine ⟨_, ⟨hfresh, hmem, rfl⟩, ih.mpr ⟨hnodup, fun other hother => ?_, hmems, by simp⟩⟩
      rw [mem_append, mem_singleton, not_or]
      exact ⟨hall other hother, fun heq => hnotin (heq ▸ hother)⟩

theorem metadataTotals_eq_ok {nodes : List NodeConfig} {total total' : Nat}
    (hlocals : ∀ node ∈ nodes, node.validateLocal = .ok node.config.byteLen) :
    nodes.foldlM metadataTotal total = .ok total' ↔ (nodes ≠ [] → total' ≤ usizeMax) ∧
      total' = total + (nodes.map (metadataMapBytes ·.metadata)).sum := by
  induction nodes generalizing total with
  | nil => simp [eq_comm]
  | cons node nodes ih =>
    rw [forall_mem_cons] at hlocals
    have hmetadata := (validateLocal_eq_ok hlocals.1).2
    have hstep : ∀ {mid}, metadataTotal total node = .ok mid ↔
        total + metadataMapBytes node.metadata ≤ usizeMax ∧
          mid = total + metadataMapBytes node.metadata := by
      intro mid
      unfold metadataTotal
      rw [hmetadata, ok_bind, checkedAdd_eq_ok]
    rw [foldlM_cons, bind_eq_ok, map_cons, sum_cons]
    constructor
    · rintro ⟨mid, hmid, hrest⟩
      obtain ⟨hle, rfl⟩ := hstep.mp hmid
      obtain ⟨hle', rfl⟩ := (ih hlocals.2).mp hrest
      refine ⟨fun _ => ?_, Nat.add_assoc _ _ _⟩
      cases nodes with
      | nil => simpa using hle
      | cons => exact hle' (by simp)
    · rintro ⟨hle, rfl⟩
      have hle := hle (by simp)
      exact ⟨_, hstep.mpr ⟨by omega, rfl⟩,
        (ih hlocals.2).mpr ⟨fun _ => hle, (Nat.add_assoc _ _ _).symm⟩⟩

theorem validateBasic_eq_ok {graph : NodeGraph} :
    (∃ total, graph.validateBasic = .ok total) ↔ graph.Basic := by
  have hnodes : ∀ {state}, graph.nodes.foldlM basicNode ([], 0) = .ok state ↔ _ :=
    basicNodes_eq_ok (Nat.zero_le _)
  unfold NodeGraph.validateBasic
  simp only [bind_eq_ok, require_eq_ok, exists_unit_iff, hnodes, basicEdges_eq_ok,
    nil_append, Nat.zero_add, pure_eq_ok, Except.ok.injEq]
  constructor
  · rintro ⟨_, hversion, hgraph, hends, hnodes, hedges, hne, hlength, ⟨ids, _⟩,
      ⟨hnodup, -, hlocals, hconfig, hstate⟩, hmem, _, ⟨hedgesNodup, -, hedgesMem, -⟩,
      bytes, hbytes, total, htotal, htotalLe, htext, -⟩
    cases hstate
    obtain rfl := validateMetadataMap_bytes hbytes
    obtain ⟨-, rfl⟩ := (metadataTotals_eq_ok hlocals).mp htotal
    exact ⟨hversion, hgraph, hends, hnodes, hedges, hne, hlength, hnodup, hlocals, hconfig, hmem,
      hedgesNodup, hedgesMem, hbytes, htotalLe, htext⟩
  · intro h
    have hmax : maxMetadataBytes ≤ usizeMax := by decide
    refine ⟨_, h.version_eq, h.graphId_ne, h.endpoints_ne, h.nodes_le, h.edges_le, h.nodes_ne,
      h.edges_length, (graph.nodeIds, _), ⟨h.ids_nodup, by simp, h.locals, h.config_le, rfl⟩,
      h.endpoints_mem, _, ⟨h.edges_nodup, by simp, h.edges_mem, rfl⟩, _, h.metadata_eq, _, ?_,
      h.metadata_le, h.text_le, rfl⟩
    exact (metadataTotals_eq_ok h.locals).mpr ⟨fun _ => h.metadata_le.trans hmax, rfl⟩

end Stillflow.Core
