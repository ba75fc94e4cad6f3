import Stillflow.Core.ScannedGraph
import Stillflow.Lib.FirstFault

/-!
The edge and degree loops in closed form: the edge loop fails at the first faulty edge and otherwise
lists each node's edges, so the degree law only counts edges.
-/

namespace Stillflow.Core

open Lib Lib.Fallible Lib.Maps Lib.FirstFault List

variable {definitions : Definitions} {edge : NodeEdge} {graph : NodeGraph}

def edgesFrom (edges : List NodeEdge) (id : NodeId) : List NodeEdge :=
  edges.filter fun edge => edge.source.nodeId = id

def edgesInto (edges : List NodeEdge) (id : NodeId) : List NodeEdge :=
  edges.filter fun edge => edge.target.nodeId = id

theorem getElem?_emptyAdjacency (nodes : List NodeConfig) (id : NodeId) :
    (emptyAdjacency nodes)[id]? = if id ∈ nodes.map NodeConfig.id then some [] else none := by
  have hentries : emptyAdjacency nodes = insertAll ∅ (nodes.map fun node => (node.id, [])) := by
    rw [emptyAdjacency, insertAll, foldl_map]
  have hkeys : (nodes.map fun node => (node.id, ([] : List NodeEdge))).map Prod.fst =
      nodes.map NodeConfig.id := by
    rw [map_map]
    rfl
  rw [hentries]
  split_ifs with hmem
  · refine getElem?_insertAll_of_agree (fun entry hentry other hother _ => ?_) ?_
    · obtain ⟨_, _, rfl⟩ := mem_map.mp hentry
      obtain ⟨_, _, rfl⟩ := mem_map.mp hother
      rfl
    · obtain ⟨node, hnode, rfl⟩ := mem_map.mp hmem
      exact mem_map.mpr ⟨node, hnode, rfl⟩
  · rw [getElem?_insertAll_of_notMem (hkeys ▸ hmem)]
    simp

theorem pushEdge_eq_ok {adjacency adjacency' : Adjacency} {id : NodeId} {message : String}
    (h : pushEdge adjacency id edge message = .ok adjacency') (other : NodeId) :
    adjacency'[other]? =
      adjacency[other]?.map (· ++ if id = other then [edge] else []) := by
  unfold pushEdge at h
  split at h
  · rename_i edges hedges
    cases h
    by_cases hsame : id = other
    · subst hsame
      rw [Std.ExtTreeMap.getElem?_insert_self, hedges, if_pos rfl]
      rfl
    · rw [getElem?_insert_ne (Ne.symm hsame), if_neg hsame]
      simp
  · cases h

theorem pushEdge_of_some {adjacency : Adjacency} {id : NodeId} {message : String}
    (h : adjacency[id]? ≠ none) :
    ∃ adjacency', pushEdge adjacency id edge message = .ok adjacency' := by
  obtain ⟨edges, hedges⟩ := Option.ne_none_iff_exists'.mp h
  exact ⟨_, by rw [pushEdge, hedges]⟩

theorem addEdge_eq_ok {state state' : Adjacency × Adjacency}
    (h : addEdge definitions state edge = .ok state') (id : NodeId) :
    state'.1[id]? = state.1[id]?.map (· ++ edgesInto [edge] id) ∧
      state'.2[id]? = state.2[id]?.map (· ++ edgesFrom [edge] id) := by
  obtain ⟨_, _, h⟩ := of_bind h
  obtain ⟨outgoing, houtgoing, h⟩ := of_bind h
  obtain ⟨incoming, hincoming, h⟩ := of_bind h
  cases h
  rw [pushEdge_eq_ok hincoming, pushEdge_eq_ok houtgoing]
  constructor
  · by_cases hid : edge.target.nodeId = id <;> simp [edgesInto, hid]
  · by_cases hid : edge.source.nodeId = id <;> simp [edgesFrom, hid]

theorem addEdges_eq_ok {edges : List NodeEdge} {state state' : Adjacency × Adjacency}
    (h : edges.foldlM (addEdge definitions) state = .ok state') (id : NodeId) :
    state'.1[id]? = state.1[id]?.map (· ++ edgesInto edges id) ∧
      state'.2[id]? = state.2[id]?.map (· ++ edgesFrom edges id) := by
  induction edges generalizing state with
  | nil =>
    cases h
    simp [edgesInto, edgesFrom]
  | cons edge edges ih =>
    rw [foldlM_cons] at h
    obtain ⟨mid, hmid, hrest⟩ := of_bind h
    obtain ⟨hin, hout⟩ := addEdge_eq_ok hmid id
    obtain ⟨hin', hout'⟩ := ih hrest
    have hinto : edgesInto (edge :: edges) id = edgesInto [edge] id ++ edgesInto edges id :=
      filter_append [edge] edges
    have hfrom : edgesFrom (edge :: edges) id = edgesFrom [edge] id ++ edgesFrom edges id :=
      filter_append [edge] edges
    rw [hin', hout', hin, hout, hinto, hfrom, Option.map_map, Option.map_map]
    simp [Function.comp_def]

/-- The edge loop of a basic graph fails at its first faulty edge and nowhere else. -/
theorem connect_cases (definitions : Definitions) (hbasic : graph.Basic) :
    (∃ state, graph.connect definitions = .ok state ∧
        graph.edges.forM (checkEdge definitions) = .ok ()) ∨
      ∃ e, graph.connect definitions = .error e ∧
        graph.edges.forM (checkEdge definitions) = .error e := by
  refine foldlM_of_check
    (fun state => ∀ id ∈ graph.nodeIds, state.1[id]? ≠ none ∧ state.2[id]? ≠ none)
    (fun state edge hedge hstate hcheck => ?_) (fun state edge _ _ e hcheck => ?_) ?_
  · obtain ⟨hsource, htarget⟩ := hbasic.edges_mem edge hedge
    obtain ⟨outgoing, houtgoing⟩ := pushEdge_of_some (hstate _ hsource).2
    obtain ⟨incoming, hincoming⟩ := pushEdge_of_some (hstate _ htarget).1
    refine ⟨(incoming, outgoing), ?_, fun id hid => ?_⟩
    · rw [addEdge, hcheck, ok_bind, houtgoing, ok_bind, hincoming]
      rfl
    · rw [pushEdge_eq_ok hincoming, pushEdge_eq_ok houtgoing, Ne, Ne, Option.map_eq_none_iff,
        Option.map_eq_none_iff]
      exact hstate id hid
  · rw [addEdge, hcheck, error_bind]
  · intro id hid
    have hempty : (emptyAdjacency graph.nodes)[id]? = some [] :=
      (getElem?_emptyAdjacency graph.nodes id).trans (if_pos hid)
    simp [hempty]

theorem connect_eq_ok {incoming outgoing : Adjacency}
    (h : graph.connect definitions = .ok (incoming, outgoing)) (id : NodeId) :
    incoming[id]? = (if id ∈ graph.nodeIds then some (edgesInto graph.edges id) else none) ∧
      outgoing[id]? = if id ∈ graph.nodeIds then some (edgesFrom graph.edges id) else none := by
  obtain ⟨hin, hout⟩ := addEdges_eq_ok h id
  rw [hin, hout, getElem?_emptyAdjacency]
  unfold NodeGraph.nodeIds
  split_ifs <;> simp

/-- A linear path enters every node but the source once and leaves every node but the output once. -/
def DegreeLaw (definition : NodeDefinition) (edges : List NodeEdge) (id : NodeId) : Prop :=
  (edgesInto edges id).length = (if definition.isSource then 0 else 1) ∧
    (edgesFrom edges id).length = if definition.isOutput then 0 else 1

instance (definition : NodeDefinition) (edges : List NodeEdge) (id : NodeId) :
    Decidable (DegreeLaw definition edges id) :=
  inferInstanceAs (Decidable (_ ∧ _))

/-- The degree law of one node as a check on the edges themselves. -/
def degreeCheck (definitions : Definitions) (edges : List NodeEdge) (node : NodeConfig) :
    Except NodeGraphError Unit :=
  match definitions[node.id]? with
  | some definition => require (DegreeLaw definition edges node.id)
      (topologyError (some node.id) "Phase-1 graph must be one connected linear path")
  | none => .error (.new .internal (some node.id) "resolved node definition is absent")

theorem checkDegree_eq {incoming outgoing : Adjacency}
    (h : graph.connect definitions = .ok (incoming, outgoing)) {node : NodeConfig}
    (hnode : node ∈ graph.nodes) :
    checkDegree definitions incoming outgoing node = degreeCheck definitions graph.edges node := by
  obtain ⟨hin, hout⟩ := connect_eq_ok h node.id
  have hid : node.id ∈ graph.nodeIds := mem_map.mpr ⟨node, hnode, rfl⟩
  rw [if_pos hid] at hin hout
  unfold checkDegree degreeCheck lookupNode
  cases hdef : definitions[node.id]? with
  | none => rfl
  | some definition =>
    simp only [ok_bind, hin, hout]
    refine require_congr ?_
    unfold DegreeLaw
    cases definition.isSource <;> cases definition.isOutput <;> simp

end Stillflow.Core
