import Stillflow.Core.Rearranged
import Stillflow.Plan.CompiledPlan

/-!
What a compiled graph does not depend on: the order of the node and edge arrays, the graph id, and
metadata.
-/

namespace Stillflow.Plan

open Stillflow.Core Lib Lib.Fallible Lib.Maps Lib.FirstFault List

variable {graph graph' : NodeGraph}

/-- A loop of checked additions fails exactly when the whole sum overflows. -/
theorem foldlM_checkedAdd {ε α : Type} {error : ε} {size : α → Nat} {l : List α} {total : Nat}
    (h : total ≤ usizeMax) :
    l.foldlM (fun total a => checkedAdd error total (size a)) total =
      checkedAdd error total (l.map size).sum := by
  induction l generalizing total with
  | nil =>
    rw [foldlM_nil, map_nil, sum_nil, checkedAdd, Nat.add_zero, if_pos h]
    rfl
  | cons a l ih =>
    rw [foldlM_cons, map_cons, sum_cons]
    by_cases hfit : total + size a ≤ usizeMax
    · have hadd : checkedAdd error total (size a) = .ok (total + size a) := if_pos hfit
      rw [hadd, ok_bind, ih hfit]
      unfold checkedAdd
      rw [Nat.add_assoc]
    · have hadd : checkedAdd error total (size a) = .error error := if_neg hfit
      rw [hadd, error_bind, checkedAdd, if_neg (by omega)]

theorem metadataEntries_eq (h : Rearranged graph graph') :
    metadataEntries graph' = metadataEntries graph := by
  unfold metadataEntries
  rw [foldlM_checkedAdd (Nat.zero_le _), foldlM_checkedAdd (Nat.zero_le _),
    (h.nodes.map _).sum_eq, h.metadata_eq]

theorem configBytes_eq (h : Rearranged graph graph') {total : Nat} (htotal : total ≤ usizeMax) :
    graph'.nodes.foldlM (fun total node => checkedAdd limitError total node.config.byteLen) total =
      graph.nodes.foldlM (fun total node => checkedAdd limitError total node.config.byteLen)
        total := by
  rw [foldlM_checkedAdd htotal, foldlM_checkedAdd htotal, (h.nodes.map _).sum_eq]

theorem byteLen_le_of_validateLocal {node : NodeConfig} {bytes : Nat}
    (h : node.validateLocal = .ok bytes) : node.config.byteLen ≤ maxConfigBytes := by
  simp only [NodeConfig.validateLocal, bind_eq_ok, exists_unit_iff] at h
  obtain ⟨-, -, -, -, hle, -⟩ := h
  exact require_eq_ok.mp hle

theorem shapeWork_eq {nodes : List NodeConfig} {total : Nat}
    (hlocals : ∀ node ∈ nodes, node.validateLocal = .ok node.config.byteLen) :
    nodes.foldlM shapeWorkNode total =
      nodes.foldlM (fun total node => checkedAdd limitError total node.config.byteLen) total := by
  induction nodes generalizing total with
  | nil => rfl
  | cons node nodes ih =>
    rw [forall_mem_cons] at hlocals
    have hstep : shapeWorkNode total node = checkedAdd limitError total node.config.byteLen := by
      unfold shapeWorkNode
      rw [show require _ _ = .ok () from
        require_eq_ok.mpr (byteLen_le_of_validateLocal hlocals.1), ok_bind]
    rw [foldlM_cons, foldlM_cons, hstep]
    exact bind_congr fun next => ih hlocals.2

theorem checkShapeWork_eq (h : Rearranged graph graph') (hbasic : graph.Basic)
    (hbasic' : graph'.Basic) : checkShapeWork graph' = checkShapeWork graph := by
  unfold checkShapeWork
  rw [metadataEntries_eq h, h.nodes.length_eq, h.edges.length_eq]
  refine bind_congr fun _ => bind_congr fun entries => bind_congr fun _ => bind_congr fun items =>
    bind_congr fun entryWork => ?_
  cases hwork : checkedAdd limitError items entryWork with
  | error e => rfl
  | ok work =>
    have hle : work ≤ usizeMax := by
      obtain ⟨hle, rfl⟩ := checkedAdd_eq_ok.mp hwork
      exact hle
    rw [ok_bind, ok_bind, shapeWork_eq hbasic.locals, shapeWork_eq hbasic'.locals,
      configBytes_eq h hle]

theorem checkCompileWork_eq (h : Rearranged graph graph') (configs : Configs)
    (schema : Option LogicalSchema) :
    checkCompileWork graph' configs schema = checkCompileWork graph configs schema := by
  have hsnapshots : checkSnapshots graph' configs schema = checkSnapshots graph configs schema := by
    cases schema with
    | none => rfl
    | some schema =>
      unfold checkSnapshots estimateSchemaSnapshotBytes sourceWidth
      rw [h.source_eq, h.nodes.length_eq]
  unfold checkCompileWork
  rw [metadataEntries_eq h, configBytes_eq h (Nat.zero_le _), hsnapshots, h.nodes.length_eq,
    h.edges.length_eq]

/-- The endpoint tuple order of edges as a comparison. -/
def edgeCompare : NodeEdge → NodeEdge → Ordering :=
  compareLex (compareLex (compareLex (compareOn (·.source.nodeId)) (compareOn (·.source.port)))
    (compareOn (·.target.nodeId))) (compareOn (·.target.port))

theorem edgeLe_eq (left right : NodeEdge) : edgeLe left right = (edgeCompare left right).isLE := rfl

instance : Std.TransCmp edgeCompare := by
  unfold edgeCompare
  infer_instance

theorem eq_of_edgeCompare {left right : NodeEdge} (h : edgeCompare left right = .eq) :
    left = right := by
  unfold edgeCompare compareLex compareOn at h
  simp only [Ordering.then_eq_eq, Std.LawfulEqOrd.compare_eq_iff_eq] at h
  obtain ⟨⟨⟨hsource, hsourcePort⟩, htarget⟩, htargetPort⟩ := h
  obtain ⟨⟨_, _⟩, ⟨_, _⟩⟩ := left
  obtain ⟨⟨_, _⟩, ⟨_, _⟩⟩ := right
  simp_all

theorem sortedEdges_eq {edges edges' : List NodeEdge} (h : edges'.Perm edges) :
    (edges'.insertionSort fun left right => edgeLe left right = true) =
      edges.insertionSort fun left right => edgeLe left right = true := by
  refine insertionSort_eq_of_perm (fun a b => ?_) (fun a b c hab hbc => ?_)
    (fun a _ b _ hab hba => ?_) h
  · have hswap : edgeCompare b a = (edgeCompare a b).swap := Std.OrientedCmp.eq_swap
    rw [edgeLe_eq, edgeLe_eq, hswap]
    cases edgeCompare a b <;> simp
  · rw [edgeLe_eq] at hab hbc ⊢
    exact Std.TransCmp.isLE_trans hab hbc
  · rw [edgeLe_eq] at hab hba
    exact eq_of_edgeCompare (Std.OrientedCmp.isLE_antisymm hab hba)

theorem uniquePath_eq (hedges : graph'.edges.Perm graph.edges)
    (hsource : graph'.sourceNodeId = graph.sourceNodeId)
    (houtput : graph'.outputNodeId = graph.outputNodeId)
    (hlength : graph'.nodes.length = graph.nodes.length) :
    uniquePath graph' = uniquePath graph := by
  unfold uniquePath
  rw [sortedEdges_eq hedges, hsource, houtput, hlength]

variable {serde : Serde} {registry : NodeRegistry}
  {toVec : LogicalPlan → Except String (List UInt8)} {source : AuthorizedSourceContext}
  {target : CompileTarget}

/-- Past the path, the compiler reads only the endpoints of the graph itself. -/
theorem lowerAlong_eq (configs : Configs) (path : List NodeId)
    (hsource : graph'.sourceNodeId = graph.sourceNodeId)
    (houtput : graph'.outputNodeId = graph.outputNodeId) :
    lowerAlong toVec graph' configs source target path =
      lowerAlong toVec graph configs source target path := by
  have hnode : ∀ asset, compileNode graph' configs asset = compileNode graph configs asset := by
    intro asset
    funext state nodeId
    unfold compileNode compileAtomic
    rw [hsource, houtput]
  have htarget : checkTarget graph' configs target = checkTarget graph configs target := by
    cases target with
    | execution => rfl
    | preview node =>
      unfold checkTarget
      rw [houtput]
  have hfinish : finishPlan toVec graph' = finishPlan toVec graph := by
    funext state
    unfold finishPlan
    rw [houtput]
  unfold lowerAlong sourceConfig
  simp only [hnode, htarget, hfinish, hsource]

theorem lowerGraph_rearranged (h : Rearranged graph graph') (configs : Configs) :
    lowerGraph toVec graph' configs source target = lowerGraph toVec graph configs source target := by
  rw [lowerGraph, lowerGraph, checkCompileWork_eq h,
    uniquePath_eq h.edges h.source_eq h.output_eq h.nodes.length_eq]
  simp only [lowerAlong_eq configs _ h.source_eq h.output_eq]

theorem compile_rearranged {compiled : CompiledNodeGraph} (h : Rearranged graph graph')
    (hid : graph'.graphId ≠ 0)
    (hok : compile serde toVec registry graph source target = .ok compiled) :
    compile serde toVec registry graph' source target = .ok compiled := by
  unfold compile at hok ⊢
  obtain ⟨_, hshape, hok⟩ := of_bind hok
  obtain ⟨_, hschema, hok⟩ := of_bind hok
  obtain ⟨configs, hconfigs, hok⟩ := of_bind hok
  have hconfigs := mapError_eq_ok.mp hconfigs
  obtain ⟨scan, hscan, -⟩ := validatedConfigs_eq_ok hconfigs
  have hbasic := (scanned_of_scanNodes hscan).basic
  rw [checkShapeWork_eq h hbasic (h.basic hid hbasic), hshape, ok_bind, hschema, ok_bind,
    validatedConfigs_rearranged h hid hconfigs]
  exact (lowerGraph_rearranged h configs).trans hok

/-- A node without its metadata. -/
def bareNode (node : NodeConfig) : NodeConfig := { node with metadata := ∅ }

theorem validateNodeConfig_bare {definition : NodeDefinition}
    (hdef : definition ∈ productionDefinitions serde) (node : NodeConfig) :
    definition.validateNodeConfig (bareNode node) = definition.validateNodeConfig node := by
  simp only [productionDefinitions, mem_cons, not_mem_nil, or_false] at hdef
  rcases hdef with rfl | rfl | rfl | rfl | rfl | rfl | rfl | rfl | rfl | rfl | rfl | rfl | rfl
  all_goals rfl

theorem resolveConfig_bare {definition : NodeDefinition} (hdef : Deployable serde definition)
    (node : NodeConfig) :
    resolveConfig serde registry (bareNode node) definition =
      resolveConfig serde registry node definition := by
  cases hdef with
  | builtin hmem =>
    unfold resolveConfig
    rw [builtin_atomic hmem]
    exact validateNodeConfig_bare hmem node
  | package => rfl

/-- No deployed definition reads the metadata of the node it configures. -/
theorem resolveNode_bare (hreg : Registered serde registry) (node : NodeConfig) :
    resolveNode serde registry (bareNode node) = resolveNode serde registry node := by
  unfold resolveNode
  cases hlookup : registry.lookup node.typeId node.configVersion with
  | error e =>
    rw [show registry.lookup (bareNode node).typeId (bareNode node).configVersion = .error e
      from hlookup]
    rfl
  | ok definition =>
    have hdeploy := deployable_of_registered hreg definition (NodeRegistry.lookup_eq_ok hlookup)
    rw [show registry.lookup (bareNode node).typeId (bareNode node).configVersion = .ok definition
      from hlookup]
    simp only [Except.mapError, ok_bind, resolveConfig_bare hdeploy]

/-- The same nodes, edges and endpoints, whatever the order, the graph id and all metadata. -/
structure SameProgram (graph graph' : NodeGraph) : Prop where
  source_eq : graph'.sourceNodeId = graph.sourceNodeId
  output_eq : graph'.outputNodeId = graph.outputNodeId
  nodes : (graph'.nodes.map bareNode).Perm (graph.nodes.map bareNode)
  edges : graph'.edges.Perm graph.edges

theorem configs_eq_of_sameProgram {configs configs' : Configs} (hreg : Registered serde registry)
    (h : SameProgram graph graph') (hok : graph.validatedConfigs serde registry = .ok configs)
    (hok' : graph'.validatedConfigs serde registry = .ok configs') : configs' = configs := by
  obtain ⟨scan, hscan, rfl⟩ := validatedConfigs_eq_ok hok
  obtain ⟨scan', hscan', rfl⟩ := validatedConfigs_eq_ok hok'
  have hfound := scanned_of_scanNodes hscan
  have hfound' := scanned_of_scanNodes hscan'
  have hids : graph'.nodeIds.Perm graph.nodeIds := by
    have hmap := h.nodes.map NodeConfig.id
    rw [map_map, map_map] at hmap
    exact hmap
  refine Std.ExtTreeMap.ext_getElem? fun id => ?_
  by_cases hid : id ∈ graph'.nodeIds
  · obtain ⟨node', hnode', rfl⟩ := mem_map.mp hid
    have hbare := h.nodes.mem_iff.mp (mem_map.mpr ⟨node', hnode', rfl⟩)
    obtain ⟨node, hnode, hsame⟩ := mem_map.mp hbare
    obtain ⟨resolved, hresolved, -, hconfig⟩ := hfound.resolved node hnode
    obtain ⟨resolved', hresolved', -, hconfig'⟩ := hfound'.resolved node' hnode'
    rw [← resolveNode_bare hreg, hsame, resolveNode_bare hreg, hresolved', Except.ok.injEq]
      at hresolved
    have hid : node.id = node'.id := (NodeConfig.mk.inj hsame).1
    rw [hconfig', ← hid, hconfig, hresolved]
  · rw [(hfound'.absent id hid).2, (hfound.absent id fun hmem => hid (hids.mem_iff.mpr hmem)).2]

theorem compile_sameProgram {compiled compiled' : CompiledNodeGraph}
    (hreg : Registered serde registry) (h : SameProgram graph graph')
    (hok : compile serde toVec registry graph source target = .ok compiled)
    (hok' : compile serde toVec registry graph' source target = .ok compiled') :
    compiled' = compiled := by
  have hinvert : ∀ {g c}, compile serde toVec registry g source target = .ok c →
      ∃ configs path, g.validatedConfigs serde registry = .ok configs ∧ uniquePath g = .ok path ∧
        lowerAlong toVec g configs source target path = .ok c := by
    intro g c hc
    unfold compile at hc
    obtain ⟨_, _, hc⟩ := of_bind hc
    obtain ⟨_, _, hc⟩ := of_bind hc
    obtain ⟨configs, hconfigs, hc⟩ := of_bind hc
    rw [lowerGraph] at hc
    obtain ⟨_, _, hc⟩ := of_bind hc
    obtain ⟨path, hpath, hc⟩ := of_bind hc
    exact ⟨configs, path, mapError_eq_ok.mp hconfigs, hpath, hc⟩
  obtain ⟨configs, path, hconfigs, hpath, hlower⟩ := hinvert hok
  obtain ⟨configs', path', hconfigs', hpath', hlower'⟩ := hinvert hok'
  have hlength : graph'.nodes.length = graph.nodes.length := by
    have := h.nodes.length_eq
    rwa [length_map, length_map] at this
  rw [uniquePath_eq h.edges h.source_eq h.output_eq hlength, hpath, Except.ok.injEq] at hpath'
  rw [configs_eq_of_sameProgram hreg h hconfigs hconfigs', ← hpath',
    lowerAlong_eq configs path h.source_eq h.output_eq, hlower, Except.ok.injEq] at hlower'
  exact hlower'.symm

/-- Rearranging a graph and changing its id leaves the outcome of a compilation as it is, and two
graphs of one program that both compile do so to the same result. -/
theorem compile_ignores_presentation (hreg : Registered serde registry) :
    (∀ graph graph' : NodeGraph, Rearranged graph graph' → graph.graphId ≠ 0 →
      graph'.graphId ≠ 0 → ∀ compiled,
        compile serde toVec registry graph source target = .ok compiled ↔
          compile serde toVec registry graph' source target = .ok compiled) ∧
    ∀ graph graph' : NodeGraph, SameProgram graph graph' → ∀ compiled compiled',
      compile serde toVec registry graph source target = .ok compiled →
      compile serde toVec registry graph' source target = .ok compiled' →
        compiled'.plan.canonicalBytes toVec = compiled.plan.canonicalBytes toVec ∧
          compiled' = compiled := by
  constructor
  · intro graph graph' h hid hid' compiled
    exact ⟨compile_rearranged h hid', compile_rearranged h.symm hid⟩
  · intro graph graph' h compiled compiled' hok hok'
    obtain rfl := compile_sameProgram hreg h hok hok'
    exact ⟨rfl, rfl⟩

/-- The compilation that the following runs repeat on variants of one graph. -/
def compileSample (graph : NodeGraph) : Except NodeGraphCompileError CompiledNodeGraph :=
  compile sampleSerde (fun _ => .ok []) (.new sampleSerde) graph sampleSource .execution

def trimGraph : NodeGraph := linearGraph 1 2 3 [columnNode "stillflow.node.trim" 4]

def reversedGraph : NodeGraph :=
  { trimGraph with
    graphId := 5
    nodes := trimGraph.nodes.reverse
    edges := trimGraph.edges.reverse }

def annotatedGraph : NodeGraph := { trimGraph with metadata := {("note", "draft")} }

theorem compileSample_trimGraph : (compileSample trimGraph).isOk = true := by decide +kernel

theorem compile_ignores_presentation_trim : ∃ compiled,
    compileSample trimGraph = .ok compiled ∧ compileSample reversedGraph = .ok compiled ∧
      compileSample annotatedGraph = .ok compiled := by
  have hok' : (compileSample annotatedGraph).isOk = true := by decide +kernel
  obtain ⟨compiled, hcompiled⟩ := exists_of_isOk compileSample_trimGraph
  obtain ⟨compiled', hcompiled'⟩ := exists_of_isOk hok'
  have hrearranged : Rearranged trimGraph reversedGraph :=
    ⟨rfl, rfl, rfl, rfl, reverse_perm _, reverse_perm _⟩
  have hsame : SameProgram trimGraph annotatedGraph := ⟨rfl, rfl, .refl _, .refl _⟩
  have hlaw := @compile_ignores_presentation sampleSerde (.new sampleSerde) (fun _ => .ok [])
    sampleSource .execution .new
  refine ⟨compiled, hcompiled, ?_, ?_⟩
  · exact (hlaw.1 _ _ hrearranged (by decide) (by decide) compiled).mp hcompiled
  · rw [← (hlaw.2 _ _ hsame _ _ hcompiled hcompiled').2]
    exact hcompiled'

/-- The nil graph id is refused, so one of two graphs that differ in their id may not compile. -/
theorem compile_nil_graphId :
    (compileSample trimGraph).isOk = true ∧
      (compileSample { trimGraph with graphId := 0 }).isOk = false :=
  ⟨compileSample_trimGraph, by decide +kernel⟩

end Stillflow.Plan
