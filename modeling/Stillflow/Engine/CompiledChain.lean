import Stillflow.Engine.ChainLinearize
import Stillflow.Plan.CompiledPlan

/-!
A compiled graph, as the engine sees it: `linearize` gives back one plan node per step of every
graph node on the path, and the compiler's maps describe that chain.
-/

namespace Stillflow.Engine

open Stillflow.Core Stillflow.Plan Lib Lib.Fallible Lib.Maps List

/-- The number of plan nodes that the visited part of a path is lowered to. -/
def stepsThrough (configs : Configs) (visited : List NodeId) : Nat :=
  (visited.flatMap (nodeSteps configs)).length

/-- The chain that a compiled graph stands for. -/
structure LinearLowering (graph : NodeGraph) (source : AuthorizedSourceContext)
    (configs : Configs) (path : List NodeId) (compiled : CompiledNodeGraph)
    (chain : List PlanEntry) : Prop where
  covers : path.Perm graph.nodeIds
  plan_valid : compiled.plan.validate = .ok ()
  linear : linearize compiled.plan = .ok chain
  /-- A scan, one node per step of each node between the endpoints, and the materialize node. -/
  kinds : ∃ inner projection label,
    path = graph.sourceNodeId :: (inner ++ [graph.outputNodeId]) ∧
    configs[graph.sourceNodeId]? = some (.source source.sourceAssetId projection) ∧
    configs[graph.outputNodeId]? = some (.output label) ∧
    chain.map (fun entry => some entry.2.kind) =
      some (.scan source.sourceAssetId (projection.getD (source.schema.fields.map (·.id))) none) ::
        ((inner.flatMap (nodeSteps configs)).map operatorKind ++ [some (.materialize label)])
  distinct : (chain.map Prod.fst).Nodup
  complete : chain.Perm compiled.plan.nodes.toList
  /-- Every product node is mapped to the last plan node of its steps, with the schema there. -/
  product : ∀ before nodeId after, path = before ++ nodeId :: after →
    compiled.nodePlanIds[nodeId]? =
        (chain.take (stepsThrough configs (before ++ [nodeId]))).getLast?.map Prod.fst ∧
      ∃ schema, compiled.nodeSchemas[nodeId]? = some schema ∧
        ((chain.take (stepsThrough configs (before ++ [nodeId]))).map (·.2.kind)).foldlM
          schemaEffect source.schema = .ok schema
  /-- The schema map also describes every plan node of the chain. -/
  step : ∀ before entry after, chain = before ++ entry :: after →
    ∃ schema, compiled.nodeSchemas[entry.1]? = some schema ∧
      ((before ++ [entry]).map (·.2.kind)).foldlM schemaEffect source.schema = .ok schema

theorem operatorKind_inner {config : ValidatedNodeConfig} {kind : PlanNodeKind}
    (h : operatorKind config = some kind) : isScan kind = false ∧ isMaterialize kind = false := by
  cases config <;> simp [operatorKind, productRule] at h
  case cast column dataType onFailure format =>
    cases format <;> simp at h <;> subst h <;> exact ⟨rfl, rfl⟩
  all_goals
    subst h
    exact ⟨rfl, rfl⟩

theorem chainEntries_kinds (previous : Option PlanNodeId) (es : List Emission) :
    (chainEntries previous es).map (·.2.kind) = es.map Emission.kind := by
  induction es generalizing previous with
  | nil => rfl
  | cons e es ih => rw [chainEntries, map_cons, map_cons, ih]

theorem chainEntries_take (previous : Option PlanNodeId) (es : List Emission) (n : Nat) :
    (chainEntries previous es).take n = chainEntries previous (es.take n) := by
  induction es generalizing previous n with
  | nil => simp [chainEntries]
  | cons e es ih =>
    cases n with
    | zero => rfl
    | succ n => rw [chainEntries, take_succ_cons, ih, take_succ_cons, chainEntries]

variable {serde : Serde} {registry : NodeRegistry} {graph : NodeGraph}
  {source : AuthorizedSourceContext} {compiled : CompiledNodeGraph} {configs : Configs}
  {path : List NodeId} {working : LogicalSchema} {blocks : List (NodeId × List Emission)}

theorem effects_take {schema : LogicalSchema} {es : List Emission} (h : Effects schema es)
    (n : Nat) : ((es.take n).map Emission.kind).foldlM schemaEffect schema =
      .ok (schemaAfter schema (es.take n)) := by
  rw [← take_append_drop n es, effects_append] at h
  exact foldlM_schemaEffect h.1

theorem emissions_through
    (h : Lowered serde registry graph source compiled configs path working blocks)
    {before after : List NodeId} {nodeId : NodeId} (hpath : path = before ++ nodeId :: after) :
    ∃ prior es rest, blocks = prior ++ (nodeId, es) :: rest ∧ rest.map Prod.fst = after ∧
      (emissions blocks).take (stepsThrough configs (before ++ [nodeId])) =
        emissions prior ++ es := by
  have hlower := h.lower_eq
  rw [hpath, ← singleton_append, ← append_assoc] at hlower
  obtain ⟨through, rest, hblocks, hthrough, hrest⟩ := lowerPath_append hlower
  obtain ⟨prior, own, rfl, -, hown⟩ := lowerPath_append hthrough
  rw [lowerPath] at hown
  obtain ⟨es, -, hown⟩ := of_bind hown
  cases hown
  refine ⟨prior, es, rest, by rw [hblocks, append_assoc]; rfl, lowerPath_fst hrest, ?_⟩
  rw [stepsThrough, ← emissions_length hthrough, hblocks, emissions_append (prior ++ _) rest,
    take_left, emissions_append]
  simp [emissions]

section Deployed

variable (hreg : Registered serde registry)
  (h : Lowered serde registry graph source compiled configs path working blocks)
include hreg h

theorem nodeSchemas_of_mem {block : NodeId × List Emission} (hblock : block ∈ blocks)
    {entry : NodeId × LogicalSchema} (hentry : entry ∈ schemaEntries block) :
    compiled.nodeSchemas[entry.1]? = some entry.2 := by
  rw [(h.maps_eq hreg).2.2.1]
  have hn : (blocks.map Prod.fst).Nodup := h.blocks_fst ▸ h.path_nodup
  exact getElem?_insertAll_of_agree
    (schemaEntries_agree hn h.planIds_init h.fresh (h.ids_nodup hreg))
    (mem_flatMap.mpr ⟨block, hblock, hentry⟩)

theorem product_of_lowered {before after : List NodeId} {nodeId : NodeId}
    (hpath : path = before ++ nodeId :: after) :
    ∃ last, ((emissions blocks).take (stepsThrough configs (before ++ [nodeId]))).getLast? =
        some last ∧
      compiled.nodePlanIds[nodeId]? = some last.id ∧
      compiled.nodeSchemas[nodeId]? = some last.schema := by
  obtain ⟨prior, es, rest, hblocks, hrest, htake⟩ := emissions_through h hpath
  have hmem : (nodeId, es) ∈ blocks := by simp [hblocks]
  have hne : es ≠ [] := h.blocks_ne hreg (nodeId, es) hmem
  have hlast := getLast?_eq_some_getLast hne
  refine ⟨es.getLast hne, ?_, ?_, ?_⟩
  · rw [htake, getLast?_append_of_ne_nil _ hne, hlast]
  · have hafter : nodeId ∉ rest.map Prod.fst := by
      have hnodup := h.path_nodup
      rw [hpath, nodup_append, nodup_cons] at hnodup
      rw [hrest]
      exact hnodup.2.1.1
    rw [(h.maps_eq hreg).1, hblocks, getElem?_planIdsAfter hafter, lastId, hlast]
    rfl
  · exact nodeSchemas_of_mem hreg h hmem (mem_schemaEntries.mpr (.inr ⟨_, hlast, rfl⟩))

theorem schema_of_emission {e : Emission} (he : e ∈ emissions blocks) :
    compiled.nodeSchemas[e.id]? = some e.schema := by
  obtain ⟨block, hblock, he⟩ := mem_flatMap.mp he
  exact nodeSchemas_of_mem hreg h hblock (mem_schemaEntries.mpr (.inl ⟨e, he, rfl⟩))

theorem root_of_lowered {inner : List NodeId}
    (hpath : path = graph.sourceNodeId :: (inner ++ [graph.outputNodeId])) :
    (emissions blocks).getLast?.map Emission.id = some compiled.plan.root := by
  have hsplit : path = (graph.sourceNodeId :: inner) ++ graph.outputNodeId :: [] := hpath
  obtain ⟨last, hlast, hid, -⟩ := product_of_lowered hreg h hsplit
  have hall : stepsThrough configs (graph.sourceNodeId :: inner ++ [graph.outputNodeId]) =
      (emissions blocks).length := by
    rw [emissions_length h.lower_eq, hsplit, stepsThrough]
  rw [hall, take_length] at hlast
  have hroot := h.root_eq
  rw [← (h.maps_eq hreg).1, hid, Option.getD_some] at hroot
  rw [hlast, Option.map_some, hroot]

theorem linearize_of_lowered :
    linearize compiled.plan = .ok (chainEntries none (emissions blocks)) := by
  obtain ⟨inner, projection, label, hpath, -, -, hkinds, -⟩ := h.kinds hreg
  have hroot := root_of_lowered hreg h hpath
  have hn := h.ids_nodup hreg
  have hnodes := (h.maps_eq hreg).2.1
  obtain ⟨first, rest, hes, hfirst, hrest⟩ := map_eq_cons_iff.mp hkinds
  obtain ⟨middle, final, hsplit, hmiddle, hfinal⟩ := map_eq_append_iff.mp hrest
  obtain ⟨last, hlast, hmaterialize⟩ := map_eq_singleton_iff.mp hfinal
  have hfirst : first.kind = _ := Option.some.inj hfirst
  have hmaterialize : last.kind = _ := Option.some.inj hmaterialize
  rw [hes, hsplit, hlast] at hroot hn hnodes ⊢
  rw [← cons_append, getLast?_concat, Option.map_some, Option.some.injEq] at hroot
  refine linearize_chain hn hnodes hroot.symm (by rw [hfirst]; rfl) (fun e he => ?_)
    (by rw [hmaterialize]; rfl)
  have hmem : some e.kind ∈ middle.map (some ∘ Emission.kind) := mem_map.mpr ⟨e, he, rfl⟩
  rw [hmiddle, mem_map] at hmem
  obtain ⟨config, -, hkind⟩ := hmem
  exact operatorKind_inner hkind

end Deployed

/-- A successful compilation is a linear lowering: the engine linearizes the plan to one node per
step of the path, none lost, with the compiler's maps pointing into that chain. -/
theorem compile_linear {toVec : LogicalPlan → Except String (List UInt8)} {target : CompileTarget}
    (hreg : Registered serde registry)
    (h : compile serde toVec registry graph source target = .ok compiled) :
    ∃ configs path chain, graph.validatedConfigs serde registry = .ok configs ∧
      uniquePath graph = .ok path ∧ LinearLowering graph source configs path compiled chain := by
  obtain ⟨configs, path, working, blocks, hlow⟩ := compile_eq_ok h
  obtain ⟨inner, projection, label, hpath, hsource, houtput, hkinds, heffects⟩ := hlow.kinds hreg
  have hids : ((chainEntries none (emissions blocks)).map Prod.fst).Nodup := by
    rw [chainEntries_fst]
    exact hlow.ids_nodup hreg
  refine ⟨configs, path, chainEntries none (emissions blocks), hlow.validated, hlow.path_eq, {
    covers := hlow.path_perm
    plan_valid := hlow.plan_valid
    linear := linearize_of_lowered hreg hlow
    kinds := ⟨inner, projection, label, hpath, hsource, houtput, ?_⟩
    distinct := hids
    complete := ?_
    product := ?_
    step := ?_ }⟩
  · have hmap := congrArg (List.map some) (chainEntries_kinds none (emissions blocks))
    rw [map_map, map_map] at hmap
    exact hmap.trans hkinds
  · rw [(hlow.maps_eq hreg).2.1]
    exact (toList_insertAll_perm hids).symm
  · intro before nodeId after hsplit
    obtain ⟨last, hlast, hid, hschema⟩ := product_of_lowered hreg hlow hsplit
    refine ⟨?_, last.schema, hschema, ?_⟩
    · rw [hid, ← getLast?_map, chainEntries_take, chainEntries_fst, getLast?_map, hlast]
      rfl
    · rw [chainEntries_take, chainEntries_kinds, effects_take heffects, schemaAfter, hlast]
      rfl
  · intro before entry after hsplit
    have htaken : before ++ [entry] =
        (chainEntries none (emissions blocks)).take (before.length + 1) := by
      rw [hsplit, take_append]
      simp
    rw [htaken, chainEntries_take, chainEntries_kinds, effects_take heffects]
    have hid : ((emissions blocks).take (before.length + 1)).getLast?.map Emission.id =
        some entry.1 := by
      rw [← getLast?_map, ← chainEntries_fst none, ← chainEntries_take, ← htaken,
        map_append, map_singleton, getLast?_concat]
    obtain ⟨e, he, hid⟩ := Option.map_eq_some_iff.mp hid
    have hmem := mem_of_mem_take (mem_of_getLast? he)
    refine ⟨e.schema, hid ▸ schema_of_emission hreg hlow hmem, ?_⟩
    rw [schemaAfter, he]
    rfl

theorem compile_trimClean_isOk : (compile sampleSerde (fun _ => .ok []) (deployed [trimCleanPackage])
    (linearGraph 1 2 3 [columnNode "stillflow.composite.trim-clean" 0x40000]) sampleSource
    .execution).isOk = true := by
  decide +kernel

/-- Source, one trim-clean composite, output. -/
theorem compile_linear_trimClean : ∃ compiled,
    compile sampleSerde (fun _ => .ok []) (deployed [trimCleanPackage])
      (linearGraph 1 2 3 [columnNode "stillflow.composite.trim-clean" 0x40000]) sampleSource
      .execution = .ok compiled ∧
    ∃ configs path chain,
      (linearGraph 1 2 3 [columnNode "stillflow.composite.trim-clean" 0x40000]).validatedConfigs
        sampleSerde (deployed [trimCleanPackage]) = .ok configs ∧
      uniquePath (linearGraph 1 2 3 [columnNode "stillflow.composite.trim-clean" 0x40000]) =
        .ok path ∧
      LinearLowering (linearGraph 1 2 3 [columnNode "stillflow.composite.trim-clean" 0x40000])
        sampleSource configs path compiled chain := by
  obtain ⟨compiled, hcompiled⟩ := exists_of_isOk compile_trimClean_isOk
  exact ⟨compiled, hcompiled, compile_linear (registered_deployed _) hcompiled⟩

end Stillflow.Engine
