import Stillflow.Core.ScannedGraph
import Stillflow.Plan.ChainPlan
import Stillflow.Plan.LoweredKinds

/-! What a successful compilation has computed, from the path to the finished maps. -/

namespace Stillflow.Plan

open Stillflow.Core Lib Lib.Fallible Lib.Maps List

variable {schema : LogicalSchema} {nodeId : NodeId}

theorem projectColumns_ids {columns seen : List ColumnId} {fields : List LogicalField}
    (h : projectColumns schema.field columns seen = .ok fields) : fields.map (·.id) = columns := by
  induction columns generalizing seen fields with
  | nil =>
    cases h
    rfl
  | cons column columns ih =>
    rw [projectColumns] at h
    obtain ⟨_, _, h⟩ := of_bind h
    obtain ⟨field, hfield, h⟩ := of_bind h
    obtain ⟨rest, hrest, h⟩ := of_bind h
    cases h
    have hid : field.id = column := by
      unfold ColumnResolver.require at hfield
      split at hfield
      · rename_i found hfound
        cases hfield
        exact (findColumn_some hfound).2
      · cases hfield
    rw [map_cons, ih hrest, hid]

theorem projectEffect_ids {next : LogicalSchema} {columns : List ColumnId}
    (h : projectEffect schema columns = .ok next) : next.fields.map (·.id) = columns := by
  unfold projectEffect at h
  obtain ⟨_, _, h⟩ := of_bind h
  obtain ⟨fields, hfields, h⟩ := of_bind h
  obtain ⟨rfl, -⟩ := fromParts_eq_ok.mp (mapError_eq_ok.mp h)
  exact projectColumns_ids hfields

theorem projectSourceSchema_effect {working : LogicalSchema} {projection : Option (List ColumnId)}
    (h : projectSourceSchema schema projection nodeId = .ok working) :
    working.fields.map (·.id) = projection.getD (schema.fields.map (·.id)) ∧
      projectEffect schema (working.fields.map (·.id)) = .ok working := by
  have heffect := mapError_eq_ok.mp h
  refine ⟨projectEffect_ids heffect, ?_⟩
  rw [projectEffect_ids heffect]
  exact heffect

variable {graph : NodeGraph} {path : List NodeId} {configs : Configs}

theorem uniquePath_eq_ok (h : uniquePath graph = .ok path)
    (hne : graph.sourceNodeId ≠ graph.outputNodeId) :
    path.Nodup ∧ path.length = graph.nodes.length ∧
      ∃ inner, path = graph.sourceNodeId :: (inner ++ [graph.outputNodeId]) := by
  unfold uniquePath at h
  obtain ⟨outgoing, _, h⟩ := of_bind h
  obtain ⟨trail, htrail, h⟩ := of_bind h
  obtain ⟨_, hlength, h⟩ := of_bind h
  cases h
  obtain ⟨hleads, hnodup⟩ := (Trail.follow_eq_ok _).mp htrail
  obtain ⟨hhead, hlast⟩ := Trail.leads_ends _ hleads
  refine ⟨hnodup, by rw [length_map, require_eq_ok.mp hlength], ?_⟩
  obtain ⟨rest, hrest⟩ := head?_eq_some_iff.mp hhead
  rw [hrest] at hlast ⊢
  rcases eq_nil_or_concat rest with rfl | ⟨inner, last, rfl⟩
  · exact absurd (Option.some.inj hlast) hne
  · rw [concat_eq_append, ← cons_append, getLast?_concat, Option.some.injEq] at hlast
    exact ⟨inner, by rw [hlast, concat_eq_append]; rfl⟩

theorem getElem?_initialPlanIds (hn : path.Nodup) (h : nodeId ∈ path) :
    (initialPlanIds path)[nodeId]? = some nodeId := by
  have hentries : initialPlanIds path = insertAll ∅ (path.map fun id => (id, id)) := by
    rw [initialPlanIds, insertAll, foldl_map]
  rw [hentries]
  refine getElem?_insertAll_of_mem ?_ (mem_map.mpr ⟨nodeId, h, rfl⟩)
  rw [map_map]
  exact (map_id path).symm ▸ hn

variable {serde : Serde} {toVec : LogicalPlan → Except String (List UInt8)}
  {registry : NodeRegistry} {source : AuthorizedSourceContext} {target : CompileTarget}
  {compiled : CompiledNodeGraph}

/-- The intermediate results of a successful compilation. -/
structure Lowered (serde : Serde) (registry : NodeRegistry) (graph : NodeGraph)
    (source : AuthorizedSourceContext) (compiled : CompiledNodeGraph) (configs : Configs)
    (path : List NodeId) (working : LogicalSchema) (blocks : List (NodeId × List Emission)) :
    Prop where
  validated : graph.validatedConfigs serde registry = .ok configs
  path_eq : uniquePath graph = .ok path
  source_config : ∃ projection,
    configs[graph.sourceNodeId]? = some (.source source.sourceAssetId projection) ∧
      working.fields.map (·.id) = projection.getD (source.schema.fields.map (·.id))
  working_eq : projectEffect source.schema (working.fields.map (·.id)) = .ok working
  lower_eq : lowerPath graph configs source.sourceAssetId path working = .ok blocks
  fresh : AllFresh (initialPlanIds path) blocks
  plan_valid : compiled.plan.validate = .ok ()
  root_eq : compiled.plan.root =
    ((planIdsAfter (initialPlanIds path) blocks)[graph.outputNodeId]?).getD graph.outputNodeId
  state_eq : ∃ previous, finishBlocks ⟨initialPlanIds path, ∅, ∅, working, none⟩ blocks =
    ⟨compiled.nodePlanIds, compiled.plan.nodes, compiled.nodeSchemas, compiled.outputSchema,
      previous⟩

theorem finishPlan_eq_ok {state : CompileState} (h : finishPlan toVec graph state = .ok compiled) :
    compiled.plan.validate = .ok () ∧
      compiled.plan.root = (state.nodePlanIds[graph.outputNodeId]?).getD graph.outputNodeId ∧
      state = ⟨compiled.nodePlanIds, compiled.plan.nodes, compiled.nodeSchemas,
        compiled.outputSchema, state.previous⟩ := by
  unfold finishPlan at h
  obtain ⟨plan, hplan, h⟩ := of_bind h
  obtain ⟨_, _, h⟩ := of_bind h
  obtain ⟨_, _, h⟩ := of_bind h
  cases h
  unfold LogicalPlan.new LogicalPlan.fromParts at hplan
  obtain ⟨_, hvalid, hplan⟩ := of_bind (mapError_eq_ok.mp hplan)
  cases hplan
  exact ⟨hvalid, rfl, rfl⟩

theorem finishBlocks_planIds (state : CompileState) (blocks : List (NodeId × List Emission)) :
    (finishBlocks state blocks).nodePlanIds = planIdsAfter state.nodePlanIds blocks := by
  induction blocks generalizing state with
  | nil => rfl
  | cons block blocks ih =>
    rw [finishBlocks, foldl_cons]
    exact ih _

theorem sourceConfig_eq_ok {bound : Uuid × Option (List ColumnId)}
    (h : sourceConfig graph configs = .ok bound) :
    configs[graph.sourceNodeId]? = some (.source bound.1 bound.2) := by
  unfold sourceConfig at h
  split at h
  · rename_i asset projection hconfig
    cases h
    exact hconfig
  · cases h

/-- What every compilation has computed when it reaches the node loop. -/
structure Staged (serde : Serde) (registry : NodeRegistry) (graph : NodeGraph)
    (source : AuthorizedSourceContext) (target : CompileTarget) (configs : Configs)
    (path : List NodeId) (working : LogicalSchema) : Prop where
  shape : checkShapeWork graph = .ok ()
  schema_valid : source.schema.validate = .ok ()
  validated : graph.validatedConfigs serde registry = .ok configs
  work : checkCompileWork graph configs (some source.schema) = .ok ()
  path_eq : uniquePath graph = .ok path
  target_ok : checkTarget graph configs target = .ok ()
  source_config : ∃ projection,
    configs[graph.sourceNodeId]? = some (.source source.sourceAssetId projection) ∧
      projectSourceSchema source.schema projection graph.sourceNodeId = .ok working

/-- After these stages the result is that of the node loop, the plan and the preview check. -/
theorem Staged.compile_eq (h : Staged serde registry graph source target configs path working) :
    compile serde toVec registry graph source target = (do
      let state ← path.foldlM (compileNode graph configs source.sourceAssetId)
        ⟨initialPlanIds path, ∅, ∅, working, none⟩
      let compiled ← finishPlan toVec graph state
      compiled.checkPreview target
      return compiled) := by
  obtain ⟨projection, hconfig, hworking⟩ := h.source_config
  have hsource : sourceConfig graph configs = .ok (source.sourceAssetId, projection) := by
    rw [sourceConfig, hconfig]
  simp only [compile, lowerGraph, lowerAlong, h.shape, h.schema_valid, h.validated, h.work, h.path_eq,
    hsource, h.target_ok, hworking, Except.mapError, ok_bind, require, if_true]

theorem compile_staged (h : compile serde toVec registry graph source target = .ok compiled) :
    ∃ configs path working, Staged serde registry graph source target configs path working := by
  unfold compile at h
  obtain ⟨_, hshape, h⟩ := of_bind h
  obtain ⟨_, hschema, h⟩ := of_bind h
  obtain ⟨configs, hconfigs, h⟩ := of_bind h
  unfold lowerGraph at h
  obtain ⟨_, hwork, h⟩ := of_bind h
  obtain ⟨path, hpath, h⟩ := of_bind h
  obtain ⟨⟨asset, projection⟩, hsource, h⟩ := of_bind h
  obtain ⟨_, hasset, h⟩ := of_bind h
  obtain ⟨_, htarget, h⟩ := of_bind h
  obtain ⟨working, hworking, -⟩ := of_bind h
  obtain rfl : asset = source.sourceAssetId := require_eq_ok.mp hasset
  exact ⟨configs, path, working, hshape, mapError_eq_ok.mp hschema, mapError_eq_ok.mp hconfigs,
    hwork, hpath, htarget, projection, sourceConfig_eq_ok hsource, hworking⟩

theorem Staged.path_nodup (h : Staged serde registry graph source target configs path working) :
    path.Nodup := by
  obtain ⟨scan, hscan, -⟩ := validatedConfigs_eq_ok h.validated
  exact (uniquePath_eq_ok h.path_eq (scanned_of_scanNodes hscan).basic.endpoints_ne).1

theorem compile_eq_ok (h : compile serde toVec registry graph source target = .ok compiled) :
    ∃ configs path working blocks,
      Lowered serde registry graph source compiled configs path working blocks := by
  obtain ⟨configs, path, working, hstaged⟩ := compile_staged h
  rw [hstaged.compile_eq] at h
  obtain ⟨state, hstate, h⟩ := of_bind h
  obtain ⟨finished, hfinished, h⟩ := of_bind h
  obtain ⟨_, _, h⟩ := of_bind h
  cases h
  have hnodup := hstaged.path_nodup
  obtain ⟨projection, hconfig, hworking⟩ := hstaged.source_config
  obtain ⟨blocks, hblocks, hfresh, rfl⟩ := compileNodes_eq_ok hnodup
    (fun nodeId hmem => getElem?_initialPlanIds hnodup hmem) hstate
  obtain ⟨hvalid, hroot, hfinal⟩ := finishPlan_eq_ok hfinished
  rw [finishBlocks_planIds] at hroot
  exact ⟨configs, path, working, blocks, {
    validated := hstaged.validated
    path_eq := hstaged.path_eq
    source_config := ⟨projection, hconfig, (projectSourceSchema_effect hworking).1⟩
    working_eq := (projectSourceSchema_effect hworking).2
    lower_eq := hblocks
    fresh := hfresh
    plan_valid := hvalid
    root_eq := hroot
    state_eq := ⟨_, hfinal⟩ }⟩

theorem lowerPath_config {sourceAssetId : Uuid} {blocks : List (NodeId × List Emission)}
    (h : lowerPath graph configs sourceAssetId path schema = .ok blocks) :
    ∀ nodeId ∈ path, configs[nodeId]? ≠ none := by
  induction path generalizing schema blocks with
  | nil => simp
  | cons nodeId path ih =>
    rw [lowerPath] at h
    obtain ⟨block, hblock, h⟩ := of_bind h
    obtain ⟨rest, hrest, h⟩ := of_bind h
    refine forall_mem_cons.mpr ⟨fun hnone => ?_, ih hrest⟩
    rw [lowerNode, hnone] at hblock
    cases hblock

theorem nodeSteps_length {config : ValidatedNodeConfig} (h : configs[nodeId]? = some config) :
    (nodeSteps configs nodeId).length = config.stepCount := by
  rw [nodeSteps, h, Option.map_some, Option.getD_some]
  cases config <;> rfl

namespace Lowered

variable {configs : Configs} {working : LogicalSchema} {blocks : List (NodeId × List Emission)}
  (h : Lowered serde registry graph source compiled configs path working blocks)
include h

theorem basic : graph.Basic := by
  obtain ⟨scan, hscan, -⟩ := validatedConfigs_eq_ok h.validated
  exact (scanned_of_scanNodes hscan).basic

theorem path_nodup : path.Nodup :=
  (uniquePath_eq_ok h.path_eq h.basic.endpoints_ne).1

theorem blocks_fst : blocks.map Prod.fst = path :=
  lowerPath_fst h.lower_eq

theorem planIds_init : ∀ block ∈ blocks, (initialPlanIds path)[block.1]? = some block.1 := by
  intro block hblock
  refine getElem?_initialPlanIds h.path_nodup ?_
  rw [← h.blocks_fst]
  exact mem_map.mpr ⟨block, hblock, rfl⟩

theorem path_perm : path.Perm graph.nodeIds := by
  obtain ⟨hnodup, hlength, -⟩ := uniquePath_eq_ok h.path_eq h.basic.endpoints_ne
  obtain ⟨scan, hscan, hconfigs⟩ := validatedConfigs_eq_ok h.validated
  have hsubset : path ⊆ graph.nodeIds := by
    intro nodeId hmem
    by_contra habsent
    refine lowerPath_config h.lower_eq nodeId hmem ?_
    rw [hconfigs]
    exact ((scanned_of_scanNodes hscan).absent nodeId habsent).2
  refine (subperm_of_subset hnodup hsubset).perm_of_length_le ?_
  rw [NodeGraph.nodeIds, length_map, hlength]

variable (hreg : Registered serde registry)
include hreg

theorem steps_pos : ∀ nodeId ∈ path, 0 < (nodeSteps configs nodeId).length := by
  intro nodeId hmem
  obtain ⟨node, hnode, rfl⟩ := mem_map.mp (h.path_perm.mem_iff.mp hmem)
  obtain ⟨_, _, -, hconfig, -, hpos⟩ := config_of_validated hreg h.validated node hnode
  rwa [nodeSteps_length hconfig]

theorem blocks_ne : ∀ block ∈ blocks, block.2 ≠ [] := by
  intro block hblock
  refine ne_nil_of_length_pos ?_
  rw [lowerPath_lengths h.lower_eq block hblock]
  refine h.steps_pos hreg block.1 ?_
  rw [← h.blocks_fst]
  exact mem_map.mpr ⟨block, hblock, rfl⟩

theorem maps_eq : compiled.nodePlanIds = planIdsAfter (initialPlanIds path) blocks ∧
      compiled.plan.nodes = insertAll ∅ (chainEntries none (emissions blocks)) ∧
      compiled.nodeSchemas = insertAll ∅ (blocks.flatMap schemaEntries) ∧
      compiled.outputSchema = schemaAfter working (emissions blocks) := by
  obtain ⟨previous, hstate⟩ := h.state_eq
  rw [finishBlocks_eq (h.blocks_ne hreg)] at hstate
  simp only [CompileState.mk.injEq] at hstate
  exact ⟨hstate.1.symm, hstate.2.1.symm, hstate.2.2.1.symm, hstate.2.2.2.1.symm⟩

/-- The cycle check of the plan leaves no repeated id in the chain. -/
theorem ids_nodup : ((emissions blocks).map Emission.id).Nodup := by
  have hranked := ranked_of_validate h.plan_valid
  rw [(h.maps_eq hreg).2.1] at hranked
  exact nodup_of_ranked hranked

/-- Scan, operators of the inner nodes, materialize; each with the schema it leaves. -/
theorem kinds : ∃ inner projection label,
      path = graph.sourceNodeId :: (inner ++ [graph.outputNodeId]) ∧
      configs[graph.sourceNodeId]? = some (.source source.sourceAssetId projection) ∧
      configs[graph.outputNodeId]? = some (.output label) ∧
      (emissions blocks).map (some ∘ Emission.kind) =
        some (.scan source.sourceAssetId (projection.getD (source.schema.fields.map (·.id))) none) ::
          ((inner.flatMap (nodeSteps configs)).map operatorKind ++ [some (.materialize label)]) ∧
      Effects source.schema (emissions blocks) := by
  obtain ⟨-, -, inner, rfl⟩ := uniquePath_eq_ok h.path_eq h.basic.endpoints_ne
  obtain ⟨label, hlabel⟩ := output_of_validated hreg h.validated
  obtain ⟨projection, hsource, hids⟩ := h.source_config
  have hnodup := h.path_nodup
  rw [nodup_cons, mem_append, not_or] at hnodup
  have hinner : ∀ nodeId ∈ inner,
      nodeId ≠ graph.sourceNodeId ∧ nodeId ≠ graph.outputNodeId := by
    intro nodeId hmem
    refine ⟨fun heq => hnodup.1.1 (heq ▸ hmem), fun heq => ?_⟩
    exact (nodup_append.mp hnodup.2).2.2 nodeId hmem graph.outputNodeId (by simp) heq
  have hlower := h.lower_eq
  rw [lowerPath] at hlower
  obtain ⟨first, hfirst, hlower⟩ := of_bind hlower
  obtain ⟨rest, hrest, hlower⟩ := of_bind hlower
  cases hlower
  obtain rfl := lowerNode_source hsource hfirst
  obtain ⟨middle, last, rfl, hmiddle, hlast⟩ := lowerPath_append hrest
  rw [lowerPath] at hlast
  obtain ⟨final, hfinal, hlast⟩ := of_bind hlast
  cases hlast
  obtain rfl := lowerNode_output h.basic.endpoints_ne.symm hlabel hfinal
  obtain ⟨hkinds, heffects⟩ := lowerPath_transform hinner hmiddle
  refine ⟨inner, projection, label, rfl, hsource, hlabel, ?_, ?_⟩
  · simp only [emissions, flatMap_cons, flatMap_append, flatMap_nil,
      cons_append, nil_append, append_nil, map_cons, map_append,
      map_nil, Function.comp_apply]
    rw [← hkinds, hids]
    rfl
  · rw [emissions, flatMap_cons, flatMap_append, effects_append, effects_append]
    exact ⟨⟨h.working_eq, trivial⟩, heffects, rfl, trivial⟩

end Lowered

def hexValue (c : Char) : Option Nat :=
  if c.isDigit then some (c.toNat - 48) else if c.isLower ∧ c ≤ 'f' then some (c.toNat - 87) else none

/-- The hyphenated and the simple UUID form. -/
def parseUuid (text : String) : Option Uuid := do
  let digits ← (text.toList.filter (· ≠ '-')).mapM hexValue
  guard (digits.length = 32)
  return BitVec.ofNat 128 (digits.foldl (fun value digit => 16 * value + digit) 0)

def parseScalar (value : Value) : Option ScalarValue :=
  match value.get "kind", value.get "value" with
  | some (.string "null"), none => some .null
  | some (.string "utf8"), some (.string text) => some (.utf8 text)
  | _, _ => none

/-- The samples hold no expression, type, cast, text operation or sort key. -/
def sampleSerde : Serde :=
  ⟨parseUuid, fun _ => none, fun _ => none, parseScalar, fun _ => none, fun _ => none, fun _ => none⟩

/-- The production registry with some packages deployed, or alone if they are refused. -/
def deployed (packages : List NodePackage) : NodeRegistry :=
  match (NodeRegistry.new sampleSerde).withPackages packages with
  | .ok registry => registry
  | .error _ => .new sampleSerde

theorem registered_deployed (packages : List NodePackage) :
    Registered sampleSerde (deployed packages) := by
  unfold deployed
  split
  · rename_i registry hregistry
    exact .withPackages .new hregistry
  · exact .new

def sampleSource : AuthorizedSourceContext :=
  ⟨7, ⟨logicalSchemaVersion, [⟨9, "text", .utf8, true, ∅⟩], ∅⟩⟩

def sourceNode (id : NodeId) : NodeConfig :=
  ⟨id, "stillflow.node.source", 1,
    .object [("sourceAssetId", .string (String.ofList (uuidText 7)))], ∅⟩

def outputNode (id : NodeId) : NodeConfig :=
  ⟨id, "stillflow.node.output", 1, .object [("outputLabel", .string "clean")], ∅⟩

/-- A node of a type that is configured by the one text column. -/
def columnNode (typeId : String) (id : NodeId) : NodeConfig :=
  ⟨id, typeId, 1, .object [("column", .string (String.ofList (uuidText 9)))], ∅⟩

def portEdge (source target : NodeId) : NodeEdge := ⟨⟨source, "out"⟩, ⟨target, "in"⟩⟩

def linearGraph (graphId sourceId outputId : Uuid) (inner : List NodeConfig) : NodeGraph where
  version := nodeGraphVersion
  graphId := graphId
  sourceNodeId := sourceId
  outputNodeId := outputId
  nodes := sourceNode sourceId :: (inner ++ [outputNode outputId])
  edges := (List.zip (sourceId :: inner.map (·.id)) (inner.map (·.id) ++ [outputId])).map
    fun ends => portEdge ends.1 ends.2
  metadata := ∅

end Stillflow.Plan
