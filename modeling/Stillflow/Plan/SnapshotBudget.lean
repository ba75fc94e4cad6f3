import Stillflow.Plan.SnapshotWidths

/-! The snapshot budget. -/

namespace Stillflow.Plan

open Stillflow.Core Lib Lib.Fallible Lib.Maps List

variable {serde : Serde} {toVec : LogicalPlan → Except String (List UInt8)}
  {registry : NodeRegistry} {graph : NodeGraph} {source : AuthorizedSourceContext}
  {target : CompileTarget} {compiled : CompiledNodeGraph} {configs : Configs} {path : List NodeId}
  {working schema : LogicalSchema} {blocks : List (NodeId × List Emission)} {width estimate : Nat}

theorem compile_stages (h : compile serde toVec registry graph source target = .ok compiled) :
    ∃ configs path working blocks,
      Staged serde registry graph source target configs path working ∧
      Lowered serde registry graph source compiled configs path working blocks := by
  obtain ⟨configs, path, working, hstaged⟩ := compile_staged h
  obtain ⟨configs', path', working', blocks, hlow⟩ := compile_eq_ok h
  cases hstaged.validated.symm.trans hlow.validated
  cases hstaged.path_eq.symm.trans hlow.path_eq
  obtain ⟨projection, hconfig, hproject⟩ := hstaged.source_config
  obtain ⟨projection', hconfig', hids⟩ := hlow.source_config
  cases hconfig.symm.trans hconfig'
  obtain ⟨hstagedIds, heffect⟩ := projectSourceSchema_effect hproject
  have heffect' := hlow.working_eq
  rw [hids, ← hstagedIds, heffect] at heffect'
  cases heffect'
  exact ⟨configs, path, working, blocks, hstaged, hlow⟩

theorem Staged.not_caught (hreg : Registered serde registry)
    (hstaged : Staged serde registry graph source target configs path working)
    (hblocks : lowerPath graph configs source.sourceAssetId path working = .ok blocks)
    (h : compile serde toVec registry graph source target = .ok compiled) :
    ¬Caught configs path := by
  rw [hstaged.compile_lowered hblocks] at h
  cases hstale : firstStale configs (initialPlanIds path) blocks with
  | some nodeId =>
    rw [hstale] at h
    cases h
  | none =>
    have hpath := lowerPath_fst hblocks
    rw [← hpath] at hstale ⊢
    exact (hstaged.emitted hreg hblocks).not_caught hstale

theorem fieldTotal_of_perm {nodeSchemas : Std.ExtTreeMap NodeId LogicalSchema}
    {entries : List (NodeId × LogicalSchema)} (h : nodeSchemas.toList.Perm entries) :
    fieldTotal nodeSchemas = (entryWidths entries).sum := by
  unfold fieldTotal entryWidths values
  rw [map_map]
  exact (h.map _).sum_eq

theorem fieldTotal_eq (hreg : Registered serde registry)
    (h : compile serde toVec registry graph source target = .ok compiled)
    (hstaged : Staged serde registry graph source target configs path working)
    (hlow : Lowered serde registry graph source compiled configs path working blocks) :
    fieldTotal compiled.nodeSchemas = (pathWidths configs working.fields.length path).sum := by
  have hemitted := hstaged.emitted hreg hlow.lower_eq
  have hfree := hstaged.not_caught hreg hlow.lower_eq h
  rw [← hlow.blocks_fst] at hfree
  have hnodup := hemitted.snapshots_nodup hfree (hlow.ids_nodup hreg)
  have hends : Endpoints graph configs := by
    obtain ⟨projection, hsource, -⟩ := hlow.source_config
    exact ⟨⟨_, projection, hsource⟩, output_of_validated hreg hlow.validated⟩
  have hwidth : HasWidth working.fields.length working := ⟨projectEffect_valid hlow.working_eq, rfl⟩
  rw [← lowerPath_widths hends hwidth hlow.lower_eq (hlow.blocks_ne hreg)]
  refine fieldTotal_of_perm ?_
  rw [(hlow.maps_eq hreg).2.2.1,
    insertAll_eq_of_mem_iff hnodup fun _ => mem_snapshots hemitted.ids]
  exact toList_insertAll_perm hnodup

theorem working_width (hstaged : Staged serde registry graph source target configs path working) :
    working.fields.length = sourceWidth graph configs source.schema := by
  obtain ⟨projection, hconfig, hproject⟩ := hstaged.source_config
  have hids := congrArg List.length (projectSourceSchema_effect hproject).1
  unfold sourceWidth
  rw [hconfig]
  cases projection with
  | none => simpa using hids
  | some columns => simpa using hids

theorem checkedMul_eq_ok {ε : Type} {error : ε} {a b c : Nat} (h : checkedMul error a b = .ok c) :
    c = a * b ∧ a * b ≤ usizeMax := by
  unfold checkedMul at h
  split_ifs at h with hle
  cases h
  exact ⟨rfl, hle⟩

theorem estimate_of_work (h : checkCompileWork graph configs (some schema) = .ok ()) :
    ∃ estimate, estimateSchemaSnapshotBytes graph configs schema = .ok estimate ∧
      estimate ≤ maxSchemaSnapshotEstimateBytes := by
  simp only [checkCompileWork, bind_eq_ok, exists_unit_iff] at h
  obtain ⟨_, -, _, -, _, -, _, -, hsnapshots, -⟩ := h
  unfold checkSnapshots at hsnapshots
  obtain ⟨estimate, hestimate, hle⟩ := of_bind hsnapshots
  exact ⟨estimate, hestimate, require_eq_ok.mp hle⟩

def isDerive : ValidatedNodeConfig → Bool
  | .deriveColumn _ _ _ _ _ => true
  | _ => false

def selectedWidth : ValidatedNodeConfig → Nat
  | .select columns => columns.length
  | _ => 0

/-- The width charged for every node: the widest of the source and the selections, and one more for
each derivation. -/
def chargedWidth (graph : NodeGraph) (configs : Configs) (schema : LogicalSchema) : Nat :=
  ((values configs).map selectedWidth).foldl max (sourceWidth graph configs schema) +
    (values configs).countP isDerive

theorem widthNode_fold (state : Nat × Nat) (list : List ValidatedNodeConfig) :
    list.foldl widthNode state =
      ((list.map selectedWidth).foldl max state.1, state.2 + list.countP isDerive) := by
  induction list generalizing state with
  | nil => rfl
  | cons config list ih =>
    rw [foldl_cons, ih, map_cons, foldl_cons, countP_cons]
    cases config with
    | select columns => rfl
    | deriveColumn =>
      simp only [widthNode, selectedWidth, isDerive, if_true, Nat.max_zero, Prod.mk.injEq, true_and]
      omega
    | _ => simp [widthNode, selectedWidth, isDerive]

theorem le_foldl_max (widths : List Nat) (start : Nat) :
    start ≤ widths.foldl max start ∧ ∀ width ∈ widths, width ≤ widths.foldl max start := by
  induction widths generalizing start with
  | nil => simp
  | cons width widths ih =>
    obtain ⟨hstart, hwidths⟩ := ih (max start width)
    rw [foldl_cons, forall_mem_cons]
    exact ⟨by omega, by omega, hwidths⟩

theorem estimate_eq (hnodes : 2 ≤ graph.nodes.length)
    (h : estimateSchemaSnapshotBytes graph configs schema = .ok estimate) :
    estimate / schemaSnapshotFieldCostBytes =
      chargedWidth graph configs schema * graph.nodes.length := by
  unfold estimateSchemaSnapshotBytes at h
  rw [widthNode_fold, Nat.zero_add] at h
  obtain ⟨instances, hinstances, h⟩ := of_bind h
  obtain ⟨rfl, hle⟩ := checkedMul_eq_ok hinstances
  obtain ⟨rfl, -⟩ := checkedMul_eq_ok h
  rw [Nat.mul_div_cancel _ (by decide : 0 < schemaSnapshotFieldCostBytes)]
  change min (chargedWidth graph configs schema) usizeMax * _ ≤ _ at hle
  change min (chargedWidth graph configs schema) usizeMax * _ = _
  -- two nodes are charged, so the saturating sum has not saturated
  have hpos : 0 < usizeMax := by decide
  have hdouble := (Nat.mul_le_mul_left _ hnodes).trans hle
  rw [Nat.min_eq_left (by omega)]

/-- Along single-step nodes the width exceeds a bound of the selections only by derivations. -/
theorem pathWidths_le {maxWidth derived : Nat} (hwidth : width ≤ maxWidth + derived)
    (hatomic : ∀ nodeId ∈ path, isCompositeNode configs nodeId = false ∧
      ∃ config, nodeSteps configs nodeId = [config] ∧
        ∀ columns, config = .select columns → columns.length ≤ maxWidth) :
    (pathWidths configs width path).length = path.length ∧
      ∀ w ∈ pathWidths configs width path,
        w ≤ maxWidth + derived + (path.flatMap (nodeSteps configs)).countP isDerive := by
  induction path generalizing width derived with
  | nil => simp [pathWidths]
  | cons nodeId path ih =>
    rw [forall_mem_cons] at hatomic
    obtain ⟨⟨hsingle, config, hsteps, hselect⟩, hrest⟩ := hatomic
    have hafter : widthAfter width config ≤
        maxWidth + (derived + if isDerive config = true then 1 else 0) := by
      cases config with
      | select columns => exact (hselect columns rfl).trans (Nat.le_add_right _ _)
      | deriveColumn =>
        simp only [widthAfter, isDerive, if_true]
        omega
      | dropColumn => exact (Nat.sub_le _ _).trans hwidth
      | _ => exact hwidth
    obtain ⟨hlength, hbound⟩ := ih hafter hrest
    have hnode : pathWidths configs width (nodeId :: path) =
        widthAfter width config :: pathWidths configs (widthAfter width config) path := by
      rw [pathWidths, nodeWidths, hsingle, hsteps]
      rfl
    rw [hnode, flatMap_cons, hsteps, singleton_append, countP_cons]
    refine ⟨congrArg (· + 1) hlength, forall_mem_cons.mpr ⟨by omega, fun w hw => ?_⟩⟩
    have := hbound w hw
    omega

theorem configs_subperm (hn : path.Nodup) :
    (path.filterMap fun nodeId => configs[nodeId]?).Subperm (values configs) := by
  have hentries : (path.filterMap fun nodeId => configs[nodeId]?.map fun config =>
      (nodeId, config)).Subperm configs.toList := by
    refine subperm_of_subset ?_ ?_
    · refine hn.filterMap fun a b entry ha hb => ?_
      obtain ⟨_, -, rfl⟩ := Option.map_eq_some_iff.mp ha
      obtain ⟨_, -, hb⟩ := Option.map_eq_some_iff.mp hb
      exact (congrArg Prod.fst hb).symm
    · intro entry hentry
      obtain ⟨nodeId, -, hentry⟩ := mem_filterMap.mp hentry
      obtain ⟨config, hconfig, rfl⟩ := Option.map_eq_some_iff.mp hentry
      exact Std.ExtTreeMap.mem_toList_iff_getElem?_eq_some.mpr hconfig
  obtain ⟨entries, hperm, hsublist⟩ := hentries
  refine ⟨entries.map Prod.snd, ?_, hsublist.map Prod.snd⟩
  have hvalues := hperm.map Prod.snd
  rw [map_filterMap] at hvalues
  simpa [Option.map_map, Function.comp_def] using hvalues

theorem nodeSteps_atomic {nodeId : NodeId} {config : ValidatedNodeConfig}
    (hconfig : configs[nodeId]? = some config) (hatomic : isCompositeNode configs nodeId = false) :
    nodeSteps configs nodeId = [config] := by
  rw [isCompositeNode_eq hconfig] at hatomic
  rw [nodeSteps, hconfig]
  cases config with
  | composite => cases hatomic
  | _ => rfl

/-- Without expansions the estimate is conservative. -/
theorem atomic_within_estimate (hn : path.Nodup) (hlength : path.length = graph.nodes.length)
    (hconfigs : ∀ nodeId ∈ path, configs[nodeId]? ≠ none)
    (hatomic : ∀ nodeId ∈ path, isCompositeNode configs nodeId = false) :
    (pathWidths configs (sourceWidth graph configs schema) path).sum ≤
      chargedWidth graph configs schema * graph.nodes.length := by
  obtain ⟨hstart, hselect⟩ := le_foldl_max ((values configs).map selectedWidth)
    (sourceWidth graph configs schema)
  have hsteps : ∀ nodeId ∈ path, ∃ config, configs[nodeId]? = some config ∧
      nodeSteps configs nodeId = [config] := by
    intro nodeId hmem
    obtain ⟨config, hconfig⟩ := Option.ne_none_iff_exists'.mp (hconfigs nodeId hmem)
    exact ⟨config, hconfig, nodeSteps_atomic hconfig (hatomic nodeId hmem)⟩
  obtain ⟨hcount, hbound⟩ := @pathWidths_le configs path _ _ 0 hstart (by
    intro nodeId hmem
    obtain ⟨config, hconfig, hsingle⟩ := hsteps nodeId hmem
    refine ⟨hatomic nodeId hmem, config, hsingle, ?_⟩
    rintro columns rfl
    exact hselect _ (mem_map.mpr ⟨_, mem_values nodeId hconfig, rfl⟩))
  have hderives : (path.flatMap (nodeSteps configs)).countP isDerive ≤
      (values configs).countP isDerive := by
    have hflat : path.flatMap (nodeSteps configs) =
        path.filterMap fun nodeId => configs[nodeId]? := by
      rw [filterMap_eq_flatMap_toList]
      refine flatMap_congr fun nodeId hmem => ?_
      obtain ⟨config, hconfig, hsingle⟩ := hsteps nodeId hmem
      rw [hsingle, hconfig]
      rfl
    rw [hflat]
    exact (configs_subperm hn).countP_le _
  rw [Nat.mul_comm, ← hlength, ← hcount]
  refine sum_le_card_nsmul _ _ fun w hw => ?_
  have := hbound w hw
  unfold chargedWidth
  omega

/-- The snapshots of a compiled graph stay within the estimate, and so within the budget, exactly
when the widths of the expanded graph sum to at most the charged width times the number of its
unexpanded nodes; without expansions they always do. -/
theorem snapshots_within_estimate (hreg : Registered serde registry)
    (h : compile serde toVec registry graph source target = .ok compiled) :
    ∃ configs path estimate, graph.validatedConfigs serde registry = .ok configs ∧
      uniquePath graph = .ok path ∧
      estimateSchemaSnapshotBytes graph configs source.schema = .ok estimate ∧
      ((fieldTotal compiled.nodeSchemas ≤ estimate / schemaSnapshotFieldCostBytes ∧
        fieldTotal compiled.nodeSchemas ≤
          maxSchemaSnapshotEstimateBytes / schemaSnapshotFieldCostBytes) ↔
        (pathWidths configs (sourceWidth graph configs source.schema) path).sum ≤
          chargedWidth graph configs source.schema * graph.nodes.length) ∧
      ((∀ nodeId ∈ path, isCompositeNode configs nodeId = false) →
        (pathWidths configs (sourceWidth graph configs source.schema) path).sum ≤
          chargedWidth graph configs source.schema * graph.nodes.length) := by
  obtain ⟨configs, path, working, blocks, hstaged, hlow⟩ := compile_stages h
  obtain ⟨estimate, hestimate, hle⟩ := estimate_of_work hstaged.work
  obtain ⟨hnodup, hlength, inner, hpath⟩ := uniquePath_eq_ok hlow.path_eq hlow.basic.endpoints_ne
  have hnodes : 2 ≤ graph.nodes.length := by
    rw [← hlength, hpath]
    simp
  refine ⟨configs, path, estimate, hlow.validated, hlow.path_eq, hestimate, ?_, fun hatomic =>
    atomic_within_estimate hnodup hlength (lowerPath_config hlow.lower_eq) hatomic⟩
  rw [fieldTotal_eq hreg h hstaged hlow, working_width hstaged, ← estimate_eq hnodes hestimate,
    and_iff_left_iff_imp]
  intro hwithin
  exact hwithin.trans (Nat.div_le_div_right hle)

def oneNodeGraph (typeId : String) : NodeGraph := linearGraph 1 2 3 [columnNode typeId 0x40000]

/-- An expansion of two steps: five snapshots of one field each, three of which are charged. -/
theorem expansion_exceeds_estimate : ∃ compiled configs,
    compile sampleSerde (fun _ => .ok []) (deployed [trimCleanPackage])
      (oneNodeGraph "stillflow.composite.trim-clean") sampleSource .execution = .ok compiled ∧
    (oneNodeGraph "stillflow.composite.trim-clean").validatedConfigs sampleSerde
      (deployed [trimCleanPackage]) = .ok configs ∧
    estimateSchemaSnapshotBytes (oneNodeGraph "stillflow.composite.trim-clean") configs
      sampleSource.schema = .ok (3 * schemaSnapshotFieldCostBytes) ∧
    fieldTotal compiled.nodeSchemas = 5 := by
  have hrun : (compile sampleSerde (fun _ => .ok []) (deployed [trimCleanPackage])
      (oneNodeGraph "stillflow.composite.trim-clean") sampleSource .execution).toOption.map
      (fun compiled => fieldTotal compiled.nodeSchemas) = some 5 := by decide +kernel
  have hcosts : ((oneNodeGraph "stillflow.composite.trim-clean").validatedConfigs sampleSerde
      (deployed [trimCleanPackage])).toOption.map (fun configs => estimateSchemaSnapshotBytes
        (oneNodeGraph "stillflow.composite.trim-clean") configs sampleSource.schema) =
      some (.ok (3 * schemaSnapshotFieldCostBytes)) := by decide +kernel
  obtain ⟨compiled, hcompiled, hfields⟩ := exists_of_map_toOption hrun
  obtain ⟨configs, hconfigs, hestimate⟩ := exists_of_map_toOption hcosts
  exact ⟨compiled, configs, hcompiled, hconfigs, hestimate, hfields⟩

/-- An atomic node in its place. -/
theorem trim_within_estimate : ∃ compiled configs estimate,
    compile sampleSerde (fun _ => .ok []) (deployed []) (oneNodeGraph "stillflow.node.trim")
      sampleSource .execution = .ok compiled ∧
    (oneNodeGraph "stillflow.node.trim").validatedConfigs sampleSerde (deployed []) =
      .ok configs ∧
    estimateSchemaSnapshotBytes (oneNodeGraph "stillflow.node.trim") configs sampleSource.schema =
      .ok estimate ∧
    fieldTotal compiled.nodeSchemas ≤ estimate / schemaSnapshotFieldCostBytes ∧
    fieldTotal compiled.nodeSchemas ≤
      maxSchemaSnapshotEstimateBytes / schemaSnapshotFieldCostBytes := by
  have hok : (compile sampleSerde (fun _ => .ok []) (deployed [])
      (oneNodeGraph "stillflow.node.trim") sampleSource .execution).isOk = true := by
    decide +kernel
  have hchain : uniquePath (oneNodeGraph "stillflow.node.trim") = .ok [2, 0x40000, 3] := by
    decide +kernel
  have hatomic : (match (oneNodeGraph "stillflow.node.trim").validatedConfigs sampleSerde
      (deployed []) with
    | .ok configs => [2, 0x40000, 3].all fun nodeId => !isCompositeNode configs nodeId
    | .error _ => false) = true := by decide +kernel
  obtain ⟨compiled, hcompiled⟩ := exists_of_isOk hok
  obtain ⟨configs, path, estimate, hconfigs, hpath, hestimate, hiff, hwithin⟩ :=
    snapshots_within_estimate (registered_deployed _) hcompiled
  cases hchain.symm.trans hpath
  rw [hconfigs, all_eq_true] at hatomic
  refine ⟨compiled, configs, estimate, hcompiled, hconfigs, hestimate, hiff.mpr (hwithin ?_)⟩
  intro nodeId hmem
  simpa using hatomic nodeId hmem

end Stillflow.Plan
