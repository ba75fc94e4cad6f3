import Stillflow.Plan.CompiledPlan

/-!
The node loop on a path that lowers: it emits the lowered blocks, or stops at the first expansion
that uses an id of the product-to-plan map.
-/

namespace Stillflow.Plan

open Stillflow.Core Lib Lib.Fallible Lib.Maps

variable {graph : NodeGraph} {configs : Configs} {sourceAssetId : Uuid} {nodeId : NodeId}
  {state : CompileState} {es : List Emission}

def collisionError (nodeId : NodeId) : NodeGraphCompileError :=
  .new .invalidConfig (some nodeId) "internal plan node id collides with a product node id"

def isCompositeNode (configs : Configs) (nodeId : NodeId) : Bool :=
  (configs[nodeId]?.map ValidatedNodeConfig.isComposite).getD false

def isStale (configs : Configs) (planIds : Std.ExtTreeMap NodeId PlanNodeId)
    (block : NodeId × List Emission) : Bool :=
  isCompositeNode configs block.1 && block.2.any fun e => decide (e.id ∈ values planIds)

/-- The first stale expansion, each against the map the blocks before it left. -/
def firstStale (configs : Configs) (planIds : Std.ExtTreeMap NodeId PlanNodeId) :
    List (NodeId × List Emission) → Option NodeId
  | [] => none
  | block :: blocks =>
    if isStale configs planIds block then some block.1
    else firstStale configs (planIds.insert block.1 ((lastId none block.2).getD block.1)) blocks

theorem compileStep_used {step : ValidatedNodeConfig × Nat}
    (h : internalPlanNodeId nodeId (UInt16.ofNat step.2) ∈ values state.nodePlanIds) :
    compileStep nodeId nodeId state step = .error (collisionError nodeId) := by
  have hstop : require (internalPlanNodeId nodeId (UInt16.ofNat step.2) ∉ values state.nodePlanIds)
      (collisionError nodeId) = .error (collisionError nodeId) :=
    require_eq_error.mpr ⟨not_not.mpr h, rfl⟩
  unfold compileStep
  exact congrArg (· >>= _) hstop

theorem compileStep_free {step : ValidatedNodeConfig × Nat} {kind : PlanNodeKind}
    {next : LogicalSchema}
    (h : internalPlanNodeId nodeId (UInt16.ofNat step.2) ∉ values state.nodePlanIds)
    (htransform : compileTransform nodeId step.1 state.workingSchema = .ok (kind, next)) :
    compileStep nodeId nodeId state step =
      .ok (state.emit (internalPlanNodeId nodeId (UInt16.ofNat step.2)) kind next) := by
  unfold compileStep
  exact bind_eq_ok.mpr ⟨(), require_eq_ok.mpr h, bind_eq_ok.mpr ⟨_, htransform, rfl⟩⟩

theorem compileSteps_eq {steps : List (ValidatedNodeConfig × Nat)}
    (h : lowerSteps nodeId steps state.workingSchema = .ok es) :
    steps.foldlM (compileStep nodeId nodeId) state =
      if es.any fun e => decide (e.id ∈ values state.nodePlanIds) then
        .error (collisionError nodeId)
      else .ok (state.emitAll es) := by
  induction steps generalizing state es with
  | nil =>
    cases h
    rfl
  | cons step rest ih =>
    rw [lowerSteps] at h
    obtain ⟨⟨kind, next⟩, htransform, h⟩ := of_bind h
    obtain ⟨es, hes, h⟩ := of_bind h
    cases h
    rw [List.foldlM_cons, List.any_cons]
    by_cases hused : internalPlanNodeId nodeId (UInt16.ofNat step.2) ∈ values state.nodePlanIds
    · rw [compileStep_used hused, decide_eq_true hused, Bool.true_or, if_pos rfl]
      rfl
    · rw [compileStep_free hused htransform, ok_bind, decide_eq_false hused, Bool.false_or,
        emitAll_cons]
      exact @ih (state.emit (internalPlanNodeId nodeId (UInt16.ofNat step.2)) kind next) es hes

theorem isCompositeNode_eq {config : ValidatedNodeConfig} (h : configs[nodeId]? = some config) :
    isCompositeNode configs nodeId = config.isComposite := by
  rw [isCompositeNode, h]
  rfl

theorem compileNode_cases (hid : state.nodePlanIds[nodeId]? = some nodeId)
    (h : lowerNode graph configs sourceAssetId nodeId state.workingSchema = .ok es) :
    if isStale configs state.nodePlanIds (nodeId, es) then
      compileNode graph configs sourceAssetId state nodeId = .error (collisionError nodeId)
    else ∃ state', compileNode graph configs sourceAssetId state nodeId = .ok state' := by
  unfold lowerNode at h
  unfold compileNode isStale
  rw [hid, Option.getD_some]
  cases hconfig : configs[nodeId]? with
  | none =>
    rw [hconfig] at h
    cases h
  | some config =>
    rw [hconfig] at h
    rw [isCompositeNode_eq hconfig]
    cases config with
    | composite steps =>
      dsimp only at h ⊢
      rw [ValidatedNodeConfig.isComposite, Bool.true_and, compileComposite, compileSteps_eq h]
      split
      · rfl
      · exact ⟨_, rfl⟩
    | _ =>
      dsimp only at h ⊢
      obtain ⟨lowered, hatomic, -⟩ := of_bind h
      rw [hatomic]
      exact ⟨_, rfl⟩

theorem compileNode_eq (hid : state.nodePlanIds[nodeId]? = some nodeId)
    (h : lowerNode graph configs sourceAssetId nodeId state.workingSchema = .ok es) :
    compileNode graph configs sourceAssetId state nodeId =
      if isStale configs state.nodePlanIds (nodeId, es) then .error (collisionError nodeId)
      else .ok (state.finishBlock nodeId es) := by
  have hcases := compileNode_cases hid h
  split_ifs at hcases ⊢
  · exact hcases
  · obtain ⟨state', hstate⟩ := hcases
    obtain ⟨es', hes, -, rfl⟩ := compileNode_eq_ok hid hstate
    cases h.symm.trans hes
    exact hstate

theorem compileNodes_eq {path : List NodeId} {blocks : List (NodeId × List Emission)}
    (hn : path.Nodup) (hids : ∀ nodeId ∈ path, state.nodePlanIds[nodeId]? = some nodeId)
    (h : lowerPath graph configs sourceAssetId path state.workingSchema = .ok blocks) :
    path.foldlM (compileNode graph configs sourceAssetId) state =
      match firstStale configs state.nodePlanIds blocks with
      | none => .ok (finishBlocks state blocks)
      | some nodeId => .error (collisionError nodeId) := by
  induction path generalizing state blocks with
  | nil =>
    cases h
    rfl
  | cons nodeId rest ih =>
    rw [lowerPath] at h
    obtain ⟨es, hes, h⟩ := of_bind h
    obtain ⟨others, hothers, h⟩ := of_bind h
    cases h
    rw [List.nodup_cons] at hn
    rw [List.foldlM_cons, compileNode_eq (hids nodeId (by simp)) hes, firstStale]
    cases hstale : isStale configs state.nodePlanIds (nodeId, es) with
    | true => rfl
    | false =>
      refine @ih (state.finishBlock nodeId es) others hn.2 (fun other hother => ?_) hothers
      have hne : other ≠ nodeId := fun heq => hn.1 (heq ▸ hother)
      rw [CompileState.finishBlock, getElem?_insert_ne hne]
      exact hids other (List.mem_cons_of_mem _ hother)

variable {serde : Serde} {toVec : LogicalPlan → Except String (List UInt8)}
  {registry : NodeRegistry} {source : AuthorizedSourceContext} {target : CompileTarget}
  {compiled : CompiledNodeGraph} {path : List NodeId} {working : LogicalSchema}

/-- A staged graph that lowers compiles to the plan of its blocks unless an expansion is stale. -/
theorem Staged.compile_lowered {blocks : List (NodeId × List Emission)}
    (h : Staged serde registry graph source target configs path working)
    (hblocks : lowerPath graph configs source.sourceAssetId path working = .ok blocks) :
    compile serde toVec registry graph source target =
      match firstStale configs (initialPlanIds path) blocks with
      | some nodeId => .error (collisionError nodeId)
      | none => (do
        let compiled ← finishPlan toVec graph
          (finishBlocks ⟨initialPlanIds path, ∅, ∅, working, none⟩ blocks)
        compiled.checkPreview target
        return compiled) := by
  have hids : ∀ nodeId ∈ path, (initialPlanIds path)[nodeId]? = some nodeId :=
    fun _ hmem => getElem?_initialPlanIds h.path_nodup hmem
  have hloop := @compileNodes_eq graph configs source.sourceAssetId
    ⟨initialPlanIds path, ∅, ∅, working, none⟩ path blocks h.path_nodup hids hblocks
  rw [h.compile_eq, hloop]
  cases firstStale configs (initialPlanIds path) blocks <;> rfl

end Stillflow.Plan
