import Stillflow.Plan.Lowering

/-!
What a lowered path should contain, stated without the compiler's loop: the operator each config
stands for, and the schema each operator leaves.
-/

namespace Stillflow.Plan

open Stillflow.Core Lib Lib.Fallible Lib.Maps List

variable {es : List Emission} {nodeId : NodeId} {path : List NodeId} {schema : LogicalSchema}
  {blocks : List (NodeId × List Emission)}

/-- The plan operator of a transform config. -/
def operatorKind : ValidatedNodeConfig → Option PlanNodeKind
  | .select columns => some (.project columns)
  | .filter predicate => some (.filter predicate)
  | .sort keys => some (.sort (keys.map planSortKey))
  | config => (productRule config).map fun rule => .applyRules [rule]

/-- The configs a node is lowered from: its expansion steps, or its own config. -/
def configSteps : ValidatedNodeConfig → List ValidatedNodeConfig
  | .composite steps => steps
  | config => [config]

def nodeSteps (configs : Configs) (nodeId : NodeId) : List ValidatedNodeConfig :=
  (configs[nodeId]?.map configSteps).getD []

/-- The schema after one plan node. -/
def schemaEffect (schema : LogicalSchema) : PlanNodeKind → Except SemanticError LogicalSchema
  | .scan _ projection _ => projectEffect schema projection
  | .project columns => projectEffect schema columns
  | .applyRules rules => rules.foldlM ruleEffect schema
  | .filter _ | .sort _ | .join _ _ | .union | .materialize _ => .ok schema

/-- Every emission carries the schema its kind leaves. -/
def Effects : LogicalSchema → List Emission → Prop
  | _, [] => True
  | schema, e :: rest => schemaEffect schema e.kind = .ok e.schema ∧ Effects e.schema rest

theorem effects_append {es es' : List Emission} :
    Effects schema (es ++ es') ↔ Effects schema es ∧ Effects (schemaAfter schema es) es' := by
  induction es generalizing schema with
  | nil => simp [Effects, schemaAfter]
  | cons e es ih => rw [cons_append, Effects, Effects, ih, schemaAfter_cons, and_assoc]

theorem foldlM_schemaEffect (h : Effects schema es) :
    (es.map Emission.kind).foldlM schemaEffect schema = .ok (schemaAfter schema es) := by
  induction es generalizing schema with
  | nil => rfl
  | cons e es ih =>
    rw [map_cons, foldlM_cons, h.1, ok_bind, ih h.2, schemaAfter_cons]

theorem mapM_sortKey {keys : List NodeSortKey} {planKeys : List SortKey}
    (h : keys.mapM (sortKey nodeId schema) = .ok planKeys) : planKeys = keys.map planSortKey := by
  induction keys generalizing planKeys with
  | nil =>
    cases h
    rfl
  | cons key keys ih =>
    rw [mapM_cons] at h
    obtain ⟨planKey, hkey, h⟩ := of_bind h
    obtain ⟨rest, hrest, h⟩ := of_bind h
    cases h
    unfold sortKey at hkey
    split at hkey
    · cases hkey
    · obtain ⟨_, _, hkey⟩ := of_bind hkey
      obtain ⟨_, _, hkey⟩ := of_bind hkey
      cases hkey
      rw [ih hrest, map_cons]

theorem operatorKind_of_productRule {config : ValidatedNodeConfig} {rule : Rule}
    (h : productRule config = some rule) : operatorKind config = some (.applyRules [rule]) := by
  cases config with
  | select | filter | sort => cases h
  | _ => rw [operatorKind, h, Option.map_some] <;> simp

/-- A lowered transform is the operator of its config and leaves that operator's schema. -/
theorem compileTransform_eq_ok {config : ValidatedNodeConfig} {schema next : LogicalSchema}
    {kind : PlanNodeKind} (h : compileTransform nodeId config schema = .ok (kind, next)) :
    operatorKind config = some kind ∧ schemaEffect schema kind = .ok next := by
  unfold compileTransform at h
  split at h
  · rename_i rule hrule
    obtain ⟨effect, heffect, h⟩ := of_bind h
    cases h
    refine ⟨operatorKind_of_productRule hrule, ?_⟩
    rw [schemaEffect, foldlM_cons, mapError_eq_ok.mp heffect]
    rfl
  · unfold compileOperator at h
    split at h
    · obtain ⟨effect, heffect, h⟩ := of_bind h
      cases h
      exact ⟨rfl, mapError_eq_ok.mp heffect⟩
    · obtain ⟨_, _, h⟩ := of_bind h
      obtain ⟨_, _, h⟩ := of_bind h
      cases h
      exact ⟨rfl, rfl⟩
    · obtain ⟨planKeys, hkeys, h⟩ := of_bind h
      cases h
      exact ⟨by rw [operatorKind, mapM_sortKey hkeys], rfl⟩
    · cases h
    · cases h

theorem lowerSteps_eq_ok {steps : List (ValidatedNodeConfig × Nat)}
    (h : lowerSteps nodeId steps schema = .ok es) :
    es.map (some ∘ Emission.kind) = steps.map (operatorKind ∘ Prod.fst) ∧ Effects schema es := by
  induction steps generalizing schema es with
  | nil =>
    cases h
    exact ⟨rfl, trivial⟩
  | cons step steps ih =>
    rw [lowerSteps] at h
    obtain ⟨⟨kind, next⟩, htransform, h⟩ := of_bind h
    obtain ⟨rest, hrest, h⟩ := of_bind h
    cases h
    obtain ⟨hkind, heffect⟩ := compileTransform_eq_ok htransform
    obtain ⟨hkinds, heffects⟩ := ih hrest
    refine ⟨?_, heffect, heffects⟩
    rw [map_cons, hkinds, map_cons, Function.comp_apply, Function.comp_apply, hkind]

variable {graph : NodeGraph} {configs : Configs} {sourceAssetId : Uuid}

theorem lowerNode_length (h : lowerNode graph configs sourceAssetId nodeId schema = .ok es) :
    es.length = (nodeSteps configs nodeId).length := by
  unfold lowerNode at h
  unfold nodeSteps
  cases hconfig : configs[nodeId]? with
  | none =>
    rw [hconfig] at h
    cases h
  | some config =>
    rw [hconfig] at h
    cases config with
    | composite steps => exact (lowerSteps_ids h).1
    | _ =>
      obtain ⟨⟨kind, next⟩, -, h⟩ := of_bind h
      cases h
      rfl

theorem lowerNode_transform (hsource : nodeId ≠ graph.sourceNodeId)
    (houtput : nodeId ≠ graph.outputNodeId)
    (h : lowerNode graph configs sourceAssetId nodeId schema = .ok es) :
    es.map (some ∘ Emission.kind) = (nodeSteps configs nodeId).map operatorKind ∧
      Effects schema es := by
  unfold lowerNode at h
  unfold nodeSteps
  cases hconfig : configs[nodeId]? with
  | none =>
    rw [hconfig] at h
    cases h
  | some config =>
    rw [hconfig] at h
    cases config with
    | composite steps =>
      obtain ⟨hkinds, heffects⟩ := lowerSteps_eq_ok h
      refine ⟨?_, heffects⟩
      rw [hkinds, ← map_map, zipIdx_map_fst]
      rfl
    | _ =>
      obtain ⟨⟨kind, next⟩, hatomic, h⟩ := of_bind h
      cases h
      unfold compileAtomic at hatomic
      rw [if_neg hsource, if_neg houtput] at hatomic
      obtain ⟨hkind, heffect⟩ := compileTransform_eq_ok hatomic
      refine ⟨?_, heffect, trivial⟩
      simp only [map_cons, map_nil, Function.comp_apply, Option.map_some,
        Option.getD_some, configSteps, hkind]

theorem lowerNode_source {asset : Uuid} {projection : Option (List ColumnId)}
    (hconfig : configs[graph.sourceNodeId]? = some (.source asset projection))
    (h : lowerNode graph configs sourceAssetId graph.sourceNodeId schema = .ok es) :
    es = [⟨graph.sourceNodeId, .scan sourceAssetId (schema.fields.map (·.id)) none, schema⟩] := by
  unfold lowerNode at h
  rw [hconfig] at h
  obtain ⟨⟨kind, next⟩, hatomic, h⟩ := of_bind h
  cases h
  unfold compileAtomic at hatomic
  rw [if_pos rfl] at hatomic
  cases hatomic
  rfl

theorem lowerNode_output {label : String} (hne : graph.outputNodeId ≠ graph.sourceNodeId)
    (hconfig : configs[graph.outputNodeId]? = some (.output label))
    (h : lowerNode graph configs sourceAssetId graph.outputNodeId schema = .ok es) :
    es = [⟨graph.outputNodeId, .materialize label, schema⟩] := by
  unfold lowerNode at h
  rw [hconfig] at h
  obtain ⟨⟨kind, next⟩, hatomic, h⟩ := of_bind h
  cases h
  unfold compileAtomic at hatomic
  rw [if_neg hne, if_pos rfl] at hatomic
  cases hatomic
  rfl

theorem emissions_append (blocks blocks' : List (NodeId × List Emission)) :
    emissions (blocks ++ blocks') = emissions blocks ++ emissions blocks' :=
  flatMap_append

theorem lowerPath_append {path path' : List NodeId}
    (h : lowerPath graph configs sourceAssetId (path ++ path') schema = .ok blocks) :
    ∃ before after, blocks = before ++ after ∧
      lowerPath graph configs sourceAssetId path schema = .ok before ∧
      lowerPath graph configs sourceAssetId path' (schemaAfter schema (emissions before)) =
        .ok after := by
  induction path generalizing schema blocks with
  | nil => exact ⟨[], blocks, rfl, rfl, h⟩
  | cons nodeId path ih =>
    rw [cons_append, lowerPath] at h
    obtain ⟨block, hblock, h⟩ := of_bind h
    obtain ⟨rest, hrest, h⟩ := of_bind h
    cases h
    obtain ⟨before, after, rfl, hbefore, hafter⟩ := ih hrest
    refine ⟨(nodeId, block) :: before, after, rfl, ?_, ?_⟩
    · rw [lowerPath, hblock, ok_bind, hbefore]
      rfl
    · rw [emissions, flatMap_cons, schemaAfter_append rfl]
      exact hafter

theorem lowerPath_lengths (h : lowerPath graph configs sourceAssetId path schema = .ok blocks) :
    ∀ block ∈ blocks, block.2.length = (nodeSteps configs block.1).length := by
  induction path generalizing schema blocks with
  | nil =>
    cases h
    simp
  | cons nodeId path ih =>
    rw [lowerPath] at h
    obtain ⟨block, hblock, h⟩ := of_bind h
    obtain ⟨rest, hrest, h⟩ := of_bind h
    cases h
    exact forall_mem_cons.mpr ⟨lowerNode_length hblock, ih hrest⟩

theorem emissions_length (h : lowerPath graph configs sourceAssetId path schema = .ok blocks) :
    (emissions blocks).length = (path.flatMap (nodeSteps configs)).length := by
  rw [emissions, length_flatMap, length_flatMap, ← lowerPath_fst h, map_map]
  exact congrArg List.sum (map_congr_left (lowerPath_lengths h))

/-- The nodes between the endpoints are lowered to the operators of their steps. -/
theorem lowerPath_transform
    (hinner : ∀ nodeId ∈ path, nodeId ≠ graph.sourceNodeId ∧ nodeId ≠ graph.outputNodeId)
    (h : lowerPath graph configs sourceAssetId path schema = .ok blocks) :
    (emissions blocks).map (some ∘ Emission.kind) =
        (path.flatMap (nodeSteps configs)).map operatorKind ∧
      Effects schema (emissions blocks) := by
  induction path generalizing schema blocks with
  | nil =>
    cases h
    exact ⟨rfl, trivial⟩
  | cons nodeId path ih =>
    rw [lowerPath] at h
    obtain ⟨block, hblock, h⟩ := of_bind h
    obtain ⟨rest, hrest, h⟩ := of_bind h
    cases h
    rw [forall_mem_cons] at hinner
    obtain ⟨hkinds, heffects⟩ := lowerNode_transform hinner.1.1 hinner.1.2 hblock
    obtain ⟨hkinds', heffects'⟩ := ih hinner.2 hrest
    rw [emissions, flatMap_cons, flatMap_cons, map_append, map_append, hkinds,
      effects_append]
    exact ⟨congrArg _ hkinds', heffects, heffects'⟩

end Stillflow.Plan
