import Stillflow.Plan.Admissible
import Stillflow.Plan.IdCollisions

/-! Widths of the schema snapshots. -/

namespace Stillflow.Plan

open Stillflow.Core Lib Lib.Fallible Lib.Maps List

variable {graph : NodeGraph} {configs : Configs} {path : List NodeId} {nodeId : NodeId}
  {sourceAssetId : Uuid} {schema next : LogicalSchema} {config : ValidatedNodeConfig} {width : Nat}
  {es : List Emission}

def widthAfter (width : Nat) : ValidatedNodeConfig → Nat
  | .select columns => columns.length
  | .deriveColumn _ _ _ _ _ => width + 1
  | .dropColumn _ => width - 1
  | _ => width

/-- The width after each step. -/
def stepWidths : Nat → List ValidatedNodeConfig → List Nat
  | _, [] => []
  | width, config :: steps => widthAfter width config :: stepWidths (widthAfter width config) steps

/-- The widths a node is recorded with; the last one of an expansion counts for its product node
again. -/
def nodeWidths (configs : Configs) (width : Nat) (nodeId : NodeId) : List Nat :=
  stepWidths width (nodeSteps configs nodeId) ++
    if isCompositeNode configs nodeId = true then
      [(nodeSteps configs nodeId).foldl widthAfter width]
    else []

def pathWidths (configs : Configs) : Nat → List NodeId → List Nat
  | _, [] => []
  | width, nodeId :: path => nodeWidths configs width nodeId ++
      pathWidths configs ((nodeSteps configs nodeId).foldl widthAfter width) path

/-- A valid schema of this width. -/
structure HasWidth (width : Nat) (schema : LogicalSchema) : Prop where
  valid : schema.validate = .ok ()
  length_eq : schema.fields.length = width

theorem modifyColumn_length (edit : LogicalField → LogicalField) (column : ColumnId)
    (fields : List LogicalField) :
    ((modifyColumn edit column fields).getD fields).length = fields.length := by
  induction fields with
  | nil => rfl
  | cons field fields ih =>
    rw [modifyColumn]
    split_ifs with hid
    · rfl
    · cases hmodify : modifyColumn edit column fields with
      | none => rfl
      | some modified =>
        rw [hmodify] at ih
        exact congrArg (· + 1) ih

theorem ruleFields_length {base : Nat} {fields : List LogicalField} {rule : Rule}
    (hfit : FieldsFit base fields) (hchecks : RuleChecks fields rule)
    (hrule : productRule config = some rule) :
    (ruleFields fields rule).length = widthAfter fields.length config := by
  cases config with
  | dropColumn column =>
    cases hrule
    obtain ⟨-, field, hfield, -⟩ := hchecks
    obtain ⟨before, after, hsplit, -, -⟩ := findColumn_split hfield id
    rw [ruleFields, filter_split hfit hsplit (findColumn_some hfield).2, hsplit, widthAfter]
    simp only [length_append, length_cons]
    omega
  | deriveColumn =>
    cases hrule
    exact length_append
  | cast column dataType onFailure format =>
    cases format <;> cases hrule <;> exact modifyColumn_length _ _ _
  | replaceLiteral column source target =>
    cases hrule
    cases target <;> first | rfl | exact modifyColumn_length _ _ _
  | rename | fillNull =>
    cases hrule
    exact modifyColumn_length _ _ _
  | trim | normalizeText =>
    cases hrule
    rfl
  | _ => cases hrule

theorem projectEffect_valid {columns : List ColumnId} (h : projectEffect schema columns = .ok next) :
    next.validate = .ok () := by
  unfold projectEffect at h
  obtain ⟨_, _, h⟩ := of_bind h
  obtain ⟨fields, _, h⟩ := of_bind h
  exact (fromParts_eq_ok.mp (mapError_eq_ok.mp h)).2

theorem projectEffect_width {columns : List ColumnId} (h : projectEffect schema columns = .ok next) :
    HasWidth columns.length next := by
  refine ⟨projectEffect_valid h, ?_⟩
  rw [← projectEffect_ids h, length_map]

theorem compileTransform_width {kind : PlanNodeKind} (hw : HasWidth width schema)
    (h : compileTransform nodeId config schema = .ok (kind, next)) :
    HasWidth (widthAfter width config) next := by
  obtain ⟨hvalid, rfl⟩ := hw
  unfold compileTransform at h
  split at h
  · rename_i rule hrule
    obtain ⟨effect, heffect, h⟩ := of_bind h
    cases h
    obtain ⟨⟨hchecks, -, hfit⟩, rfl⟩ := (ruleEffect_eq_ok hvalid).mp (mapError_eq_ok.mp heffect)
    obtain ⟨hversion, hsafe, -⟩ := (validate_schema_iff schema).mp hvalid
    refine ⟨(validate_schema_iff _).mpr ⟨hversion, hsafe, hfit.ok, hfit.count_le, hfit.text_le⟩, ?_⟩
    exact ruleFields_length (fieldsFit_of_validate hvalid) hchecks hrule
  · unfold compileOperator at h
    split at h
    · obtain ⟨effect, heffect, h⟩ := of_bind h
      cases h
      exact projectEffect_width (mapError_eq_ok.mp heffect)
    · obtain ⟨_, _, h⟩ := of_bind h
      obtain ⟨_, _, h⟩ := of_bind h
      cases h
      exact ⟨hvalid, rfl⟩
    · obtain ⟨_, _, h⟩ := of_bind h
      cases h
      exact ⟨hvalid, rfl⟩
    · cases h
    · cases h

def emittedWidths (es : List Emission) : List Nat := es.map fun e => e.schema.fields.length

theorem lowerSteps_width {steps : List (ValidatedNodeConfig × Nat)} (hw : HasWidth width schema)
    (h : lowerSteps nodeId steps schema = .ok es) :
    emittedWidths es = stepWidths width (steps.map Prod.fst) ∧
      HasWidth ((steps.map Prod.fst).foldl widthAfter width) (schemaAfter schema es) := by
  induction steps generalizing schema width es with
  | nil =>
    cases h
    exact ⟨rfl, hw⟩
  | cons step steps ih =>
    rw [lowerSteps] at h
    obtain ⟨⟨kind, next⟩, htransform, h⟩ := of_bind h
    obtain ⟨rest, hrest, h⟩ := of_bind h
    cases h
    have hnext := compileTransform_width hw htransform
    obtain ⟨hwidths, hafter⟩ := ih hnext hrest
    rw [schemaAfter_cons]
    refine ⟨?_, hafter⟩
    unfold emittedWidths at hwidths ⊢
    rw [map_cons, hwidths, hnext.length_eq]
    rfl

/-- The endpoints have endpoint configs. -/
structure Endpoints (graph : NodeGraph) (configs : Configs) : Prop where
  source : ∃ asset projection, configs[graph.sourceNodeId]? = some (.source asset projection)
  output : ∃ label, configs[graph.outputNodeId]? = some (.output label)

theorem compileAtomic_width {kind : PlanNodeKind} (hends : Endpoints graph configs)
    (hconfig : configs[nodeId]? = some config) (hw : HasWidth width schema)
    (h : compileAtomic graph sourceAssetId nodeId config schema = .ok (kind, next)) :
    HasWidth (widthAfter width config) next := by
  unfold compileAtomic at h
  split_ifs at h with hsource houtput
  · obtain ⟨asset, projection, hends⟩ := hends.source
    rw [← hsource, hconfig] at hends
    cases hends
    cases h
    exact hw
  · obtain ⟨label, hends⟩ := hends.output
    rw [← houtput, hconfig] at hends
    cases hends
    cases h
    exact hw
  · exact compileTransform_width hw h

theorem lowerNode_width (hends : Endpoints graph configs) (hw : HasWidth width schema)
    (h : lowerNode graph configs sourceAssetId nodeId schema = .ok es) :
    emittedWidths es = stepWidths width (nodeSteps configs nodeId) ∧
      HasWidth ((nodeSteps configs nodeId).foldl widthAfter width) (schemaAfter schema es) := by
  unfold lowerNode at h
  unfold nodeSteps
  cases hconfig : configs[nodeId]? with
  | none =>
    rw [hconfig] at h
    cases h
  | some config =>
    rw [hconfig] at h
    cases config with
    | composite steps =>
      have hsteps := lowerSteps_width hw h
      rw [zipIdx_map_fst] at hsteps
      exact hsteps
    | _ =>
      obtain ⟨⟨kind, next⟩, hatomic, h⟩ := of_bind h
      cases h
      have hnext := compileAtomic_width hends hconfig hw hatomic
      exact ⟨congrArg (fun n => [n]) hnext.length_eq, hnext⟩

/-- The schema entries of a block without the repeated one of an atomic node. -/
def snapshots (configs : Configs) (block : NodeId × List Emission) :
    List (NodeId × LogicalSchema) :=
  block.2.map (fun e => (e.id, e.schema)) ++
    if isCompositeNode configs block.1 = true then
      (block.2.getLast?.map fun e => (block.1, e.schema)).toList
    else []

def entryWidths (entries : List (NodeId × LogicalSchema)) : List Nat :=
  entries.map fun entry => entry.2.fields.length

variable {blocks : List (NodeId × List Emission)}

theorem snapshots_width (hne : es ≠ [])
    (hwidths : emittedWidths es = stepWidths width (nodeSteps configs nodeId))
    (hafter : HasWidth ((nodeSteps configs nodeId).foldl widthAfter width) (schemaAfter schema es)) :
    entryWidths (snapshots configs (nodeId, es)) = nodeWidths configs width nodeId := by
  unfold entryWidths snapshots nodeWidths
  rw [← hwidths, map_append, map_map]
  refine congrArg _ ?_
  split_ifs with hcomposite
  · rw [← hafter.length_eq, schemaAfter, getLast?_eq_some_getLast hne]
    rfl
  · rfl

theorem lowerPath_widths (hends : Endpoints graph configs) (hw : HasWidth width schema)
    (h : lowerPath graph configs sourceAssetId path schema = .ok blocks)
    (hne : ∀ block ∈ blocks, block.2 ≠ []) :
    entryWidths (blocks.flatMap (snapshots configs)) = pathWidths configs width path := by
  induction path generalizing schema width blocks with
  | nil =>
    cases h
    rfl
  | cons nodeId path ih =>
    rw [lowerPath] at h
    obtain ⟨es, hes, h⟩ := of_bind h
    obtain ⟨rest, hrest, h⟩ := of_bind h
    cases h
    rw [forall_mem_cons] at hne
    obtain ⟨hwidths, hafter⟩ := lowerNode_width hends hw hes
    have hfirst := snapshots_width hne.1 hwidths hafter
    have hothers := ih hafter hrest hne.2
    unfold entryWidths at hfirst hothers ⊢
    rw [flatMap_cons, map_append, hfirst, hothers]
    rfl

theorem mem_snapshots (hids : ∀ block ∈ blocks, block.2.map Emission.id = emittedIds configs block.1)
    {entry : NodeId × LogicalSchema} :
    entry ∈ blocks.flatMap schemaEntries ↔ entry ∈ blocks.flatMap (snapshots configs) := by
  rw [mem_flatMap, mem_flatMap]
  refine exists_congr fun block => and_congr_right fun hblock => ?_
  unfold schemaEntries snapshots
  split_ifs with hcomposite
  · rfl
  · -- the product entry of an atomic node is the entry of its only emission
    have hid := hids block hblock
    rw [emittedIds, if_neg hcomposite] at hid
    obtain ⟨e, he, heid⟩ := map_eq_singleton_iff.mp hid
    simp [he, heid]

/-- The keys of the snapshots: ids of emissions, and product ids of expansions. -/
def productKeys (configs : Configs) (block : NodeId × List Emission) : List NodeId :=
  if isCompositeNode configs block.1 = true then (block.2.getLast?.map fun _ => block.1).toList
  else []

theorem snapshots_keys (block : NodeId × List Emission) :
    (snapshots configs block).map Prod.fst =
      block.2.map Emission.id ++ productKeys configs block := by
  unfold snapshots productKeys
  rw [map_append, map_map]
  refine congrArg _ ?_
  split_ifs
  · cases block.2.getLast? <;> rfl
  · rfl

theorem mem_productKeys {block : NodeId × List Emission} {key : NodeId}
    (h : key ∈ productKeys configs block) :
    key = block.1 ∧ isCompositeNode configs block.1 = true := by
  unfold productKeys at h
  split_ifs at h with hcomposite
  · rw [Option.mem_toList, Option.map_eq_some_iff] at h
    obtain ⟨_, -, rfl⟩ := h
    exact ⟨rfl, hcomposite⟩
  · cases h

theorem productKeys_sublist (blocks : List (NodeId × List Emission)) :
    (blocks.flatMap (productKeys configs)).Sublist (blocks.map Prod.fst) := by
  induction blocks with
  | nil => exact List.Sublist.slnil
  | cons block blocks ih =>
    rw [flatMap_cons, map_cons]
    have hblock : (productKeys configs block).Sublist [block.1] := by
      unfold productKeys
      split_ifs
      · cases block.2.getLast? with
        | none => exact nil_sublist _
        | some _ => exact List.Sublist.refl _
      · exact nil_sublist _
    exact hblock.append ih

/-- No snapshot is overwritten once no derived id is a product id. -/
theorem EmittedBlocks.snapshots_nodup (h : EmittedBlocks configs blocks)
    (hfree : ¬Caught configs (blocks.map Prod.fst))
    (hids : ((emissions blocks).map Emission.id).Nodup) :
    ((blocks.flatMap (snapshots configs)).map Prod.fst).Nodup := by
  have hkeys : (blocks.flatMap (snapshots configs)).map Prod.fst =
      blocks.flatMap fun block => block.2.map Emission.id ++ productKeys configs block := by
    rw [map_flatMap]
    exact flatMap_congr fun block _ => snapshots_keys block
  have hperm := flatMap_append_perm blocks (fun block => block.2.map Emission.id)
    (productKeys configs)
  rw [hkeys, ← hperm.nodup_iff, nodup_append]
  rw [emissions, map_flatMap] at hids
  refine ⟨hids, (productKeys_sublist blocks).nodup h.nodup, ?_⟩
  rintro id hid key hkey rfl
  obtain ⟨block, hblock, hid⟩ := mem_flatMap.mp hid
  obtain ⟨other, hother, hkey⟩ := mem_flatMap.mp hkey
  obtain ⟨rfl, hcomposite⟩ := mem_productKeys hkey
  have hpath : other.1 ∈ blocks.map Prod.fst := mem_map.mpr ⟨other, hother, rfl⟩
  rw [h.ids block hblock, emittedIds] at hid
  split_ifs at hid with hblockcomposite
  · obtain ⟨i, hi, hderived⟩ := mem_map.mp hid
    refine hfree (.inl ⟨block.1, i, ⟨mem_map.mpr ⟨block, hblock, rfl⟩, hblockcomposite,
      mem_range.mp hi⟩, ?_⟩)
    rw [hderived]
    exact hpath
  · rw [mem_singleton] at hid
    rw [← hid] at hblockcomposite
    exact hblockcomposite hcomposite

def fieldTotal (nodeSchemas : Std.ExtTreeMap NodeId LogicalSchema) : Nat :=
  ((values nodeSchemas).map fun schema => schema.fields.length).sum

end Stillflow.Plan
