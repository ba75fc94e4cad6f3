import Stillflow.Plan.NodeGraphCompiler

/-! The lowering of a path as a list: what each node emits, in order, with the schema after it. -/

namespace Stillflow.Plan

open Stillflow.Core Lib Lib.Fallible Lib.Maps List

variable {es : List Emission} {nodeId : NodeId} {planIds : Std.ExtTreeMap NodeId PlanNodeId}
  {schema : LogicalSchema} {state state' : CompileState}

/-- One emitted plan node with the schema it leaves. -/
structure Emission where
  id : PlanNodeId
  kind : PlanNodeKind
  schema : LogicalSchema

/-- One emission per expansion step, in step order, under the derived ids. -/
def lowerSteps (nodeId : NodeId) : List (ValidatedNodeConfig × Nat) → LogicalSchema →
    Except NodeGraphCompileError (List Emission)
  | [], _ => .ok []
  | step :: rest, schema => do
    let (kind, next) ← compileTransform nodeId step.1 schema
    let emissions ← lowerSteps nodeId rest next
    return ⟨internalPlanNodeId nodeId (UInt16.ofNat step.2), kind, next⟩ :: emissions

/-- What one path node emits: its expansion, or exactly one node under its own id. -/
def lowerNode (graph : NodeGraph) (configs : Configs) (sourceAssetId : Uuid) (nodeId : NodeId)
    (schema : LogicalSchema) : Except NodeGraphCompileError (List Emission) :=
  match configs[nodeId]? with
  | none => .error (.new .internal (some nodeId) "validated node config is absent")
  | some (.composite steps) => lowerSteps nodeId steps.zipIdx schema
  | some config => do
    let (kind, next) ← compileAtomic graph sourceAssetId nodeId config schema
    return [⟨nodeId, kind, next⟩]

def schemaAfter (schema : LogicalSchema) (emissions : List Emission) : LogicalSchema :=
  (emissions.getLast?.map Emission.schema).getD schema

/-- The blocks emitted along a path, each lowered against the schema the previous one left. -/
def lowerPath (graph : NodeGraph) (configs : Configs) (sourceAssetId : Uuid) :
    List NodeId → LogicalSchema → Except NodeGraphCompileError (List (NodeId × List Emission))
  | [], _ => .ok []
  | nodeId :: rest, schema => do
    let block ← lowerNode graph configs sourceAssetId nodeId schema
    let blocks ← lowerPath graph configs sourceAssetId rest (schemaAfter schema block)
    return (nodeId, block) :: blocks

def emissions (blocks : List (NodeId × List Emission)) : List Emission :=
  blocks.flatMap Prod.snd

/-- The plan nodes of a chain of emissions, each reading the one before it. -/
def chainEntries : Option PlanNodeId → List Emission → List (PlanNodeId × PlanNode)
  | _, [] => []
  | previous, e :: rest => (e.id, ⟨previous.toList, e.kind⟩) :: chainEntries (some e.id) rest

def lastId (previous : Option PlanNodeId) (emissions : List Emission) : Option PlanNodeId :=
  (emissions.getLast?.map Emission.id).or previous

theorem lastId_cons (previous : Option PlanNodeId) (e : Emission) (rest : List Emission) :
    lastId previous (e :: rest) = lastId (some e.id) rest := by
  cases rest with
  | nil => rfl
  | cons e' rest =>
    unfold lastId
    rw [getLast?_cons_cons]
    cases h : (e' :: rest).getLast? with
    | none => simp at h
    | some last => rfl

theorem schemaAfter_cons (schema : LogicalSchema) (e : Emission) (rest : List Emission) :
    schemaAfter schema (e :: rest) = schemaAfter e.schema rest := by
  cases rest with
  | nil => rfl
  | cons e' rest =>
    unfold schemaAfter
    rw [getLast?_cons_cons]
    cases h : (e' :: rest).getLast? with
    | none => simp at h
    | some last => rfl

theorem lastId_append {previous : Option PlanNodeId} {es es' : List Emission} {id : PlanNodeId}
    (h : lastId previous es = some id) : lastId previous (es ++ es') = lastId (some id) es' := by
  induction es generalizing previous with
  | nil => rw [nil_append, ← h]; rfl
  | cons e es ih =>
    rw [lastId_cons] at h
    rw [cons_append, lastId_cons, ih h]

theorem schemaAfter_append {schema next : LogicalSchema} {es es' : List Emission}
    (h : schemaAfter schema es = next) : schemaAfter schema (es ++ es') = schemaAfter next es' := by
  induction es generalizing schema with
  | nil => rw [nil_append, ← h]; rfl
  | cons e es ih =>
    rw [schemaAfter_cons] at h
    rw [cons_append, schemaAfter_cons, ih h]

theorem chainEntries_append (previous : Option PlanNodeId) (es es' : List Emission) :
    chainEntries previous (es ++ es') =
      chainEntries previous es ++ chainEntries (lastId previous es) es' := by
  induction es generalizing previous with
  | nil => rfl
  | cons e es ih => rw [cons_append, chainEntries, chainEntries, cons_append, ih,
      lastId_cons]

/-- The state after a block was emitted, with the ids and schemas of its own emissions only. -/
def CompileState.emitAll (state : CompileState) (es : List Emission) : CompileState where
  nodePlanIds := state.nodePlanIds
  planNodes := insertAll state.planNodes (chainEntries state.previous es)
  nodeSchemas := insertAll state.nodeSchemas (es.map fun e => (e.id, e.schema))
  workingSchema := schemaAfter state.workingSchema es
  previous := lastId state.previous es

theorem emitAll_cons (state : CompileState) (e : Emission) (es : List Emission) :
    state.emitAll (e :: es) = (state.emit e.id e.kind e.schema).emitAll es := by
  simp only [CompileState.emitAll, CompileState.emit, schemaAfter_cons, lastId_cons, chainEntries,
    insertAll, map_cons, foldl_cons]

theorem compileSteps_eq_ok {steps : List (ValidatedNodeConfig × Nat)}
    (h : steps.foldlM (compileStep nodeId nodeId) state = .ok state') :
    ∃ es, lowerSteps nodeId steps state.workingSchema = .ok es ∧ state' = state.emitAll es ∧
      ∀ e ∈ es, e.id ∉ values state.nodePlanIds := by
  induction steps generalizing state with
  | nil =>
    cases h
    exact ⟨[], rfl, rfl, by simp⟩
  | cons step rest ih =>
    rw [foldlM_cons] at h
    obtain ⟨mid, hstep, hrest⟩ := of_bind h
    obtain ⟨_, hfree, hstep⟩ := of_bind hstep
    obtain ⟨⟨kind, next⟩, htransform, hmid⟩ := of_bind hstep
    cases hmid
    obtain ⟨es, hes, hstate, hall⟩ := ih hrest
    refine ⟨⟨internalPlanNodeId nodeId (UInt16.ofNat step.2), kind, next⟩ :: es, ?_, ?_, ?_⟩
    · rw [lowerSteps, htransform, ok_bind]
      exact bind_eq_ok.mpr ⟨es, hes, rfl⟩
    · rw [hstate, emitAll_cons]
    · exact forall_mem_cons.mpr ⟨require_eq_ok.mp hfree, hall⟩

/-- The state after a whole block: the product node is mapped to the last emission. -/
def CompileState.finishBlock (state : CompileState) (nodeId : NodeId) (es : List Emission) :
    CompileState :=
  let last := (lastId none es).getD nodeId
  { state.emitAll es with
    nodePlanIds := state.nodePlanIds.insert nodeId last
    nodeSchemas := (state.emitAll es).nodeSchemas.insert nodeId
      (schemaAfter state.workingSchema es)
    previous := some last }

/-- The ids a block may use: the product id alone, or derived ids that were free. -/
def FreshBlock (planIds : Std.ExtTreeMap NodeId PlanNodeId) (nodeId : NodeId)
    (es : List Emission) : Prop :=
  es.map Emission.id = [nodeId] ∨
    es.map Emission.id =
      (List.range es.length).map (fun i => internalPlanNodeId nodeId (UInt16.ofNat i)) ∧
    ∀ e ∈ es, e.id ∉ values planIds

theorem lowerSteps_ids {steps : List ValidatedNodeConfig} {offset : Nat}
    (h : lowerSteps nodeId (steps.zipIdx offset) schema = .ok es) :
    es.length = steps.length ∧ es.map Emission.id =
      (List.range' offset es.length).map fun i => internalPlanNodeId nodeId (UInt16.ofNat i) := by
  induction steps generalizing offset schema es with
  | nil =>
    cases h
    exact ⟨rfl, rfl⟩
  | cons step steps ih =>
    rw [zipIdx_cons, lowerSteps] at h
    obtain ⟨⟨kind, next⟩, -, h⟩ := of_bind h
    obtain ⟨rest, hrest, h⟩ := of_bind h
    cases h
    obtain ⟨hlen, hids⟩ := ih hrest
    refine ⟨by rw [length_cons, hlen, length_cons], ?_⟩
    rw [map_cons, hids, length_cons, range'_succ, map_cons]

theorem lastId_none (es : List Emission) : lastId none es = (es.map Emission.id).getLast? := by
  rw [lastId, Option.or_none, getLast?_map]

theorem lastId_of_cons {previous : Option PlanNodeId} (h : es ≠ []) :
    lastId previous es = lastId none es := by
  obtain ⟨e, rest, rfl⟩ := exists_cons_of_ne_nil h
  rw [lastId_cons, lastId_cons]

variable {graph : NodeGraph} {configs : Configs} {sourceAssetId : Uuid}
  {block : NodeId × List Emission} {blocks : List (NodeId × List Emission)}

theorem compileNode_eq_ok (hid : state.nodePlanIds[nodeId]? = some nodeId)
    (h : compileNode graph configs sourceAssetId state nodeId = .ok state') :
    ∃ es, lowerNode graph configs sourceAssetId nodeId state.workingSchema = .ok es ∧
      FreshBlock state.nodePlanIds nodeId es ∧ state' = state.finishBlock nodeId es := by
  unfold compileNode at h
  unfold lowerNode
  rw [hid, Option.getD_some] at h
  cases hconfig : configs[nodeId]? with
  | none =>
    rw [hconfig] at h
    cases h
  | some config =>
    rw [hconfig] at h
    cases config with
    | composite steps =>
      obtain ⟨expanded, hsteps, h⟩ := of_bind h
      obtain ⟨es, hes, rfl, hfree⟩ := compileSteps_eq_ok hsteps
      obtain ⟨hlen, hids⟩ := lowerSteps_ids hes
      refine ⟨es, hes, .inr ⟨?_, hfree⟩, ?_⟩
      · rw [hids, range_eq_range']
      · cases h
        have hlast : (if steps.isEmpty = true then nodeId
            else (state.emitAll es).previous.getD nodeId) = (lastId none es).getD nodeId := by
          cases es with
          | nil =>
            have : steps = [] := length_eq_zero_iff.mp hlen.symm
            simp [this, lastId]
          | cons e es =>
            have : steps.isEmpty = false := by
              cases steps with
              | nil => simp at hlen
              | cons => rfl
            rw [this]
            simp only [Bool.false_eq_true, if_false, CompileState.emitAll, lastId_cons]
        simp only [CompileState.finishBlock, ← hlast]
        rfl
    | _ =>
      dsimp only at h ⊢
      obtain ⟨⟨kind, next⟩, hatomic, h⟩ := of_bind h
      cases h
      refine ⟨[⟨nodeId, kind, next⟩], ?_, .inl rfl, ?_⟩
      · rw [hatomic, ok_bind]
        rfl
      · simp only [CompileState.finishBlock, CompileState.emitAll, CompileState.emit, lastId,
          schemaAfter, chainEntries, insertAll, map_cons, map_nil, foldl_cons,
          foldl_nil, getLast?_singleton, Option.map_some, Option.getD_some, Option.or]
        rw [insert_same hid, insert_insert]

def finishBlocks (state : CompileState) (blocks : List (NodeId × List Emission)) : CompileState :=
  blocks.foldl (fun state block => state.finishBlock block.1 block.2) state

/-- The product-to-plan map after some blocks. -/
def planIdsAfter (planIds : Std.ExtTreeMap NodeId PlanNodeId)
    (blocks : List (NodeId × List Emission)) : Std.ExtTreeMap NodeId PlanNodeId :=
  blocks.foldl (fun ids block => ids.insert block.1 ((lastId none block.2).getD block.1)) planIds

/-- Every block was fresh against the map that the blocks before it left. -/
def AllFresh (planIds : Std.ExtTreeMap NodeId PlanNodeId)
    (blocks : List (NodeId × List Emission)) : Prop :=
  ∀ before block after, blocks = before ++ block :: after →
    FreshBlock (planIdsAfter planIds before) block.1 block.2

theorem allFresh_cons (hblock : FreshBlock planIds block.1 block.2)
    (hrest : AllFresh (planIds.insert block.1 ((lastId none block.2).getD block.1)) blocks) :
    AllFresh planIds (block :: blocks) := by
  intro before other after hsplit
  cases before with
  | nil =>
    cases hsplit
    exact hblock
  | cons first before =>
    cases hsplit
    exact hrest before other after rfl

theorem lowerPath_fst {path : List NodeId}
    (h : lowerPath graph configs sourceAssetId path schema = .ok blocks) :
    blocks.map Prod.fst = path := by
  induction path generalizing schema blocks with
  | nil =>
    cases h
    rfl
  | cons nodeId rest ih =>
    rw [lowerPath] at h
    obtain ⟨block, -, h⟩ := of_bind h
    obtain ⟨others, hothers, h⟩ := of_bind h
    cases h
    rw [map_cons, ih hothers]

theorem compileNodes_eq_ok {path : List NodeId} (hn : path.Nodup)
    (hids : ∀ nodeId ∈ path, state.nodePlanIds[nodeId]? = some nodeId)
    (h : path.foldlM (compileNode graph configs sourceAssetId) state = .ok state') :
    ∃ blocks, lowerPath graph configs sourceAssetId path state.workingSchema = .ok blocks ∧
      AllFresh state.nodePlanIds blocks ∧ state' = finishBlocks state blocks := by
  induction path generalizing state with
  | nil =>
    cases h
    refine ⟨[], rfl, fun before block after hsplit => ?_, rfl⟩
    simp at hsplit
  | cons nodeId rest ih =>
    rw [foldlM_cons] at h
    rw [nodup_cons] at hn
    obtain ⟨mid, hmid, hrest⟩ := of_bind h
    obtain ⟨es, hes, hfresh, rfl⟩ := compileNode_eq_ok (hids nodeId (by simp)) hmid
    obtain ⟨blocks, hblocks, hall, rfl⟩ := ih hn.2 (by
      intro other hother
      have hne : nodeId ≠ other := fun heq => hn.1 (heq ▸ hother)
      dsimp only [CompileState.finishBlock]
      rw [Std.ExtTreeMap.getElem?_insert,
        if_neg fun heq => hne (Std.LawfulEqOrd.eq_of_compare heq)]
      exact hids other (mem_cons_of_mem _ hother)) hrest
    refine ⟨(nodeId, es) :: blocks, ?_, allFresh_cons hfresh hall, rfl⟩
    rw [lowerPath, hes, ok_bind]
    exact bind_eq_ok.mpr ⟨blocks, hblocks, rfl⟩

theorem getElem?_planIdsAfter_of_notMem (h : nodeId ∉ blocks.map Prod.fst) :
    (planIdsAfter planIds blocks)[nodeId]? = planIds[nodeId]? := by
  induction blocks generalizing planIds with
  | nil => rfl
  | cons block blocks ih =>
    rw [map_cons, mem_cons, not_or] at h
    rw [planIdsAfter, foldl_cons]
    refine (ih h.2).trans ?_
    rw [Std.ExtTreeMap.getElem?_insert,
      if_neg fun heq => h.1 (Std.LawfulEqOrd.eq_of_compare heq).symm]

theorem planIdsAfter_append (planIds : Std.ExtTreeMap NodeId PlanNodeId)
    (blocks blocks' : List (NodeId × List Emission)) :
    planIdsAfter planIds (blocks ++ blocks') = planIdsAfter (planIdsAfter planIds blocks) blocks' := by
  unfold planIdsAfter
  rw [foldl_append]

theorem getElem?_planIdsAfter {before after : List (NodeId × List Emission)}
    (hafter : nodeId ∉ after.map Prod.fst) :
    (planIdsAfter planIds (before ++ (nodeId, es) :: after))[nodeId]? =
      some ((lastId none es).getD nodeId) := by
  rw [planIdsAfter_append, ← singleton_append, planIdsAfter_append,
    getElem?_planIdsAfter_of_notMem hafter]
  exact Std.ExtTreeMap.getElem?_insert_self

/-- A derived id forgets the low bits, so deriving again starts from the same product id. -/
theorem internalPlanNodeId_internal (product : PlanNodeId) (i j : UInt16) :
    internalPlanNodeId (internalPlanNodeId product j) i = internalPlanNodeId product i := by
  have hmask : ∀ b : Fin 128, (~~~(0xFFFF : Uuid)).getLsbD b = decide (16 ≤ (b : Nat)) := by decide
  have hflag : ∀ b : Fin 128, (0x8000 : Uuid).getLsbD b = decide ((b : Nat) = 15) := by decide
  have hlow : (internalPlanNodeId product j) &&& ~~~(0xFFFF : Uuid) =
      product &&& ~~~(0xFFFF : Uuid) := by
    unfold internalPlanNodeId
    refine BitVec.eq_of_getLsbD_eq fun b hb => ?_
    have hm := hmask ⟨b, hb⟩
    have hf := hflag ⟨b, hb⟩
    simp only at hm hf
    rw [BitVec.getLsbD_and, BitVec.getLsbD_or, BitVec.getLsbD_or, BitVec.getLsbD_and,
      hm, hf, BitVec.getLsbD_setWidth]
    by_cases h16 : 16 ≤ b
    · have h15 : b ≠ 15 := by omega
      simp [h16, h15]
    · simp [h16]
  unfold internalPlanNodeId at hlow ⊢
  rw [hlow]

/-- No derived id of a later block is the id of an earlier product node, even after that node's own
entry was replaced by its last derived id. -/
theorem id_ne_of_allFresh {before after : List (NodeId × List Emission)}
    (hn : ((before ++ (nodeId, es) :: after).map Prod.fst).Nodup)
    (hid : planIds[nodeId]? = some nodeId)
    (hall : AllFresh planIds (before ++ (nodeId, es) :: after)) :
    ∀ block ∈ after, ∀ e ∈ block.2, e.id ≠ nodeId := by
  intro block hblock e he heq
  obtain ⟨between, rest, rfl⟩ := append_of_mem hblock
  obtain ⟨other, es'⟩ := block
  rw [map_append, map_cons, nodup_append, nodup_cons] at hn
  obtain ⟨-, ⟨hafter, -⟩, hbefore⟩ := hn
  have hother : other ≠ nodeId := fun h => hafter (mem_map.mpr ⟨_, hblock, h⟩)
  have hown : nodeId ∈ values (planIdsAfter planIds before) := by
    refine mem_values nodeId ?_
    rw [getElem?_planIdsAfter_of_notMem, hid]
    intro hmem
    exact hbefore _ hmem _ (by simp) rfl
  have hlast : (lastId none es).getD nodeId ∈
      values (planIdsAfter planIds (before ++ (nodeId, es) :: between)) := by
    refine mem_values nodeId (getElem?_planIdsAfter fun hmem => hafter ?_)
    rw [map_append]
    exact mem_append_left _ hmem
  have hthis := hall before (nodeId, es) _ rfl
  have hthat := hall (before ++ (nodeId, es) :: between) (other, es') rest (by simp)
  have he' : e.id ∈ es'.map Emission.id := mem_map.mpr ⟨e, he, rfl⟩
  rcases hthat with hsingle | ⟨hids', hfree'⟩
  · rw [hsingle, mem_singleton] at he'
    exact hother (he'.symm.trans heq)
  have hused : nodeId ∉ values (planIdsAfter planIds (before ++ (nodeId, es) :: between)) :=
    heq ▸ hfree' e he
  have hfree : ∀ i < es'.length, internalPlanNodeId other (UInt16.ofNat i) ∉
      values (planIdsAfter planIds (before ++ (nodeId, es) :: between)) := by
    intro i hi
    have hmem : internalPlanNodeId other (UInt16.ofNat i) ∈ es'.map Emission.id := by
      rw [hids']
      exact mem_map.mpr ⟨i, mem_range.mpr hi, rfl⟩
    obtain ⟨e', hmem', hid'⟩ := mem_map.mp hmem
    exact hid' ▸ hfree' e' hmem'
  rw [hids', mem_map] at he'
  obtain ⟨j, hj, hje⟩ := he'
  have hj : j < es'.length := mem_range.mp hj
  rw [heq] at hje
  have hderive : ∀ i, internalPlanNodeId nodeId i = internalPlanNodeId other i := fun i =>
    hje ▸ internalPlanNodeId_internal other i _
  rw [lastId_none] at hlast
  rcases hthis with hone | ⟨hids, hown'⟩
  · rw [hone] at hlast
    exact hused hlast
  · rw [hids] at hlast
    by_cases hjk : j < es.length
    -- step `j` of this node itself would have collided with its product id
    · have hmem : internalPlanNodeId nodeId (UInt16.ofNat j) ∈ es.map Emission.id := by
        rw [hids]
        exact mem_map.mpr ⟨j, mem_range.mpr hjk, rfl⟩
      obtain ⟨e', hmem', hid'⟩ := mem_map.mp hmem
      refine hown' e' hmem' ?_
      rw [hid', hderive, hje]
      exact hown
    -- the other node reaches this node's last derived id before step `j`
    · cases hk : es.length with
      | zero =>
        rw [hk] at hlast
        exact hused hlast
      | succ k =>
        rw [hk, range_succ, map_append, map_singleton, getLast?_concat,
          Option.getD_some, hderive] at hlast
        exact hfree k (by omega) hlast

theorem eq_of_emission_id (hn : (blocks.map Prod.fst).Nodup)
    (hids : ∀ block ∈ blocks, planIds[block.1]? = some block.1) (hall : AllFresh planIds blocks)
    {other : NodeId × List Emission} (hblock : block ∈ blocks) (hother : other ∈ blocks)
    {e : Emission} (he : e ∈ block.2) (heq : e.id = other.1) :
    block = other ∧ block.2.map Emission.id = [block.1] := by
  obtain ⟨before, after, rfl⟩ := append_of_mem hother
  -- the entry of `other` is still its own id when an earlier block, or its own, is lowered
  have hunused : ∀ prior, other.1 ∉ prior.map Prod.fst →
      other.1 ∈ values (planIdsAfter planIds prior) := by
    intro prior hprior
    refine mem_values other.1 ?_
    rw [getElem?_planIdsAfter_of_notMem hprior]
    exact hids other (by simp)
  have hbefore : other.1 ∉ before.map Prod.fst := by
    rw [map_append, nodup_append] at hn
    intro hmem
    exact hn.2.2 _ hmem _ (by simp) rfl
  rcases mem_append.mp hblock with hblock | hblock
  · obtain ⟨prior, between, rfl⟩ := append_of_mem hblock
    have hne : block.1 ≠ other.1 := fun h => hbefore (by simp [← h])
    exfalso
    rcases hall prior block (between ++ other :: after) (by simp) with hsingle | ⟨-, hfree⟩
    · have hid : e.id ∈ block.2.map Emission.id := mem_map.mpr ⟨e, he, rfl⟩
      rw [hsingle, mem_singleton] at hid
      exact hne (hid.symm.trans heq)
    · refine hfree e he (heq ▸ hunused prior fun hmem => hbefore ?_)
      rw [map_append]
      exact mem_append_left _ hmem
  · rcases mem_cons.mp hblock with rfl | hblock
    · refine ⟨rfl, ?_⟩
      rcases hall before block after rfl with hsingle | ⟨-, hfree⟩
      · exact hsingle
      · exact absurd (heq ▸ hunused before hbefore) (hfree e he)
    · exact absurd heq (id_ne_of_allFresh hn (hids other (by simp)) hall block hblock e he)

/-- Keys and schemas recorded for a block: its emissions, then the product node. -/
def schemaEntries (block : NodeId × List Emission) : List (NodeId × LogicalSchema) :=
  block.2.map (fun e => (e.id, e.schema)) ++
    (block.2.getLast?.map fun e => (block.1, e.schema)).toList

theorem mem_schemaEntries {entry : NodeId × LogicalSchema} :
    entry ∈ schemaEntries block ↔ (∃ e ∈ block.2, entry = (e.id, e.schema)) ∨
      ∃ e, block.2.getLast? = some e ∧ entry = (block.1, e.schema) := by
  unfold schemaEntries
  rw [mem_append, mem_map, Option.mem_toList, Option.map_eq_some_iff]
  simp only [eq_comm (a := entry)]

theorem schemaEntries_agree (hn : (blocks.map Prod.fst).Nodup)
    (hids : ∀ block ∈ blocks, planIds[block.1]? = some block.1) (hall : AllFresh planIds blocks)
    (hnodup : ((emissions blocks).map Emission.id).Nodup) :
    ∀ entry ∈ blocks.flatMap schemaEntries, ∀ other ∈ blocks.flatMap schemaEntries,
      entry.1 = other.1 → entry.2 = other.2 := by
  have hmem : ∀ {block : NodeId × List Emission} {e}, block ∈ blocks → e ∈ block.2 →
      e ∈ emissions blocks := fun hb he => mem_flatMap.mpr ⟨_, hb, he⟩
  -- an emission that shares its id with a product node is the last one of that node
  have hlast : ∀ {block other : NodeId × List Emission} {e last}, block ∈ blocks →
      other ∈ blocks → e ∈ block.2 → other.2.getLast? = some last → e.id = other.1 →
      e.schema = last.schema := by
    intro block other e last hb ho he hl heq
    obtain ⟨rfl, hsingle⟩ := eq_of_emission_id hn hids hall hb ho he heq
    obtain ⟨only, honly, -⟩ := map_eq_singleton_iff.mp hsingle
    rw [honly, mem_singleton] at he
    rw [honly, getLast?_singleton, Option.some.injEq] at hl
    rw [he, hl]
  intro entry hentry other hother heq
  obtain ⟨block, hblock, hentry⟩ := mem_flatMap.mp hentry
  obtain ⟨block', hblock', hother⟩ := mem_flatMap.mp hother
  rcases mem_schemaEntries.mp hentry with ⟨e, he, rfl⟩ | ⟨e, he, rfl⟩ <;>
    rcases mem_schemaEntries.mp hother with ⟨e', he', rfl⟩ | ⟨e', he', rfl⟩
  · rw [inj_on_of_nodup_map hnodup (hmem hblock he) (hmem hblock' he') heq]
  · exact hlast hblock hblock' he he' heq
  · exact (hlast hblock' hblock he' he heq.symm).symm
  · obtain rfl := inj_on_of_nodup_map hn hblock hblock' heq
    rw [Option.some.inj (he.symm.trans he')]

theorem finishBlocks_eq (hne : ∀ block ∈ blocks, block.2 ≠ []) :
    finishBlocks state blocks = {
      nodePlanIds := planIdsAfter state.nodePlanIds blocks
      planNodes := insertAll state.planNodes (chainEntries state.previous (emissions blocks))
      nodeSchemas := insertAll state.nodeSchemas (blocks.flatMap schemaEntries)
      workingSchema := schemaAfter state.workingSchema (emissions blocks)
      previous := lastId state.previous (emissions blocks) } := by
  induction blocks generalizing state with
  | nil => rfl
  | cons block blocks ih =>
    have hblock := hne block (by simp)
    obtain ⟨last, hlast⟩ : ∃ last, block.2.getLast? = some last := by
      cases hlast : block.2.getLast? with
      | none => exact absurd (getLast?_eq_none_iff.mp hlast) hblock
      | some last => exact ⟨last, rfl⟩
    rw [finishBlocks, foldl_cons]
    refine (ih fun other hother => hne other (mem_cons_of_mem _ hother)).trans ?_
    have hid : (lastId none block.2).getD block.1 = last.id := by
      rw [lastId, hlast]
      rfl
    have hprev : lastId state.previous block.2 = some last.id := by
      rw [lastId, hlast]
      rfl
    have hschema : schemaAfter state.workingSchema block.2 = last.schema := by
      rw [schemaAfter, hlast]
      rfl
    simp only [CompileState.finishBlock, CompileState.emitAll, hid, hschema, emissions,
      flatMap_cons, planIdsAfter, foldl_cons, CompileState.mk.injEq, true_and]
    refine ⟨?_, ?_, ?_, ?_⟩
    · rw [chainEntries_append, insertAll_append, hprev]
    · rw [insertAll_append, schemaEntries, insertAll_append, hlast]
      rfl
    · exact (schemaAfter_append hschema).symm
    · exact (lastId_append hprev).symm

end Stillflow.Plan
