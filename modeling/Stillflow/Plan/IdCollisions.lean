import Stillflow.Plan.DerivedIds

/-! Collisions of derived plan ids. -/

namespace Stillflow.Plan

open Stillflow.Core Lib Lib.Fallible Lib.Maps List

variable {graph : NodeGraph} {configs : Configs} {path : List NodeId} {p q : NodeId} {i j : Nat}
  {blocks : List (NodeId × List Emission)}

theorem firstStale_eq_none {planIds : Std.ExtTreeMap NodeId PlanNodeId} :
    firstStale configs planIds blocks = none ↔ ∀ before block after,
      blocks = before ++ block :: after →
        isStale configs (planIdsAfter planIds before) block = false := by
  induction blocks generalizing planIds with
  | nil => simp [firstStale]
  | cons block blocks ih =>
    rw [firstStale]
    cases hstale : isStale configs planIds block with
    | true =>
      constructor
      · intro h
        cases h
      · intro h
        have hfirst : isStale configs planIds block = false := h [] block blocks rfl
        rw [hfirst] at hstale
        cases hstale
    | false =>
      refine ih.trans ⟨fun h before other after hsplit => ?_, fun h before other after hsplit => ?_⟩
      · cases before with
        | nil =>
          cases hsplit
          exact hstale
        | cons first before =>
          cases hsplit
          exact h before other after rfl
      · exact h (block :: before) other after (by rw [hsplit]; rfl)

theorem firstStale_eq_some {planIds : Std.ExtTreeMap NodeId PlanNodeId}
    (h : firstStale configs planIds blocks = some p) :
    ∃ before es after, blocks = before ++ (p, es) :: after ∧
      isStale configs (planIdsAfter planIds before) (p, es) = true := by
  induction blocks generalizing planIds with
  | nil => cases h
  | cons block blocks ih =>
    rw [firstStale] at h
    cases hstale : isStale configs planIds block with
    | true =>
      rw [hstale] at h
      cases h
      exact ⟨[], block.2, blocks, rfl, hstale⟩
    | false =>
      rw [hstale] at h
      obtain ⟨before, es, after, rfl, hes⟩ := ih h
      exact ⟨block :: before, es, after, rfl, hes⟩

theorem EmittedBlocks.isStale_iff {before after : List (NodeId × List Emission)}
    {es : List Emission} (h : EmittedBlocks configs (before ++ (p, es) :: after)) :
    isStale configs
        (planIdsAfter (initialPlanIds ((before ++ (p, es) :: after).map Prod.fst)) before) (p, es) =
        true ↔
      isCompositeNode configs p = true ∧ ∃ i < expansionLength configs p,
        (∃ q ∈ before.map Prod.fst,
          internalPlanNodeId p (UInt16.ofNat i) = mappedId configs q) ∨
        internalPlanNodeId p (UInt16.ofNat i) ∈ p :: after.map Prod.fst := by
  rw [isStale, Bool.and_eq_true]
  refine and_congr_right fun hcomposite => ?_
  have hids := h.ids (p, es) (by simp)
  simp only [emittedIds, hcomposite, if_true] at hids
  constructor
  · intro hany
    obtain ⟨e, he, hused⟩ := any_eq_true.mp hany
    have hid : e.id ∈ es.map Emission.id := mem_map.mpr ⟨e, he, rfl⟩
    rw [hids] at hid
    obtain ⟨i, hi, hei⟩ := mem_map.mp hid
    have hvalues := h.mem_values.mp (of_decide_eq_true hused)
    rw [← hei] at hvalues
    exact ⟨i, mem_range.mp hi, by simpa using hvalues⟩
  · rintro ⟨i, hi, hused⟩
    have hid : internalPlanNodeId p (UInt16.ofNat i) ∈ es.map Emission.id := by
      rw [hids]
      exact mem_map.mpr ⟨i, mem_range.mpr hi, rfl⟩
    obtain ⟨e, he, hei⟩ := mem_map.mp hid
    refine any_eq_true.mpr ⟨e, he, decide_eq_true (h.mem_values.mpr ?_)⟩
    rw [hei]
    simpa using hused

theorem BoundedExpansions.lt (h : BoundedExpansions configs path) (hp : p ∈ path)
    (hi : i < expansionLength configs p) : i < 2 ^ 15 := by
  have hle := (h p hp).2
  unfold maxExpansionSteps at hle
  omega

/-- A stale expansion is in a collision that counts as caught. -/
theorem EmittedBlocks.caught_of_stale (h : EmittedBlocks configs blocks)
    (hstale : firstStale configs (initialPlanIds (blocks.map Prod.fst)) blocks = some p) :
    Collides configs (blocks.map Prod.fst) p ∧ Caught configs (blocks.map Prod.fst) := by
  obtain ⟨before, es, after, rfl, hes⟩ := firstStale_eq_some hstale
  obtain ⟨hcomposite, i, hi, hused⟩ := h.isStale_iff.mp hes
  have hpath : (before ++ (p, es) :: after).map Prod.fst =
      before.map Prod.fst ++ p :: after.map Prod.fst := by simp
  have hp : p ∈ (before ++ (p, es) :: after).map Prod.fst := by simp
  have hderives : Derives configs ((before ++ (p, es) :: after).map Prod.fst) p i :=
    ⟨hp, hcomposite, hi⟩
  -- a collision with a product id
  have hproduct : internalPlanNodeId p (UInt16.ofNat i) ∈
      (before ++ (p, es) :: after).map Prod.fst →
      Collides configs ((before ++ (p, es) :: after).map Prod.fst) p ∧
        Caught configs ((before ++ (p, es) :: after).map Prod.fst) :=
    fun hmem => ⟨⟨i, hderives, .inl hmem⟩, .inl ⟨p, i, hderives, hmem⟩⟩
  rcases hused with ⟨q, hq, heq⟩ | hmem
  · have hqpath : q ∈ (before ++ (p, es) :: after).map Prod.fst := by
      rw [hpath]
      exact mem_append_left _ hq
    unfold mappedId at heq
    split_ifs at heq with hcq
    · have hpos := (h.bounded q hqpath).1
      have hj : expansionLength configs q - 1 < expansionLength configs q := by omega
      obtain ⟨hbase, hij⟩ := (internal_eq_iff (h.bounded.lt hp hi) (h.bounded.lt hqpath hj)).mp heq
      have hne : q ≠ p := by
        intro hqp
        have hnodup := h.nodup
        rw [hpath, nodup_append] at hnodup
        exact hnodup.2.2 q hq p (by simp) hqp
      refine ⟨⟨i, hderives, .inr ⟨q, expansionLength configs q - 1, ⟨hqpath, hcq, hj⟩, ?_,
        heq.symm⟩⟩, .inr ?_⟩
      · intro hpair
        exact hne (Prod.ext_iff.mp hpair).1
      · obtain ⟨earlier, between, hsplit⟩ := append_of_mem hq
        refine ⟨earlier, q, between, p, after.map Prod.fst, ?_, hcq, hcomposite, hbase.symm,
          by omega⟩
        rw [hpath, hsplit]
        simp
    · exact hproduct (heq ▸ hqpath)
  · refine hproduct ?_
    rw [hpath]
    exact mem_append_right _ hmem

theorem EmittedBlocks.fresh (h : EmittedBlocks configs blocks)
    (hnone : firstStale configs (initialPlanIds (blocks.map Prod.fst)) blocks = none)
    {before after : List NodeId} (hpath : blocks.map Prod.fst = before ++ p :: after)
    (hcomposite : isCompositeNode configs p = true) (hi : i < expansionLength configs p) :
    (∀ q ∈ before, internalPlanNodeId p (UInt16.ofNat i) ≠ mappedId configs q) ∧
      internalPlanNodeId p (UInt16.ofNat i) ∉ p :: after := by
  obtain ⟨earlier, rest, rfl, rfl, hrest⟩ := map_eq_append_iff.mp hpath
  obtain ⟨⟨_, es⟩, later, rfl, rfl, rfl⟩ := map_eq_cons_iff.mp hrest
  have hstale := firstStale_eq_none.mp hnone earlier _ later rfl
  rw [Bool.eq_false_iff] at hstale
  constructor
  · intro q hq heq
    exact hstale (h.isStale_iff.mpr ⟨hcomposite, i, hi, .inl ⟨q, hq, heq⟩⟩)
  · intro hmem
    exact hstale (h.isStale_iff.mpr ⟨hcomposite, i, hi, .inr hmem⟩)

/-- Expansions with one base: the later one is stale if it reaches the last id of the earlier. -/
theorem EmittedBlocks.longer_first (h : EmittedBlocks configs blocks)
    (hnone : firstStale configs (initialPlanIds (blocks.map Prod.fst)) blocks = none)
    {before between after : List NodeId}
    (hpath : blocks.map Prod.fst = before ++ q :: (between ++ p :: after))
    (hq : isCompositeNode configs q = true) (hp : isCompositeNode configs p = true)
    (hbase : idBase q = idBase p) : expansionLength configs p < expansionLength configs q := by
  by_contra hle
  have hqpath : q ∈ blocks.map Prod.fst := by
    rw [hpath]
    simp
  have hpos := (h.bounded q hqpath).1
  have hsplit : blocks.map Prod.fst = (before ++ q :: between) ++ p :: after := by
    rw [hpath]
    simp
  have hlast : expansionLength configs q - 1 < expansionLength configs p := by omega
  refine (h.fresh hnone hsplit hp hlast).1 q (by simp) ?_
  rw [mappedId, if_pos hq]
  exact internal_congr hbase.symm _

theorem EmittedBlocks.not_caught (h : EmittedBlocks configs blocks)
    (hnone : firstStale configs (initialPlanIds (blocks.map Prod.fst)) blocks = none) :
    ¬Caught configs (blocks.map Prod.fst) := by
  rintro (⟨p, i, ⟨hpath, hcomposite, hi⟩, hproduct⟩ |
    ⟨before, q, between, p, after, hpath, hq, hp, hbase, hle⟩)
  · obtain ⟨before, after, hsplit⟩ := append_of_mem hpath
    obtain ⟨hbefore, hafter⟩ := h.fresh hnone hsplit hcomposite hi
    have hmem := hproduct
    rw [hsplit, mem_append] at hmem
    have hmem := hmem.resolve_right hafter
    -- an earlier node that is not mapped to its own id is an expansion with the base of `p`
    have hmapped := hbefore _ hmem
    unfold mappedId at hmapped
    split_ifs at hmapped with hcq
    · obtain ⟨earlier, between, hbetween⟩ := append_of_mem hmem
      have hpair : blocks.map Prod.fst =
          earlier ++ internalPlanNodeId p (UInt16.ofNat i) :: (between ++ p :: after) := by
        rw [hsplit, hbetween]
        simp
      have hbase := idBase_internal p (UInt16.ofNat i)
      have hlonger := h.longer_first hnone hpair hcq hcomposite hbase
      refine (h.fresh hnone hpair hcq (hi.trans hlonger)).2 ?_
      rw [internal_congr hbase]
      exact mem_cons_self
    · exact hmapped rfl
  · have hlonger := h.longer_first hnone hpath hq hp hbase
    omega

/-- Distinct expansions with one base emit under one id. -/
theorem EmittedBlocks.emitted_twice (h : EmittedBlocks configs blocks)
    (hcollides : Collides configs (blocks.map Prod.fst) p)
    (hfree : ¬Caught configs (blocks.map Prod.fst)) :
    ¬((emissions blocks).map Emission.id).Nodup := by
  obtain ⟨i, hp, hcase⟩ := hcollides
  rcases hcase with hproduct | ⟨q, j, hq, hne, heq⟩
  · exact absurd (.inl ⟨p, i, hp, hproduct⟩) hfree
  · obtain ⟨hbase, rfl⟩ := (internal_eq_iff (h.bounded.lt hq.1 hq.2.2)
      (h.bounded.lt hp.1 hp.2.2)).mp heq
    have hqp : q ≠ p := fun hqp => hne (by rw [hqp])
    obtain ⟨block, hblock, rfl⟩ := mem_map.mp hp.1
    obtain ⟨other, hother, rfl⟩ := mem_map.mp hq.1
    have hemitted : ∀ block ∈ blocks, Derives configs (blocks.map Prod.fst) block.1 j →
        internalPlanNodeId block.1 (UInt16.ofNat j) ∈ block.2.map Emission.id := by
      intro block hblock hderives
      rw [h.ids block hblock, emittedIds, if_pos hderives.2.1]
      exact mem_map.mpr ⟨j, mem_range.mpr hderives.2.2, rfl⟩
    intro hnodup
    rw [emissions, map_flatMap, nodup_flatMap] at hnodup
    have : Std.Symm (Function.onFun List.Disjoint fun block : NodeId × List Emission =>
        block.2.map Emission.id) := ⟨fun _ _ hdisjoint => hdisjoint.symm⟩
    have hne : other ≠ block := fun hsame => hqp (by rw [hsame])
    have hdisjoint := hnodup.2.forall hother hblock hne
    refine hdisjoint (hemitted other hother hq) ?_
    rw [heq]
    exact hemitted block hblock hp

variable {serde : Serde} {toVec : LogicalPlan → Except String (List UInt8)}
  {registry : NodeRegistry} {source : AuthorizedSourceContext} {target : CompileTarget}
  {working : LogicalSchema}

theorem expansionSize_le {definition : NodeDefinition}
    (h : Deployable serde definition) : definition.expansionSize ≤ maxExpansionSteps := by
  cases h with
  | builtin hmem =>
    rw [NodeDefinition.expansionSize, builtin_atomic hmem]
    exact Nat.le_of_ble_eq_true rfl
  | package _ hlength => exact hlength

theorem bounded_of_validated (hreg : Registered serde registry)
    (hvalidated : graph.validatedConfigs serde registry = .ok configs)
    (hconfigs : ∀ nodeId ∈ path, configs[nodeId]? ≠ none) : BoundedExpansions configs path := by
  intro p hp
  have hgraph : p ∈ graph.nodeIds := by
    by_contra habsent
    obtain ⟨scan, hscan, rfl⟩ := validatedConfigs_eq_ok hvalidated
    exact hconfigs p hp ((scanned_of_scanNodes hscan).absent p habsent).2
  obtain ⟨node, hnode, rfl⟩ := mem_map.mp hgraph
  obtain ⟨definition, config, hlookup, hconfig, hsize, hpos⟩ :=
    config_of_validated hreg hvalidated node hnode
  rw [expansionLength, nodeSteps_length hconfig]
  refine ⟨hpos, ?_⟩
  rw [hsize]
  exact expansionSize_le
    (deployable_of_registered hreg definition (NodeRegistry.lookup_eq_ok hlookup))

theorem Staged.emitted (hreg : Registered serde registry)
    (h : Staged serde registry graph source target configs path working)
    (hblocks : lowerPath graph configs source.sourceAssetId path working = .ok blocks) :
    EmittedBlocks configs blocks where
  nodup := by
    rw [lowerPath_fst hblocks]
    exact h.path_nodup
  ids := lowerPath_ids hblocks
  bounded := by
    rw [lowerPath_fst hblocks]
    exact bounded_of_validated hreg h.validated (lowerPath_config hblocks)

theorem finishPlan_repeated (toVec : LogicalPlan → Except String (List UInt8)) (graph : NodeGraph)
    {state : CompileState} {es : List Emission}
    (hnodes : state.planNodes = insertAll ∅ (chainEntries none es))
    (hrepeat : ¬(es.map Emission.id).Nodup) :
    ∃ cause, finishPlan toVec graph state = .error (planError cause) := by
  unfold finishPlan
  dsimp only
  cases hplan : LogicalPlan.new ((state.nodePlanIds[graph.outputNodeId]?).getD graph.outputNodeId)
      state.planNodes with
  | error cause => exact ⟨cause, rfl⟩
  | ok plan =>
    unfold LogicalPlan.new LogicalPlan.fromParts at hplan
    obtain ⟨_, hvalid, hplan⟩ := of_bind hplan
    have hranked := ranked_of_validate hvalid
    rw [hnodes] at hranked
    exact absurd (nodup_of_ranked hranked) hrepeat

/-- Two expansions share ids and the loop does not see it. -/
theorem Staged.compile_uncaught (toVec : LogicalPlan → Except String (List UInt8))
    (hreg : Registered serde registry)
    (h : Staged serde registry graph source target configs path working)
    (hblocks : lowerPath graph configs source.sourceAssetId path working = .ok blocks)
    (hcollides : Collides configs path p) (hfree : ¬Caught configs path) :
    ∃ cause, compile serde toVec registry graph source target = .error (planError cause) := by
  have hemitted := h.emitted hreg hblocks
  have hpath := lowerPath_fst hblocks
  have hnone : firstStale configs (initialPlanIds path) blocks = none := by
    cases hstale : firstStale configs (initialPlanIds path) blocks with
    | none => rfl
    | some q =>
      rw [← hpath] at hstale hfree
      exact absurd (hemitted.caught_of_stale hstale).2 hfree
  have hne : ∀ block ∈ blocks, block.2 ≠ [] := by
    intro block hblock
    refine ne_nil_of_length_pos ?_
    rw [lowerPath_lengths hblocks block hblock]
    exact (hemitted.bounded block.1 (mem_map.mpr ⟨block, hblock, rfl⟩)).1
  rw [← hpath] at hcollides hfree
  have hrepeat := hemitted.emitted_twice hcollides hfree
  have hnodes : (finishBlocks ⟨initialPlanIds path, ∅, ∅, working, none⟩ blocks).planNodes =
      insertAll ∅ (chainEntries none (emissions blocks)) := by
    rw [finishBlocks_eq hne]
  obtain ⟨cause, hcause⟩ := finishPlan_repeated toVec graph hnodes hrepeat
  refine ⟨cause, ?_⟩
  rw [h.compile_lowered hblocks, hnone]
  exact congrArg (· >>= _) hcause

/-- An otherwise valid graph with a collision of derived ids fails as contracted, with the node id
of an expansion that collides, exactly when the collision is one the loop can see. -/
theorem collision_reported (hreg : Registered serde registry)
    (h : Staged serde registry graph source target configs path working)
    (hblocks : lowerPath graph configs source.sourceAssetId path working = .ok blocks)
    (hcollides : ∃ p, Collides configs path p) :
    (∃ error p, compile serde toVec registry graph source target = .error error ∧
      error.code = .invalidConfig ∧ error.nodeId = some p ∧ Collides configs path p) ↔
      Caught configs path := by
  have hemitted := h.emitted hreg hblocks
  have hpath := lowerPath_fst hblocks
  constructor
  · rintro ⟨error, p, herror, hcode, -⟩
    by_contra hfree
    obtain ⟨q, hq⟩ := hcollides
    obtain ⟨cause, hcause⟩ := h.compile_uncaught toVec hreg hblocks hq hfree
    rw [herror] at hcause
    cases hcause
    cases hcode
  · intro hcaught
    cases hstale : firstStale configs (initialPlanIds path) blocks with
    | none =>
      rw [← hpath] at hstale hcaught
      exact absurd hcaught (hemitted.not_caught hstale)
    | some p =>
      refine ⟨collisionError p, p, ?_, rfl, rfl, ?_⟩
      · rw [h.compile_lowered hblocks, hstale]
      · rw [← hpath] at hstale ⊢
        exact (hemitted.caught_of_stale hstale).1

/-- The stages before the node loop, and the lowered path. -/
def stage (serde : Serde) (registry : NodeRegistry) (graph : NodeGraph)
    (source : AuthorizedSourceContext) (target : CompileTarget) : Except NodeGraphCompileError
      (Configs × List NodeId × LogicalSchema × List (NodeId × List Emission)) := do
  checkShapeWork graph
  source.schema.validate.mapError fun _ => .new .invalidConfig none "invalid schema"
  let configs ← (graph.validatedConfigs serde registry).mapError mapGraphError
  checkCompileWork graph configs (some source.schema)
  let path ← uniquePath graph
  let bound ← sourceConfig graph configs
  require (bound.1 = source.sourceAssetId) (.new .sourceBinding none "other asset")
  checkTarget graph configs target
  let working ← projectSourceSchema source.schema bound.2 graph.sourceNodeId
  let blocks ← lowerPath graph configs source.sourceAssetId path working
  return (configs, path, working, blocks)

theorem staged_of_stage
    (h : stage serde registry graph source target = .ok (configs, path, working, blocks)) :
    Staged serde registry graph source target configs path working ∧
      lowerPath graph configs source.sourceAssetId path working = .ok blocks := by
  unfold stage at h
  obtain ⟨_, hshape, h⟩ := of_bind h
  obtain ⟨_, hschema, h⟩ := of_bind h
  obtain ⟨_, hconfigs, h⟩ := of_bind h
  obtain ⟨_, hwork, h⟩ := of_bind h
  obtain ⟨_, hpath, h⟩ := of_bind h
  obtain ⟨bound, hsource, h⟩ := of_bind h
  obtain ⟨_, hasset, h⟩ := of_bind h
  obtain ⟨_, htarget, h⟩ := of_bind h
  obtain ⟨_, hworking, h⟩ := of_bind h
  obtain ⟨_, hblocks, h⟩ := of_bind h
  cases h
  have hconfig := sourceConfig_eq_ok hsource
  rw [show bound.1 = source.sourceAssetId from require_eq_ok.mp hasset] at hconfig
  exact ⟨⟨hshape, mapError_eq_ok.mp hschema, mapError_eq_ok.mp hconfigs, hwork, hpath, htarget,
    bound.2, hconfig, hworking⟩, hblocks⟩

/-- Three trims of one column. -/
def trimThricePackage : NodePackage :=
  { trimCleanPackage with
    name := "trim-thrice"
    typeId := "stillflow.composite.trim-thrice"
    expansion := List.replicate 3 ⟨"stillflow.node.trim", {("column", .identity)}⟩ }

/-- Two composites whose ids differ in the low bits only. -/
def siblingGraph (first second : String) : NodeGraph :=
  linearGraph 1 2 3 [columnNode first 0x40000, columnNode second 0x40001]

/-- The graph lowers, and its composites have this many steps. -/
def siblingsOk (first second : String) (lengths : Nat × Nat) : Bool :=
  match stage sampleSerde (deployed [trimCleanPackage, trimThricePackage])
    (siblingGraph first second) sampleSource .execution with
  | .ok (configs, path, _, _) =>
    decide (path = [2, 0x40000, 0x40001, 3]) && isCompositeNode configs 0x40000 &&
      isCompositeNode configs 0x40001 &&
      decide ((expansionLength configs 0x40000, expansionLength configs 0x40001) = lengths)
  | .error _ => false

theorem siblings_staged {first second : String} {lengths : Nat × Nat}
    (h : siblingsOk first second lengths = true) (hpos : 0 < lengths.1) (hpos' : 0 < lengths.2) :
    ∃ configs working blocks,
      Staged sampleSerde (deployed [trimCleanPackage, trimThricePackage])
        (siblingGraph first second) sampleSource .execution configs [2, 0x40000, 0x40001, 3]
        working ∧
      lowerPath (siblingGraph first second) configs sampleSource.sourceAssetId
        [2, 0x40000, 0x40001, 3] working = .ok blocks ∧
      Collides configs [2, 0x40000, 0x40001, 3] 0x40001 ∧
      (lengths.1 ≤ lengths.2 → Caught configs [2, 0x40000, 0x40001, 3]) := by
  unfold siblingsOk at h
  split at h
  · rename_i configs path working blocks hstage
    simp only [Bool.and_eq_true, decide_eq_true_eq] at h
    obtain ⟨⟨⟨rfl, hfirst⟩, hsecond⟩, rfl⟩ := h
    obtain ⟨hstaged, hblocks⟩ := staged_of_stage hstage
    refine ⟨configs, working, blocks, hstaged, hblocks, ?_, fun hle => .inr ?_⟩
    · exact ⟨0, ⟨by simp, hsecond, hpos'⟩, .inr ⟨0x40000, 0, ⟨by simp, hfirst, hpos⟩, by decide,
        by decide⟩⟩
    · exact ⟨[2], 0x40000, [], 0x40001, [3], rfl, hfirst, hsecond, by decide, hle⟩
  · cases h

/-- The longer composite first: its first id is emitted again, which only the plan check finds. -/
theorem shorter_sibling_planInvalid : ∃ configs working blocks,
    Staged sampleSerde (deployed [trimCleanPackage, trimThricePackage])
      (siblingGraph "stillflow.composite.trim-thrice" "stillflow.composite.trim-clean") sampleSource
      .execution configs [2, 0x40000, 0x40001, 3] working ∧
    lowerPath (siblingGraph "stillflow.composite.trim-thrice" "stillflow.composite.trim-clean")
      configs sampleSource.sourceAssetId [2, 0x40000, 0x40001, 3] working = .ok blocks ∧
    Collides configs [2, 0x40000, 0x40001, 3] 0x40001 ∧
    (compile sampleSerde (fun _ => .ok []) (deployed [trimCleanPackage, trimThricePackage])
      (siblingGraph "stillflow.composite.trim-thrice" "stillflow.composite.trim-clean") sampleSource
      .execution).map (fun _ => ()) = .error (.new .planInvalid none
        "compiled logical plan failed validation or canonicalization") := by
  have hsiblings : siblingsOk "stillflow.composite.trim-thrice" "stillflow.composite.trim-clean"
      (3, 2) = true := by decide +kernel
  obtain ⟨configs, working, blocks, hstaged, hblocks, hcollides, -⟩ :=
    siblings_staged hsiblings (by decide) (by decide)
  exact ⟨configs, working, blocks, hstaged, hblocks, hcollides, by decide +kernel⟩

/-- The shorter one first: the loop reports the later one. -/
theorem longer_sibling_reported : ∃ configs working,
    Staged sampleSerde (deployed [trimCleanPackage, trimThricePackage])
      (siblingGraph "stillflow.composite.trim-clean" "stillflow.composite.trim-thrice") sampleSource
      .execution configs [2, 0x40000, 0x40001, 3] working ∧
    ∃ error p, compile sampleSerde (fun _ => .ok [])
      (deployed [trimCleanPackage, trimThricePackage])
      (siblingGraph "stillflow.composite.trim-clean" "stillflow.composite.trim-thrice") sampleSource
      .execution = .error error ∧ error.code = .invalidConfig ∧ error.nodeId = some p ∧
      Collides configs [2, 0x40000, 0x40001, 3] p := by
  have hsiblings : siblingsOk "stillflow.composite.trim-clean" "stillflow.composite.trim-thrice"
      (2, 3) = true := by decide +kernel
  obtain ⟨configs, working, blocks, hstaged, hblocks, hcollides, hcaught⟩ :=
    siblings_staged hsiblings (by decide) (by decide)
  exact ⟨configs, working, hstaged, (collision_reported (registered_deployed _) hstaged hblocks
    ⟨_, hcollides⟩).mpr (hcaught (by decide))⟩

end Stillflow.Plan
