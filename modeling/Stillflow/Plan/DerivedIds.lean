import Stillflow.Plan.NodeLoop

/-!
The plan ids of expansions, and what the product-to-plan map holds of them: an expanded node is
represented by its last derived id only.
-/

namespace Stillflow.Plan

open Stillflow.Core Lib Lib.Fallible Lib.Maps List

variable {graph : NodeGraph} {configs : Configs} {path : List NodeId} {p q : NodeId} {i j : Nat}

/-- The part of an id that deriving keeps. -/
def idBase (id : Uuid) : Uuid := id &&& ~~~(0xFFFF : Uuid)

theorem mask_getLsbD (b : Fin 128) :
    (~~~(0xFFFF : Uuid)).getLsbD b = decide (16 ≤ (b : Nat)) := by
  revert b
  decide

theorem flag_getLsbD (b : Fin 128) : (0x8000 : Uuid).getLsbD b = decide ((b : Nat) = 15) := by
  revert b
  decide

theorem internal_getLsbD (product : PlanNodeId) (ordinal : UInt16) (b : Fin 128) :
    (internalPlanNodeId product ordinal).getLsbD b =
      (product.getLsbD b && decide (16 ≤ (b : Nat)) || decide ((b : Nat) = 15) ||
        ordinal.toBitVec.getLsbD b) := by
  unfold internalPlanNodeId
  rw [BitVec.getLsbD_or, BitVec.getLsbD_or, BitVec.getLsbD_and, mask_getLsbD, flag_getLsbD,
    BitVec.getLsbD_setWidth]
  simp

theorem idBase_internal (product : PlanNodeId) (ordinal : UInt16) :
    idBase (internalPlanNodeId product ordinal) = idBase product := by
  unfold idBase
  refine BitVec.eq_of_getLsbD_eq fun b hb => ?_
  rw [BitVec.getLsbD_and, BitVec.getLsbD_and, internal_getLsbD product ordinal ⟨b, hb⟩,
    mask_getLsbD ⟨b, hb⟩]
  by_cases h16 : 16 ≤ b
  · have h15 : b ≠ 15 := by omega
    simp [h16, h15]
  · simp [h16]

theorem internal_congr (h : idBase p = idBase q) (ordinal : UInt16) :
    internalPlanNodeId p ordinal = internalPlanNodeId q ordinal := by
  unfold internalPlanNodeId
  unfold idBase at h
  rw [h]

theorem ordinal_getLsbD {b : Nat} (hb : b < 16) :
    (UInt16.ofNat i).toBitVec.getLsbD b = i.testBit b := by
  rw [UInt16.toBitVec_ofNat', BitVec.getLsbD_ofNat]
  simp [hb]

theorem testBit_of_lt (hi : i < 2 ^ 15) {b : Nat} (hb : 15 ≤ b) : i.testBit b = false :=
  Nat.testBit_lt_two_pow (hi.trans_le (Nat.pow_le_pow_right (by omega) hb))

/-- Ordinals below the flag bit can be read back. -/
theorem internal_eq_iff (hi : i < 2 ^ 15) (hj : j < 2 ^ 15) :
    internalPlanNodeId p (UInt16.ofNat i) = internalPlanNodeId q (UInt16.ofNat j) ↔
      idBase p = idBase q ∧ i = j := by
  constructor
  · intro h
    refine ⟨?_, ?_⟩
    · rw [← idBase_internal p, h, idBase_internal]
    · refine Nat.eq_of_testBit_eq fun b => ?_
      by_cases hb : b < 15
      · have hp := internal_getLsbD p (UInt16.ofNat i) ⟨b, by omega⟩
        rw [h, internal_getLsbD q (UInt16.ofNat j) ⟨b, by omega⟩] at hp
        have h16 : ¬16 ≤ b := by omega
        have h15 : b ≠ 15 := by omega
        simpa [h16, h15, ordinal_getLsbD (show b < 16 by omega)] using hp.symm
      · rw [testBit_of_lt hi (by omega), testBit_of_lt hj (by omega)]
  · rintro ⟨hbase, rfl⟩
    exact internal_congr hbase _

/-- Number of plan nodes an expansion derives ids for. -/
def expansionLength (configs : Configs) (nodeId : NodeId) : Nat :=
  (nodeSteps configs nodeId).length

/-- `id` is the `i`-th derived id of the composite `p`. -/
def Derives (configs : Configs) (path : List NodeId) (p : NodeId) (i : Nat) : Prop :=
  p ∈ path ∧ isCompositeNode configs p = true ∧ i < expansionLength configs p

/-- A derived id of `p` is a product id, or another derived id. -/
def Collides (configs : Configs) (path : List NodeId) (p : NodeId) : Prop :=
  ∃ i, Derives configs path p i ∧
    (internalPlanNodeId p (UInt16.ofNat i) ∈ path ∨
      ∃ q j, Derives configs path q j ∧ (q, j) ≠ (p, i) ∧
        internalPlanNodeId q (UInt16.ofNat j) = internalPlanNodeId p (UInt16.ofNat i))

/-- A derived id is a product id, or an expansion shares its base with an earlier one that is not
longer. -/
def Caught (configs : Configs) (path : List NodeId) : Prop :=
  (∃ p i, Derives configs path p i ∧ internalPlanNodeId p (UInt16.ofNat i) ∈ path) ∨
    ∃ before q between p after, path = before ++ q :: (between ++ p :: after) ∧
      isCompositeNode configs q = true ∧ isCompositeNode configs p = true ∧
      idBase q = idBase p ∧ expansionLength configs q ≤ expansionLength configs p

/-- Expansions are not empty and short enough for their ordinals. -/
def BoundedExpansions (configs : Configs) (path : List NodeId) : Prop :=
  ∀ p ∈ path, 0 < expansionLength configs p ∧ expansionLength configs p ≤ maxExpansionSteps

variable {sourceAssetId : Uuid} {schema : LogicalSchema} {blocks : List (NodeId × List Emission)}

def emittedIds (configs : Configs) (nodeId : NodeId) : List PlanNodeId :=
  if isCompositeNode configs nodeId = true then
    (List.range (expansionLength configs nodeId)).map fun i =>
      internalPlanNodeId nodeId (UInt16.ofNat i)
  else [nodeId]

theorem lowerNode_ids {es : List Emission}
    (h : lowerNode graph configs sourceAssetId p schema = .ok es) :
    es.map Emission.id = emittedIds configs p := by
  have hlength := lowerNode_length h
  unfold lowerNode at h
  cases hconfig : configs[p]? with
  | none =>
    rw [hconfig] at h
    cases h
  | some config =>
    rw [hconfig] at h
    rw [emittedIds, isCompositeNode_eq hconfig]
    cases config with
    | composite steps =>
      rw [ValidatedNodeConfig.isComposite, if_pos rfl, (lowerSteps_ids h).2, expansionLength,
        ← hlength, range_eq_range']
    | _ =>
      obtain ⟨⟨kind, next⟩, -, h⟩ := of_bind h
      cases h
      rfl

theorem lowerPath_ids (h : lowerPath graph configs sourceAssetId path schema = .ok blocks) :
    ∀ block ∈ blocks, block.2.map Emission.id = emittedIds configs block.1 := by
  induction path generalizing schema blocks with
  | nil =>
    cases h
    simp
  | cons nodeId path ih =>
    rw [lowerPath] at h
    obtain ⟨block, hblock, h⟩ := of_bind h
    obtain ⟨rest, hrest, h⟩ := of_bind h
    cases h
    exact forall_mem_cons.mpr ⟨lowerNode_ids hblock, ih hrest⟩

/-- The id a node is mapped to once it was lowered. -/
def mappedId (configs : Configs) (nodeId : NodeId) : PlanNodeId :=
  if isCompositeNode configs nodeId = true then
    internalPlanNodeId nodeId (UInt16.ofNat (expansionLength configs nodeId - 1))
  else nodeId

theorem lastId_eq_mappedId {block : NodeId × List Emission}
    (hids : block.2.map Emission.id = emittedIds configs block.1)
    (hpos : 0 < expansionLength configs block.1) :
    (lastId none block.2).getD block.1 = mappedId configs block.1 := by
  rw [lastId_none, hids, emittedIds, mappedId]
  split_ifs with hcomposite
  · obtain ⟨n, hn⟩ := Nat.exists_eq_succ_of_ne_zero hpos.ne'
    rw [hn, range_succ, map_append, map_singleton, getLast?_concat]
    rfl
  · rfl

theorem mem_of_initialPlanIds (hn : path.Nodup) {key id : Uuid}
    (h : (initialPlanIds path)[key]? = some id) : id = key ∧ key ∈ path := by
  by_cases hmem : key ∈ path
  · rw [getElem?_initialPlanIds hn hmem] at h
    exact ⟨(Option.some.inj h).symm, hmem⟩
  · have hentries : initialPlanIds path = insertAll ∅ (path.map fun id => (id, id)) := by
      rw [initialPlanIds, insertAll, foldl_map]
    rw [hentries, getElem?_insertAll_of_notMem (by simpa using hmem)] at h
    simp at h

/-- Blocks as they are emitted along a path. -/
structure EmittedBlocks (configs : Configs) (blocks : List (NodeId × List Emission)) : Prop where
  nodup : (blocks.map Prod.fst).Nodup
  ids : ∀ block ∈ blocks, block.2.map Emission.id = emittedIds configs block.1
  bounded : BoundedExpansions configs (blocks.map Prod.fst)

theorem EmittedBlocks.mappedId_eq (h : EmittedBlocks configs blocks)
    {block : NodeId × List Emission} (hblock : block ∈ blocks) :
    (lastId none block.2).getD block.1 = mappedId configs block.1 :=
  lastId_eq_mappedId (h.ids block hblock)
    (h.bounded block.1 (mem_map.mpr ⟨block, hblock, rfl⟩)).1

/-- The values of the map before a node: the mapped ids of the nodes before it, and the product ids
of the others. -/
theorem EmittedBlocks.mem_values {before after : List (NodeId × List Emission)}
    (h : EmittedBlocks configs (before ++ after)) {id : PlanNodeId} :
    id ∈ values (planIdsAfter (initialPlanIds ((before ++ after).map Prod.fst)) before) ↔
      (∃ q ∈ before.map Prod.fst, id = mappedId configs q) ∨ id ∈ after.map Prod.fst := by
  have hn := h.nodup
  have hpath := hn
  rw [map_append, nodup_append] at hn
  -- the entry of a node that was lowered, and of one that was not
  have hdone : ∀ block ∈ before, (planIdsAfter (initialPlanIds ((before ++ after).map Prod.fst))
      before)[block.1]? = some (mappedId configs block.1) := by
    intro block hblock
    obtain ⟨earlier, later, rfl⟩ := append_of_mem hblock
    have hlater : block.1 ∉ later.map Prod.fst := by
      have hbefore := hn.1
      rw [map_append, nodup_append, map_cons, nodup_cons] at hbefore
      exact hbefore.2.1.1
    have hmapped := h.mappedId_eq (mem_append_left after hblock)
    rw [← hmapped]
    exact getElem?_planIdsAfter hlater
  have hopen : ∀ key, key ∉ before.map Prod.fst →
      (planIdsAfter (initialPlanIds ((before ++ after).map Prod.fst)) before)[key]? =
        (initialPlanIds ((before ++ after).map Prod.fst))[key]? :=
    fun key hkey => getElem?_planIdsAfter_of_notMem hkey
  rw [mem_values_iff]
  constructor
  · rintro ⟨key, hkey⟩
    by_cases hbefore : key ∈ before.map Prod.fst
    · obtain ⟨block, hblock, rfl⟩ := mem_map.mp hbefore
      rw [hdone block hblock] at hkey
      exact .inl ⟨block.1, hbefore, (Option.some.inj hkey).symm⟩
    · rw [hopen key hbefore] at hkey
      obtain ⟨rfl, hmem⟩ := mem_of_initialPlanIds hpath hkey
      rw [map_append, mem_append] at hmem
      exact .inr (hmem.resolve_left hbefore)
  · rintro (⟨q, hq, rfl⟩ | hafter)
    · obtain ⟨block, hblock, rfl⟩ := mem_map.mp hq
      exact ⟨block.1, hdone block hblock⟩
    · have hbefore : id ∉ before.map Prod.fst := fun hmem => hn.2.2 id hmem id hafter rfl
      refine ⟨id, (hopen id hbefore).trans (getElem?_initialPlanIds hpath ?_)⟩
      rw [map_append]
      exact mem_append_right _ hafter

end Stillflow.Plan
