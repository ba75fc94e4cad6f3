import Stillflow.Plan.Lowering

/-! A valid plan ranks every node above its inputs. -/

namespace Stillflow.Plan

open Stillflow.Core Lib Lib.Fallible Lib.Maps List

/-- The nodes of a plan can be ranked so that every input ranks below its reader. -/
def Ranked (nodes : Std.ExtTreeMap PlanNodeId PlanNode) : Prop :=
  ∃ rank : PlanNodeId → Nat, ∀ id node, nodes[id]? = some node →
    ∀ input ∈ node.inputs, rank input < rank id

theorem ranked_of_validate {plan : LogicalPlan} (h : plan.validate = .ok ()) :
    Ranked plan.nodes := by
  unfold LogicalPlan.validate at h
  obtain ⟨_, _, h⟩ := of_bind h
  obtain ⟨_, _, h⟩ := of_bind h
  obtain ⟨_, _, h⟩ := of_bind h
  obtain ⟨visited, hrun, hvisited⟩ := of_bind h
  have hkeys : plan.inputTable.map Prod.fst = plan.nodes.keys := by
    rw [LogicalPlan.inputTable, map_map, ← Std.ExtTreeMap.map_fst_toList_eq_keys]
    rfl
  have hlength : plan.inputTable.length = plan.nodes.size := by
    rw [LogicalPlan.inputTable, length_map, Std.ExtTreeMap.length_toList]
  rw [require_eq_ok.mp hvisited, ← hlength] at hrun
  obtain ⟨rank, hrank⟩ := Kahn.run_ranked (hkeys ▸ Std.ExtTreeMap.nodup_keys)
    Std.ExtTreeMap.nodup_keys hrun
  refine ⟨rank, fun id node hnode input hinput => ?_⟩
  have hmem : (id, node) ∈ plan.nodes.toList :=
    Std.ExtTreeMap.mem_toList_iff_getElem?_eq_some.mpr hnode
  exact hrank (id, node.inputs) (mem_map.mpr ⟨_, hmem, rfl⟩) input hinput

theorem chainEntries_fst (previous : Option PlanNodeId) (es : List Emission) :
    (chainEntries previous es).map Prod.fst = es.map Emission.id := by
  induction es generalizing previous with
  | nil => rfl
  | cons e es ih => rw [chainEntries, map_cons, map_cons, ih]

theorem reads_within (nodes : Std.ExtTreeMap PlanNodeId PlanNode) (p : PlanNodeId)
    {es : List Emission} {id : PlanNodeId} (h : id ∈ es.map Emission.id) :
    ∃ node, (insertAll nodes (chainEntries (some p) es))[id]? = some node ∧
      ∃ input ∈ node.inputs, input = p ∨ input ∈ es.map Emission.id := by
  induction es generalizing nodes p with
  | nil => cases h
  | cons e es ih =>
    rw [chainEntries, insertAll_cons]
    by_cases hlater : id ∈ es.map Emission.id
    · obtain ⟨node, hnode, input, hinput, hin⟩ := ih _ _ hlater
      refine ⟨node, hnode, input, hinput, .inr ?_⟩
      rw [map_cons, mem_cons]
      exact hin
    · have hid : id = e.id := (mem_cons.mp h).resolve_right hlater
      refine ⟨⟨[p], e.kind⟩, ?_, p, by simp, .inl rfl⟩
      rw [getElem?_insertAll_of_notMem (by rwa [chainEntries_fst]), hid,
        Std.ExtTreeMap.getElem?_insert_self]
      rfl

theorem nodup_of_ranked {nodes : Std.ExtTreeMap PlanNodeId PlanNode}
    {previous : Option PlanNodeId} {es : List Emission}
    (h : Ranked (insertAll nodes (chainEntries previous es))) : (es.map Emission.id).Nodup := by
  induction es generalizing nodes previous with
  | nil => exact nodup_nil
  | cons e es ih =>
    rw [chainEntries, insertAll_cons] at h
    rw [map_cons, nodup_cons]
    refine ⟨fun hrepeat => ?_, ih h⟩
    obtain ⟨rank, hrank⟩ := h
    -- every id after `e` reads another one, so ranks would descend forever
    have hnone : ∀ n id, id ∈ es.map Emission.id → rank id = n → False := by
      intro n
      induction n using Nat.strong_induction_on with
      | _ n ihn =>
        intro id hid hn
        obtain ⟨node, hnode, input, hinput, hin⟩ :=
          reads_within (nodes.insert e.id ⟨previous.toList, e.kind⟩) e.id hid
        have hlt := hrank id node hnode input hinput
        have hmem : input ∈ es.map Emission.id := by
          rcases hin with rfl | hin
          · exact hrepeat
          · exact hin
        exact ihn (rank input) (hn ▸ hlt) input hmem rfl
    exact hnone _ e.id hrepeat rfl

end Stillflow.Plan
