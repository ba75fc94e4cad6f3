import Stillflow.Engine.CompiledChain

/-! The size of a compiled plan. -/

namespace Stillflow.Engine

open Stillflow.Core Stillflow.Plan Lib Lib.Fallible Lib.Maps

/-- The plan nodes that a node of this type expands to; an unregistered type has none. -/
def nodeExpansion (registry : NodeRegistry) (node : NodeConfig) : Nat :=
  match registry.lookup node.typeId node.configVersion with
  | .ok definition => definition.expansionSize
  | .error _ => 0

def expandedSize (registry : NodeRegistry) (graph : NodeGraph) : Nat :=
  (graph.nodes.map (nodeExpansion registry)).sum

variable {serde : Serde} {registry : NodeRegistry} {graph : NodeGraph}
  {source : AuthorizedSourceContext} {compiled : CompiledNodeGraph} {configs : Configs}
  {path : List NodeId} {working : LogicalSchema} {blocks : List (NodeId × List Emission)}

theorem steps_eq_expandedSize (hreg : Registered serde registry)
    (h : graph.validatedConfigs serde registry = .ok configs) :
    (graph.nodeIds.map fun nodeId => (nodeSteps configs nodeId).length).sum =
      expandedSize registry graph := by
  rw [NodeGraph.nodeIds, List.map_map, expandedSize]
  refine congrArg List.sum (List.map_congr_left fun node hnode => ?_)
  obtain ⟨definition, config, hlookup, hconfig, hsteps, -⟩ := config_of_validated hreg h node hnode
  rw [Function.comp_apply, nodeSteps_length hconfig, hsteps, nodeExpansion, hlookup]

theorem size_of_lowered (hreg : Registered serde registry)
    (h : Lowered serde registry graph source compiled configs path working blocks) :
    compiled.plan.nodes.size = expandedSize registry graph := by
  have hids : ((chainEntries none (emissions blocks)).map Prod.fst).Nodup := by
    rw [chainEntries_fst]
    exact h.ids_nodup hreg
  calc compiled.plan.nodes.size
      = (chainEntries none (emissions blocks)).length := by
        rw [(h.maps_eq hreg).2.1, ← Std.ExtTreeMap.length_toList]
        exact (toList_insertAll_perm hids).length_eq
    _ = (emissions blocks).length := by
        rw [← List.length_map Prod.fst, chainEntries_fst, List.length_map]
    _ = (path.map fun nodeId => (nodeSteps configs nodeId).length).sum := by
        rw [emissions_length h.lower_eq, List.length_flatMap]
    _ = (graph.nodeIds.map fun nodeId => (nodeSteps configs nodeId).length).sum :=
        (h.path_perm.map _).sum_eq
    _ = expandedSize registry graph := steps_eq_expandedSize hreg h.validated

/-- A compiled plan is within the engine's bound exactly when the expanded graph is. -/
theorem compile_planBound_iff {toVec : LogicalPlan → Except String (List UInt8)}
    {target : CompileTarget} (hreg : Registered serde registry)
    (h : compile serde toVec registry graph source target = .ok compiled) :
    (compiled.plan.nodes.size ≤ maxPlanNodes ∧ checkPlanNodeCount compiled.plan = .ok ()) ↔
      expandedSize registry graph ≤ maxPlanNodes := by
  obtain ⟨configs, path, working, blocks, hlow⟩ := compile_eq_ok h
  have hsize := size_of_lowered hreg hlow
  have hroot : compiled.plan.nodes.isEmpty = false := by
    have hvalid := hlow.plan_valid
    obtain ⟨_, _, hvalid⟩ := of_bind hvalid
    obtain ⟨_, hroot, _⟩ := of_bind hvalid
    refine Std.ExtTreeMap.isEmpty_eq_false_iff.mpr fun hempty => ?_
    simp [hempty] at hroot
  rw [checkPlanNodeCount, require_eq_ok, hroot, hsize]
  simp

/-- Source, one trim-clean composite, output: four plan nodes. -/
theorem compile_planBound_trimClean : ∃ compiled,
    compile sampleSerde (fun _ => .ok []) (deployed [trimCleanPackage])
      (linearGraph 1 2 3 [columnNode "stillflow.composite.trim-clean" 0x40000]) sampleSource
      .execution = .ok compiled ∧
    compiled.plan.nodes.size ≤ maxPlanNodes ∧ checkPlanNodeCount compiled.plan = .ok () := by
  obtain ⟨compiled, hcompiled⟩ := exists_of_isOk compile_trimClean_isOk
  refine ⟨compiled, hcompiled, (compile_planBound_iff (registered_deployed _) hcompiled).mpr ?_⟩
  decide +kernel

/-- A package of four trims of its column. -/
def trimFourPackage : NodePackage :=
  { trimCleanPackage with
    name := "trim-four"
    typeId := "stillflow.composite.trim-four"
    expansion := List.replicate 4 ⟨"stillflow.node.trim", {("column", .identity)}⟩ }

/-- Eighteen product nodes, sixteen of them composites of four steps. -/
def trimFourGraph : NodeGraph :=
  linearGraph 1 2 3 ((List.range 16).map fun i =>
    columnNode "stillflow.composite.trim-four" (BitVec.ofNat 128 (0x10000 * (i + 1))))

/-- The compiler accepts the graph and the engine refuses its 66 plan nodes. -/
theorem compile_exceeds_planBound : ∃ compiled,
    compile sampleSerde (fun _ => .ok []) (deployed [trimFourPackage]) trimFourGraph sampleSource
      .execution = .ok compiled ∧
    compiled.plan.nodes.size = 66 ∧
    checkPlanNodeCount compiled.plan =
      .error (.boundExceeded "plan node count is outside the authorized range") := by
  have hok : (compile sampleSerde (fun _ => .ok []) (deployed [trimFourPackage]) trimFourGraph
      sampleSource .execution).isOk = true := by decide +kernel
  have hsize : expandedSize (deployed [trimFourPackage]) trimFourGraph = 66 := by decide +kernel
  obtain ⟨compiled, hcompiled⟩ := exists_of_isOk hok
  obtain ⟨configs, path, working, blocks, hlow⟩ := compile_eq_ok hcompiled
  have hplan := (size_of_lowered (registered_deployed _) hlow).trans hsize
  refine ⟨compiled, hcompiled, hplan, require_eq_error.mpr ⟨?_, rfl⟩⟩
  rw [hplan]
  simp [maxPlanNodes]

end Stillflow.Engine
