import Stillflow.Engine.Error
import Stillflow.Lib.Trail
import Stillflow.Plan.LogicalPlan

/-! The engine's view of a plan as one chain from its scan to its materialize node. -/

namespace Stillflow.Engine

open Stillflow.Core Stillflow.Plan Lib Lib.Fallible

def maxPlanNodes : Nat := 64

/-- The node count gate of preflight. -/
def checkPlanNodeCount (plan : LogicalPlan) : Except EngineError Unit :=
  require (¬(plan.nodes.isEmpty = true ∨ plan.nodes.size > maxPlanNodes))
    (.boundExceeded "plan node count is outside the authorized range")

def isScan : PlanNodeKind → Bool
  | .scan _ _ _ => true
  | _ => false

def isMaterialize : PlanNodeKind → Bool
  | .materialize _ => true
  | _ => false

abbrev Children := Std.ExtTreeMap PlanNodeId (List PlanNodeId)

/-- Scans, materializes and readers found so far. -/
structure PlanScan where
  scans : List PlanNodeId := []
  materializes : List PlanNodeId := []
  children : Children := ∅

/-- One node of the classification loop. -/
def classify (scan : PlanScan) (entry : PlanNodeId × PlanNode) : Except EngineError PlanScan := do
  let scans := if isScan entry.2.kind then scan.scans ++ [entry.1] else scan.scans
  let materializes :=
    if isMaterialize entry.2.kind then scan.materializes ++ [entry.1] else scan.materializes
  if isScan entry.2.kind then
    require (entry.2.inputs = []) (EngineError.invalidPlan "scan must not have inputs")
    return ⟨scans, materializes, scan.children⟩
  else match entry.2.inputs with
    | [parent] => return ⟨scans, materializes, scan.children.alter parent fun readers =>
        some (readers.getD [] ++ [entry.1])⟩
    | _ => .error (.unsupportedOperator entry.1 entry.2.kind.name)

def chainTrail (plan : LogicalPlan) (children : Children) :
    Trail PlanNodeId PlanNode EngineError where
  visit id :=
    match plan.nodes[id]? with
    | some node => .ok node
    | none => .error (.invalidPlan "missing plan node")
  next id :=
    match children[id]? with
    | none => .error (.invalidPlan "disconnected plan node")
    | some [next] => .ok next
    | some _ => .error (.invalidPlan "plan path is not linear")
  cycle _ := .invalidPlan "plan path is cyclic"
  stop := plan.root
  keys := children.keys
  next_mem {id target} h := by
    rw [Std.ExtTreeMap.mem_keys, Std.ExtTreeMap.mem_iff_isSome_getElem?]
    cases hget : children[id]? with
    | none => simp [hget] at h
    | some readers => rfl

def linearize (plan : LogicalPlan) : Except EngineError (List (PlanNodeId × PlanNode)) := do
  let scan ← plan.nodes.toList.foldlM classify {}
  match scan.scans, scan.materializes with
  | [start], [finish] => do
    require (plan.root = finish) (.invalidPlan "root must be the materialize node")
    let path ← (chainTrail plan scan.children).follow start
    require (path.length = plan.nodes.size) (.invalidPlan "disconnected plan node")
    return path
  | _, _ => .error (.invalidPlan "plan must contain exactly one scan and one materialize")

end Stillflow.Engine
