import Stillflow.Plan.Analysis
import Stillflow.Engine.Error

/-! The preflight's own bounded walk over an expression. -/

namespace Stillflow.Engine.Preflight
open Stillflow.Core Stillflow.Plan Lib.Fallible Lib.WorkStack Capability

def maxExprNodes : Nat := 1024

def maxExprDepth : Nat := 64

/-- What `validate_expr_iterative` checks of one node. -/
def checkExprNode : Expr → Except EngineError Unit
  | .literal (.utf8 value) => (Expr.literal (.utf8 value)).validateShape.mapError fun _ =>
    .invalidPlan "literal contains prohibited secret pattern"
  | .literal (.float64 value) =>
    require (value.bits >>> 52 &&& 0x7FF ≠ 0x7FF) (.invalidPlan "float literal is not finite")
  | .cast _ dataType =>
    dataType.validate.mapError fun _ => .invalidPlan "cast target data type is invalid"
  | .coalesce es | .concat es =>
    require (es ≠ []) (.invalidPlan "coalesce expression list is empty")
  | _ => .ok ()

/-- One iteration of `validate_expr_iterative`, counting nodes and the largest depth seen. -/
def validateExprNode (task : Expr × Nat) (seen : Nat × Nat) :
    Except EngineError (List (Expr × Nat) × (Nat × Nat)) := do
  let nodes := seen.1 + 1
  let maxDepth := max seen.2 task.2
  require (¬(nodes > maxExprNodes ∨ maxDepth > maxExprDepth))
    (EngineError.boundExceeded "expression exceeds node or depth limits")
  checkExprNode task.1
  return ((operands task.1).map (·, task.2 + 1), (nodes, maxDepth))

def exprIterativeWalk : Walk (Expr × Nat) (Nat × Nat) EngineError where
  visit := validateExprNode
  size task := task.1.weight
  size_pos := task_weight_pos
  size_lt {task seen ts seen'} h := by
    obtain ⟨-, -, h⟩ := of_bind h
    obtain ⟨-, -, h⟩ := of_bind h
    cases h
    exact operandTasks_weight task

def validateExprIterative (expr : Expr) : Except EngineError Unit := do
  let _ ← exprIterativeWalk.run [(expr, 1)] (0, 0)
  return ()

variable {e : Expr} {resolver : ColumnResolver} {r : LogicalType × Bool}

/-- The shape check covers every node check but the empty `Concat`, which inference refuses. -/
theorem checkExprNode_of_analyzeExpr (h : analyzeExpr e resolver = .ok r) :
    checkExprNode e = .ok () := by
  obtain ⟨hshape, -, hinfer⟩ := analyzeExpr_eq_ok.mp h
  obtain ⟨es, hnode, -⟩ := validateShape_node hshape
  cases e with
  | literal value =>
    cases value with
    | utf8 text => simpa [checkExprNode] using hshape
    | float64 value => simpa [checkExprNode] using value.finite
    | _ => rfl
  | cast e dataType =>
    obtain ⟨_, htype, -⟩ := of_bind hnode
    simpa [checkExprNode] using htype
  | coalesce es =>
    obtain ⟨_, hne, -⟩ := of_bind hnode
    simpa [checkExprNode] using hne
  | concat es =>
    obtain ⟨_, hlength, -⟩ := of_bind hinfer
    have hne : es ≠ [] := by
      rintro rfl
      simp at hlength
    simpa [checkExprNode] using hne
  | _ => rfl

theorem validateExprIterative_of_analyzeExpr (h : analyzeExpr e resolver = .ok r) :
    validateExprIterative e = .ok () := by
  obtain ⟨-, hbounds, -⟩ := analyzeExpr_eq_ok.mp h
  obtain ⟨seen, hrun, -⟩ := of_bind hbounds
  have hwalk := run_of_shapeBounds (W := exprIterativeWalk)
    (P := fun u => ∃ r, analyzeExpr u resolver = .ok r)
    (R := fun nodes seen => seen.1 = nodes ∧ seen.2 ≤ maxExprDepth)
    (fun ⟨r, hu⟩ v hv => analyzeExpr_operand hu hv) ?_ le_rfl ⟨r, h⟩ (s := (0, 0)) (by simp) hrun
  · obtain ⟨seen', hrun'⟩ := hwalk
    simp [validateExprIterative, hrun']
  · rintro u depth _ ⟨nodes, m⟩ ⟨r, hu⟩ ⟨rfl, hm⟩ hnodes hdepth
    have hb : ¬(nodes + 1 > maxExprNodes ∨ max m depth > maxExprDepth) := by
      simp only [maxExprNodes, maxExprDepth, Core.maxExprNodes, Core.maxExprDepth] at *
      omega
    refine ⟨(nodes + 1, max m depth), bind_eq_ok.mpr ⟨(), require_eq_ok.mpr hb, ?_⟩, rfl, by omega⟩
    exact bind_eq_ok.mpr ⟨(), checkExprNode_of_analyzeExpr hu, rfl⟩

/-- No other gate refuses an expression the analyzer lets through. -/
theorem analyzed_passes_every_gate (e : Expr) (resolver : ColumnResolver)
    (h : ∃ r, analyzeExpr e resolver = .ok r) :
    validateExprRefs e resolver = .ok () ∧ validateExprIterative e = .ok () ∧
      rejectPausedCapability e = .ok () ∧ rejectPausedCastsInExpr resolver e = .ok () := by
  obtain ⟨r, h⟩ := h
  obtain ⟨-, -, hinfer⟩ := analyzeExpr_eq_ok.mp h
  exact ⟨validateExprRefs_of_analyzeExpr h, validateExprIterative_of_analyzeExpr h,
    rejectPausedCapability_of_inferred ⟨r, hinfer⟩, rejectPausedCastsInExpr_of_analyzeExpr h⟩

def castColumn : Expr := .isNull (.cast (.column 0) .utf8) false

def integerColumns : ColumnResolver := fun id => some ⟨id, "a", .int64, true, ∅⟩

theorem castColumn_passes : validateExprRefs castColumn integerColumns = .ok () ∧
    validateExprIterative castColumn = .ok () ∧ rejectPausedCapability castColumn = .ok () ∧
    rejectPausedCastsInExpr integerColumns castColumn = .ok () :=
  analyzed_passes_every_gate castColumn integerColumns ⟨(.boolean, false), rfl⟩

end Stillflow.Engine.Preflight
