import Stillflow.Core.Validate

/-! The logical expression language and its schema-free shape validation. -/

namespace Stillflow.Core

open Lib.Fallible Lib.WorkStack

/-- The bits of a finite `f64`, with negative zero replaced by zero. -/
structure FiniteF64 where
  bits : UInt64
  finite : bits >>> 52 &&& 0x7FF ≠ 0x7FF
  canonical : bits ≠ 0x8000000000000000
  deriving DecidableEq

inductive ScalarValue where
  | null
  | boolean (value : Bool)
  | int64 (value : Int64)
  | uint64 (value : UInt64)
  | float64 (value : FiniteF64)
  | utf8 (value : String)
  deriving DecidableEq

inductive UnaryOperator where
  | not
  | negate
  deriving DecidableEq

inductive BinaryOperator where
  | equal
  | notEqual
  | lessThan
  | lessThanOrEqual
  | greaterThan
  | greaterThanOrEqual
  | and
  | or
  | add
  | subtract
  | multiply
  | divide
  | modulo
  | contains
  deriving DecidableEq

inductive Expr where
  | column (id : ColumnId)
  | literal (value : ScalarValue)
  | unary (operator : UnaryOperator) (expression : Expr)
  | binary (left : Expr) (operator : BinaryOperator) (right : Expr)
  | isNull (expression : Expr) (negated : Bool)
  | cast (expression : Expr) (dataType : LogicalType)
  | coalesce (expressions : List Expr)
  | concat (expressions : List Expr)
  | conditional (predicate thenBranch otherwise : Expr)
  | substring (expression : Expr) (start length : UInt32)

def maxExprNodes : Nat := 1024

def maxExprDepth : Nat := 64

mutual

def Expr.weight : Expr → Nat
  | .column _ | .literal _ => 1
  | .unary _ e | .isNull e _ | .cast e _ | .substring e _ _ => e.weight + 1
  | .binary l _ r => l.weight + r.weight + 1
  | .conditional p t o => p.weight + t.weight + o.weight + 1
  | .coalesce es | .concat es => exprsWeight es + 1

def exprsWeight : List Expr → Nat
  | [] => 0
  | e :: es => e.weight + exprsWeight es

end

theorem Expr.weight_pos (e : Expr) : 0 < e.weight := by
  cases e <;> simp [Expr.weight]

theorem exprsWeight_eq_sum (es : List Expr) : exprsWeight es = (es.map Expr.weight).sum := by
  induction es with
  | nil => rfl
  | cons e es ih => simp [exprsWeight, ih]

/-- The operands the bounded walks push, top first. -/
def operands : Expr → List Expr
  | .column _ | .literal _ => []
  | .unary _ e | .isNull e _ | .cast e _ | .substring e _ _ => [e]
  | .binary left _ right => [right, left]
  | .conditional predicate thenBranch otherwise => [otherwise, thenBranch, predicate]
  | .coalesce es | .concat es => es.reverse

theorem operands_weight (e : Expr) : ((operands e).map Expr.weight).sum < e.weight := by
  cases e <;> simp [operands, Expr.weight, exprsWeight_eq_sum] <;> omega

/-! A task of a bounded walk is an expression with its depth. -/

theorem task_weight_pos (task : Expr × Nat) : 0 < task.1.weight := task.1.weight_pos

theorem operandTasks_weight (task : Expr × Nat) :
    (((operands task.1).map (·, task.2 + 1)).map fun t : Expr × Nat => t.1.weight).sum <
      task.1.weight := by
  simpa [Function.comp_def] using operands_weight task.1

/-- Induction on an expression through the operands the walks push. -/
theorem Expr.induction_operands {P : Expr → Prop} (step : ∀ e, (∀ u ∈ operands e, P u) → P e)
    (e : Expr) : P e := by
  induction hn : e.weight using Nat.strong_induction_on generalizing e with
  | _ n ih =>
    refine step e fun u hu => ih u.weight ?_ u rfl
    have hle : u.weight ≤ ((operands e).map Expr.weight).sum :=
      List.single_le_sum (by simp) _ (List.mem_map_of_mem hu)
    have hlt := operands_weight e
    omega

/-- One iteration of `Expr::validate_shape`; the pushed operands are listed top first. -/
def validateShapeNode (expression : Expr) : Except LogicalError (List Expr) :=
  match expression with
  | .column _ => return []
  | .literal (.utf8 value) => do
    require (isSecretValue value = false) .unsafeLiteral
    return []
  | .literal _ => return []
  | .unary _ e | .isNull e _ => return [e]
  | .cast e dataType => do
    dataType.validate
    return [e]
  | .binary left _ right => return [left, right]
  | .concat es => return es.reverse
  | .substring e start _ => do
    require (1 ≤ start) .substringStartBelowOne
    return [e]
  | .conditional p t o => return [p, t, o]
  | .coalesce es => do
    require (es ≠ []) .emptyCoalesce
    return es.reverse

theorem validateShapeNode_size {e : Expr} {es : List Expr} (h : validateShapeNode e = .ok es) :
    (es.map Expr.weight).sum < e.weight := by
  cases e with
  | literal v => cases v <;> simp only [validateShapeNode, bind_eq_ok, pure_eq_ok] at h <;>
      grind [Expr.weight]
  | coalesce es =>
    simp only [validateShapeNode, bind_eq_ok, pure_eq_ok] at h
    obtain ⟨-, -, h⟩ := h
    cases h
    simp [Expr.weight, exprsWeight_eq_sum]
  | concat es =>
    cases h
    simp [Expr.weight, exprsWeight_eq_sum]
  | _ =>
    simp only [validateShapeNode, bind_eq_ok, pure_eq_ok] at h
    grind [Expr.weight]

def validateShapeWalk : Walk Expr Unit LogicalError where
  visit e _ := do return (← validateShapeNode e, ())
  size := Expr.weight
  size_pos := Expr.weight_pos
  size_lt {e s es s'} h := by
    obtain ⟨es', he, hes⟩ := of_bind h
    cases hes
    exact validateShapeNode_size he

def Expr.validateShape (expression : Expr) : Except LogicalError Unit :=
  validateShapeWalk.run [expression] ()

theorem mem_validateShapeNode {e u : Expr} {es : List Expr} (h : validateShapeNode e = .ok es)
    (hu : u ∈ operands e) : u ∈ es := by
  cases e with
  | cast e _ | substring e _ _ | coalesce es =>
    obtain ⟨-, -, h⟩ := of_bind h
    cases h
    exact hu
  | column _ | literal _ => simp [operands] at hu
  | _ =>
    cases h
    grind [operands]

theorem validateShape_node {e : Expr} (h : e.validateShape = .ok ()) :
    ∃ es, validateShapeNode e = .ok es ∧ ∀ u ∈ operands e, u.validateShape = .ok () := by
  unfold Expr.validateShape at h
  rw [Walk.run_singleton] at h
  obtain ⟨⟨es, _⟩, hv, hrun⟩ := of_bind h
  obtain ⟨es', hnode, hes⟩ := of_bind hv
  cases hes
  refine ⟨es, hnode, fun u hu => ?_⟩
  obtain ⟨_, _, hu⟩ := validateShapeWalk.run_of_mem hrun (mem_validateShapeNode hnode hu)
  exact hu

end Stillflow.Core
