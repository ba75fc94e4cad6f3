import Stillflow.Core.NodeTopology
import Stillflow.Lib.Maps

/-! The compiler's error surface and the work bounds it charges before it builds anything. -/

namespace Stillflow.Plan

open Stillflow.Core Lib.Fallible Lib.Maps Lib.WorkStack

def maxCompileWork : Nat := 2000000

def schemaSnapshotFieldCostBytes : Nat := 128

def maxSchemaSnapshotEstimateBytes : Nat := 2 * 1024 * 1024

structure ErrorLocation where
  columnId : Option ColumnId
  fieldPath : Option String
  expected : Option String
  actual : Option String
  deriving DecidableEq

structure NodeGraphCompileError where
  code : NodeGraphErrorCode
  nodeId : Option NodeId
  location : Option ErrorLocation
  message : String
  deriving DecidableEq

namespace NodeGraphCompileError

def new (code : NodeGraphErrorCode) (nodeId : Option NodeId) (message : String) :
    NodeGraphCompileError :=
  ⟨code, nodeId, none, message⟩

/-- Attach a location, unless it names nothing. -/
def withLocation (error : NodeGraphCompileError) (columnId : Option ColumnId)
    (fieldPath expected actual : Option String) : NodeGraphCompileError :=
  if columnId = none ∧ fieldPath = none ∧ expected = none ∧ actual = none then error
  else { error with location := some ⟨columnId, fieldPath, expected, actual⟩ }

end NodeGraphCompileError

def limitError : NodeGraphCompileError :=
  .new .limitCompileWork none "compile work exceeds the contract limit"

def checkedMul {ε : Type} (error : ε) (a b : Nat) : Except ε Nat :=
  if a * b ≤ usizeMax then .ok (a * b) else .error error

def metadataEntries (graph : NodeGraph) : Except NodeGraphCompileError Nat := do
  let nodeEntries ← graph.nodes.foldlM
    (fun count node => checkedAdd limitError count node.metadata.size) 0
  checkedAdd limitError graph.metadata.size nodeEntries

def shapeWorkNode (work : Nat) (node : NodeConfig) : Except NodeGraphCompileError Nat := do
  require (node.config.byteLen ≤ maxConfigBytes)
    (.new .limitConfigBytes (some node.id) "node config exceeds the contract limit")
  checkedAdd limitError work node.config.byteLen

def checkShapeWork (graph : NodeGraph) : Except NodeGraphCompileError Unit := do
  require (graph.nodes.length ≤ maxNodes)
    (.new .limitNodes none "graph node count exceeds the contract limit")
  let entries ← metadataEntries graph
  require (entries * 16 ≤ usizeMax ∧ entries ≤ maxMetadataBytes)
    (.new .limitMetadataBytes none "graph metadata limit exceeded")
  let items ← checkedAdd limitError graph.nodes.length graph.edges.length
  let entryWork ← checkedMul limitError entries 16
  let work ← checkedAdd limitError items entryWork
  let work ← graph.nodes.foldlM shapeWorkNode work
  require (work ≤ maxCompileWork) limitError

def isEmptyArms : Expr → Bool
  | .coalesce [] | .concat [] => true
  | _ => false

/-- One iteration of `expression_shape`: nodes counted and greatest depth. -/
def expressionShapeNode (task : Expr × Nat) (seen : Nat × Nat) :
    Except NodeGraphCompileError (List (Expr × Nat) × (Nat × Nat)) := do
  let count ← checkedAdd limitError seen.1 1
  let maxDepth := max seen.2 task.2
  require (¬(count > maxExprNodes ∨ maxDepth > maxExprDepth))
    (.new .limitNestingDepth none "expression exceeds the contract limit")
  require (isEmptyArms task.1 = false)
    (.new .invalidConfig none "coalesce expression is empty")
  return ((operands task.1).map fun e => (e, task.2 + 1), (count, maxDepth))

def expressionShapeWalk : Walk (Expr × Nat) (Nat × Nat) NodeGraphCompileError where
  visit := expressionShapeNode
  size task := task.1.weight
  size_pos := task_weight_pos
  size_lt {task seen tasks seen'} h := by
    unfold expressionShapeNode at h
    obtain ⟨_, _, h⟩ := of_bind h
    obtain ⟨_, _, h⟩ := of_bind h
    obtain ⟨_, _, h⟩ := of_bind h
    cases h
    exact operandTasks_weight task

def expressionShape (expr : Expr) : Except NodeGraphCompileError (Nat × Nat) :=
  expressionShapeWalk.run [(expr, 1)] (0, 0)

def nestingError : NodeGraphCompileError :=
  .new .limitNestingDepth none "schema nesting exceeds the contract limit"

/-- The fields under nested lists, with their depth. -/
def listStruct : LogicalType → Nat → Except NodeGraphCompileError (Option (List LogicalField × Nat))
  | .list next, depth => do
    require (depth ≤ maxNestingDepth) nestingError
    listStruct next (depth + 1)
  | .struct nested, depth => do
    require (depth ≤ maxNestingDepth) nestingError
    return some (nested, depth)
  | _, depth => do
    require (depth ≤ maxNestingDepth) nestingError
    return none

def nestedFields (depth : Nat) (field : LogicalField) :
    Except NodeGraphCompileError (Option (List LogicalField × Nat)) :=
  match field.dataType with
  | .struct nested => .ok (some (nested, depth + 1))
  | .list element => listStruct element (depth + 1)
  | _ => .ok none

/-- One iteration of `schema_field_count`. -/
def fieldCountNode (task : List LogicalField × Nat) (count : Nat) :
    Except NodeGraphCompileError (List (List LogicalField × Nat) × Nat) := do
  require (task.2 ≤ maxNestingDepth) nestingError
  let count ← checkedAdd limitError count task.1.length
  let nested ← task.1.mapM (nestedFields task.2)
  return ((nested.filterMap id).reverse, count)

theorem listStruct_weight {dataType : LogicalType} {depth : Nat} {task : List LogicalField × Nat}
    (h : listStruct dataType depth = .ok (some task)) :
    fieldsWeight task.1 + 1 ≤ dataType.weight := by
  induction dataType, depth using listStruct.induct with
  | case1 depth next ih =>
    rw [listStruct] at h
    obtain ⟨_, _, h⟩ := of_bind h
    rw [LogicalType.weight]
    exact (ih h).trans (Nat.le_succ _)
  | case2 nested depth =>
    rw [listStruct] at h
    obtain ⟨_, _, h⟩ := of_bind h
    cases h
    rw [LogicalType.weight]
    exact Nat.le_succ _
  | case3 dataType depth hlist hstruct =>
    rw [listStruct] at h
    · obtain ⟨_, _, h⟩ := of_bind h
      cases h
    · exact hlist
    · exact hstruct

theorem nestedFields_weight {depth : Nat} {field : LogicalField} {task : List LogicalField × Nat}
    (h : nestedFields depth field = .ok (some task)) : fieldsWeight task.1 + 1 ≤ field.weight := by
  unfold nestedFields at h
  rw [LogicalField.weight_eq]
  split at h
  · rename_i nested hdata
    cases h
    rw [hdata, LogicalType.weight]
    exact Nat.le_add_right _ 3
  · rename_i element hdata
    have := listStruct_weight h
    rw [hdata, LogicalType.weight]
    omega
  · cases h

private theorem nestedFields_sum {depth : Nat} {fields : List LogicalField}
    {nested : List (Option (List LogicalField × Nat))}
    (h : fields.mapM (nestedFields depth) = .ok nested) :
    ((nested.filterMap id).map fun task => fieldsWeight task.1 + 1).sum ≤ fieldsWeight fields := by
  induction fields generalizing nested with
  | nil =>
    cases h
    exact le_rfl
  | cons field fields ih =>
    rw [List.mapM_cons] at h
    obtain ⟨first, hfirst, h⟩ := of_bind h
    obtain ⟨rest, hrest, h⟩ := of_bind h
    cases h
    have hsum := ih hrest
    rw [fieldsWeight]
    cases first with
    | none => simpa using hsum.trans (Nat.le_add_left _ _)
    | some task =>
      have hweight := nestedFields_weight hfirst
      have hcons : (some task :: rest).filterMap id = task :: rest.filterMap id := rfl
      rw [hcons, List.map_cons, List.sum_cons]
      omega

def fieldCountWalk : Walk (List LogicalField × Nat) Nat NodeGraphCompileError where
  visit := fieldCountNode
  size task := fieldsWeight task.1 + 1
  size_pos _ := Nat.succ_pos _
  size_lt {task count tasks count'} h := by
    unfold fieldCountNode at h
    obtain ⟨_, _, h⟩ := of_bind h
    obtain ⟨_, _, h⟩ := of_bind h
    obtain ⟨nested, hnested, h⟩ := of_bind h
    cases h
    have hsum := nestedFields_sum hnested
    rw [List.map_reverse, List.sum_reverse]
    omega

def schemaFieldCount (schema : LogicalSchema) : Except NodeGraphCompileError Nat :=
  fieldCountWalk.run [(schema.fields, 1)] 0

/-- Expression nodes of one atomic config. -/
def stepExpressions : ValidatedNodeConfig → Except NodeGraphCompileError Nat
  | .filter predicate => return (← expressionShape predicate).1
  | .deriveColumn _ _ _ _ expression => return (← expressionShape expression).1
  | _ => .ok 0

/-- The work of one config; each step of a composite counts as a node. -/
def expressionNodes (total : Nat) (config : ValidatedNodeConfig) :
    Except NodeGraphCompileError Nat :=
  match config with
  | .composite steps => do
    let counts ← steps.mapM stepExpressions
    let total ← checkedAdd limitError total steps.length
    checkedAdd limitError total counts.sum
  | config => do checkedAdd limitError total (← stepExpressions config)

def sourceWidth (graph : NodeGraph) (configs : Configs) (schema : LogicalSchema) : Nat :=
  match configs[graph.sourceNodeId]? with
  | some (.source _ (some columns)) => columns.length
  | _ => schema.fields.length

/-- Widest selection and number of derived columns over all configs. -/
def widthNode (state : Nat × Nat) (config : ValidatedNodeConfig) : Nat × Nat :=
  match config with
  | .select columns => (max state.1 columns.length, state.2)
  | .deriveColumn _ _ _ _ _ => (state.1, state.2 + 1)
  | _ => state

def estimateSchemaSnapshotBytes (graph : NodeGraph) (configs : Configs) (schema : LogicalSchema) :
    Except NodeGraphCompileError Nat := do
  let (maxWidth, deriveCount) := (values configs).foldl widthNode (sourceWidth graph configs schema, 0)
  let worstWidth := min (maxWidth + deriveCount) usizeMax
  let fieldInstances ← checkedMul limitError worstWidth graph.nodes.length
  checkedMul limitError fieldInstances schemaSnapshotFieldCostBytes

/-- The snapshot budget, charged only when a source schema is known. -/
def checkSnapshots (graph : NodeGraph) (configs : Configs) :
    Option LogicalSchema → Except NodeGraphCompileError Unit
  | none => .ok ()
  | some schema => do
    let estimate ← estimateSchemaSnapshotBytes graph configs schema
    require (estimate ≤ maxSchemaSnapshotEstimateBytes) limitError

def schemaFields : Option LogicalSchema → Except NodeGraphCompileError Nat
  | none => .ok 0
  | some schema => schemaFieldCount schema

def checkCompileWork (graph : NodeGraph) (configs : Configs) (schema : Option LogicalSchema) :
    Except NodeGraphCompileError Unit := do
  let entries ← metadataEntries graph
  let configBytes ← graph.nodes.foldlM
    (fun total node => checkedAdd limitError total node.config.byteLen) 0
  let expressions ← (values configs).foldlM expressionNodes 0
  let fields ← schemaFields schema
  checkSnapshots graph configs schema
  let work ← checkedAdd limitError graph.nodes.length graph.edges.length
  let work ← checkedAdd limitError work configBytes
  let work ← checkedAdd limitError work (← checkedMul limitError expressions 4)
  let work ← checkedAdd limitError work (← checkedMul limitError fields 4)
  let work ← checkedAdd limitError work (← checkedMul limitError entries 16)
  require (work ≤ maxCompileWork) limitError

end Stillflow.Plan
