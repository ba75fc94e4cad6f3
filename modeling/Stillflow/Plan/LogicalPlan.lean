import Stillflow.Lib.Kahn
import Stillflow.Plan.Rule

/-! Logical plans: operators with their inputs, stored by id, and the validation of the whole. -/

namespace Stillflow.Plan

open Stillflow.Core Lib Lib.Fallible

def planVersion : UInt16 := 1

def maxSortKeys : Nat := 8

abbrev PlanNodeId := Uuid

inductive JoinType where
  | inner
  | left
  | right
  | full
  | semi
  | anti
  deriving DecidableEq

structure JoinKey where
  left : Expr
  right : Expr

inductive SortDirection where
  | ascending
  | descending
  deriving DecidableEq

inductive NullPlacement where
  | first
  | last
  deriving DecidableEq

structure SortKey where
  column : ColumnId
  direction : SortDirection
  nulls : NullPlacement
  deriving DecidableEq

inductive PlanNodeKind where
  | scan (sourceAssetId : Uuid) (projection : List ColumnId) (predicate : Option Expr)
  | project (columns : List ColumnId)
  | filter (predicate : Expr)
  | applyRules (rules : List Rule)
  | join (joinType : JoinType) (keys : List JoinKey)
  | union
  | sort (keys : List SortKey)
  | materialize (outputLabel : String)

namespace PlanNodeKind

def name : PlanNodeKind → String
  | .scan _ _ _ => "scan"
  | .project _ => "project"
  | .filter _ => "filter"
  | .applyRules _ => "applyRules"
  | .join _ _ => "join"
  | .union => "union"
  | .sort _ => "sort"
  | .materialize _ => "materialize"

/-- Least and greatest number of inputs. -/
def arity : PlanNodeKind → Nat × Nat
  | .scan _ _ _ => (0, 0)
  | .project _ | .filter _ | .applyRules _ | .sort _ | .materialize _ => (1, 1)
  | .join _ _ => (2, 2)
  | .union => (2, usizeMax)

end PlanNodeKind

structure PlanNode where
  inputs : List PlanNodeId
  kind : PlanNodeKind

structure LogicalPlan where
  version : UInt16
  root : PlanNodeId
  nodes : Std.ExtTreeMap PlanNodeId PlanNode

inductive PlanError where
  | unsupportedVersion (version : UInt16)
  | missingRoot (root : PlanNodeId)
  | unknownInput (node input : PlanNodeId)
  | selfEdge (node : PlanNodeId)
  | invalidArity (node : PlanNodeId) (kind : String) (minimum maximum actual : Nat)
  | emptyCollection (node : PlanNodeId) (field : String)
  | duplicateColumn (node : PlanNodeId) (field : String) (column : ColumnId)
  | nilSourceAsset (node : PlanNodeId)
  | invalidSortKeyCount (node : PlanNodeId) (actual : Nat)
  | duplicateSortKey (node : PlanNodeId) (column : ColumnId)
  | cycle
  | graphInvariant
  | logical (error : LogicalError)
  | rule (error : RuleError)
  | serialization (message : String)

def validateColumns (node : PlanNodeId) (field : String) (columns : List ColumnId) :
    Except PlanError Unit := do
  require (columns ≠ []) (.emptyCollection node field)
  match firstDuplicate [] columns with
  | some column => .error (.duplicateColumn node field column)
  | none => .ok ()

/-- The rules a node meets on its own. -/
def validateKind (node : PlanNodeId) : PlanNodeKind → Except PlanError Unit
  | .scan sourceAssetId projection predicate => do
    require (sourceAssetId ≠ 0) (.nilSourceAsset node)
    validateColumns node "projection" projection
    match predicate with
    | some predicate => predicate.validateShape.mapError .logical
    | none => .ok ()
  | .project columns => validateColumns node "columns" columns
  | .filter predicate => predicate.validateShape.mapError .logical
  | .applyRules rules => do
    require (rules.length ≠ 0) (.emptyCollection node "rules")
    rules.forM fun rule => rule.validateRule.mapError .rule
  | .join _ keys => do
    require (keys.length ≠ 0) (.emptyCollection node "join keys")
    keys.forM fun key => do
      key.left.validateShape.mapError .logical
      key.right.validateShape.mapError .logical
  | .union => .ok ()
  | .sort keys => do
    require (keys.length ≠ 0 ∧ keys.length ≤ maxSortKeys)
      (.invalidSortKeyCount node keys.length)
    match firstDuplicate [] (keys.map SortKey.column) with
    | some column => .error (.duplicateSortKey node column)
    | none => .ok ()
  | .materialize outputLabel => require (isBlank outputLabel = false)
      (.emptyCollection node "output label")

def validateNode (id : PlanNodeId) (node : PlanNode) : Except PlanError Unit := do
  require (node.kind.arity.1 ≤ node.inputs.length ∧ node.inputs.length ≤ node.kind.arity.2)
    (.invalidArity id node.kind.name node.kind.arity.1 node.kind.arity.2 node.inputs.length)
  validateKind id node.kind

namespace LogicalPlan

/-- One iteration of the reference loop of `validate`. -/
def checkNode (plan : LogicalPlan) (entry : PlanNodeId × PlanNode) : Except PlanError Unit := do
  validateNode entry.1 entry.2
  entry.2.inputs.forM fun input => do
    require (plan.nodes.contains input = true) (.unknownInput entry.1 input)
    require (input ≠ entry.1) (.selfEdge entry.1)

/-- Nodes with the ids they read. -/
def inputTable (plan : LogicalPlan) : List (PlanNodeId × List PlanNodeId) :=
  plan.nodes.toList.map fun entry => (entry.1, entry.2.inputs)

def validate (plan : LogicalPlan) : Except PlanError Unit := do
  require (plan.version = planVersion) (.unsupportedVersion plan.version)
  require (plan.nodes.contains plan.root = true) (.missingRoot plan.root)
  plan.nodes.toList.forM plan.checkNode
  -- the source starts the queue in hash order
  let visited ← Kahn.run plan.inputTable plan.nodes.keys .graphInvariant
  require (visited = plan.nodes.size) .cycle

def fromParts (version : UInt16) (root : PlanNodeId) (nodes : Std.ExtTreeMap PlanNodeId PlanNode) :
    Except PlanError LogicalPlan := do
  let plan : LogicalPlan := ⟨version, root, nodes⟩
  plan.validate
  return plan

def new (root : PlanNodeId) (nodes : Std.ExtTreeMap PlanNodeId PlanNode) :
    Except PlanError LogicalPlan :=
  fromParts planVersion root nodes

/-- Compact JSON of a valid plan; `toVec` is the derived serializer. -/
def canonicalBytes (toVec : LogicalPlan → Except String (List UInt8)) (plan : LogicalPlan) :
    Except PlanError (List UInt8) := do
  plan.validate
  (toVec plan).mapError .serialization

end LogicalPlan

def fingerprintPrime : UInt64 := 0x100000001b3

def fingerprintSeeds : List UInt64 :=
  [0xcbf29ce484222325, 0x6c62272e07bb0142, 0x9e3779b97f4a7c15, 0xd6e8feb86659fd93]

/-- Fold one byte into each of the four lanes. -/
def fingerprintByte (lanes : List UInt64) (byte : UInt8) : List UInt64 :=
  lanes.zipIdx.map fun lane =>
    (lane.1 ^^^ (byte.toUInt64 ^^^ (UInt64.ofNat lane.2 <<< 8))) * fingerprintPrime

def toBeBytes (lane : UInt64) : List UInt8 :=
  (List.range 8).map fun i => (lane >>> (UInt64.ofNat (8 * (7 - i)))).toUInt8

def fingerprintBytes (bytes : List UInt8) : List UInt8 :=
  (bytes.foldl fingerprintByte fingerprintSeeds).flatMap toBeBytes

def LogicalPlan.fingerprint (toVec : LogicalPlan → Except String (List UInt8))
    (plan : LogicalPlan) : Except PlanError (List UInt8) := do
  return fingerprintBytes (← plan.canonicalBytes toVec)

end Stillflow.Plan
