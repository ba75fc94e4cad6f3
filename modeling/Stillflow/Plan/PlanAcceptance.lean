import Stillflow.Lib.Acyclic
import Stillflow.Lib.FirstFault
import Stillflow.Plan.LogicalPlan

/-!
Which plans validation accepts. The cycle check is allowed any initial queue, as the source starts
it in hash order.
-/

namespace Stillflow.Plan

open Stillflow.Core Lib Lib.Fallible List

/-- Some columns, each once. -/
def DistinctColumns (columns : List ColumnId) : Prop := columns ≠ [] ∧ columns.Nodup

/-- What a node of each kind has to satisfy on its own. -/
def KindOk : PlanNodeKind → Prop
  | .scan sourceAssetId projection predicate =>
    sourceAssetId ≠ 0 ∧ DistinctColumns projection ∧
      ∀ expr ∈ predicate, expr.validateShape = .ok ()
  | .project columns => DistinctColumns columns
  | .filter predicate => predicate.validateShape = .ok ()
  | .applyRules rules => rules ≠ [] ∧ ∀ rule ∈ rules, rule.validateRule = .ok ()
  | .join _ keys => keys ≠ [] ∧ ∀ key ∈ keys,
    key.left.validateShape = .ok () ∧ key.right.validateShape = .ok ()
  | .union => True
  | .sort keys => keys ≠ [] ∧ keys.length ≤ maxSortKeys ∧ (keys.map SortKey.column).Nodup
  | .materialize outputLabel => isBlank outputLabel = false

structure NodeOk (node : PlanNode) : Prop where
  atLeast : node.kind.arity.1 ≤ node.inputs.length
  atMost : node.inputs.length ≤ node.kind.arity.2
  kind : KindOk node.kind

theorem firstDuplicate_eq_none {α : Type} [DecidableEq α] {seen l : List α} :
    firstDuplicate seen l = none ↔ l.Nodup ∧ ∀ a ∈ l, a ∉ seen := by
  induction l generalizing seen with
  | nil => simp [firstDuplicate]
  | cons a l ih =>
    unfold firstDuplicate
    by_cases ha : a ∈ seen
    · simp [ha]
    · rw [if_neg ha, ih, nodup_cons]
      simp only [mem_cons, forall_eq_or_imp, not_or]
      constructor
      · intro h
        exact ⟨⟨fun hmem => (h.2 a hmem).1 rfl, h.1⟩, ha, fun b hb => (h.2 b hb).2⟩
      · intro h
        exact ⟨h.1.2, fun b hb => ⟨fun hba => h.1.1 (hba ▸ hb), h.2.2 b hb⟩⟩

theorem firstDuplicate_nil_eq_none {α : Type} [DecidableEq α] {l : List α} :
    firstDuplicate [] l = none ↔ l.Nodup := by
  simp [firstDuplicate_eq_none]

variable {id : PlanNodeId}

theorem validateColumns_eq_ok {field : String} {columns : List ColumnId} :
    validateColumns id field columns = .ok () ↔ DistinctColumns columns := by
  unfold validateColumns DistinctColumns
  rw [bind_eq_ok, exists_unit_iff, require_eq_ok, ← firstDuplicate_nil_eq_none]
  cases firstDuplicate [] columns <;> simp

theorem validateKind_eq_ok {kind : PlanNodeKind} : validateKind id kind = .ok () ↔ KindOk kind := by
  cases kind with
  | scan asset projection predicate =>
    simp only [validateKind, KindOk, bind_eq_ok, exists_unit_iff, require_eq_ok,
      validateColumns_eq_ok]
    cases predicate <;> simp [mapError_eq_ok]
  | project columns => exact validateColumns_eq_ok
  | filter predicate => exact mapError_eq_ok
  | applyRules rules | join joinType keys =>
    simp only [validateKind, KindOk, bind_eq_ok, exists_unit_iff, require_eq_ok,
      FirstFault.forM_eq_ok, mapError_eq_ok, ne_eq, length_eq_zero_iff]
  | union => simp [validateKind, KindOk]
  | sort keys =>
    simp only [validateKind, KindOk, bind_eq_ok, exists_unit_iff, require_eq_ok,
      ← firstDuplicate_nil_eq_none, ne_eq, length_eq_zero_iff, and_assoc]
    cases firstDuplicate [] (keys.map SortKey.column) <;> simp
  | materialize label => exact require_eq_ok

theorem validateNode_eq_ok {node : PlanNode} : validateNode id node = .ok () ↔ NodeOk node := by
  unfold validateNode
  rw [bind_eq_ok, exists_unit_iff, require_eq_ok, validateKind_eq_ok]
  exact ⟨fun h => ⟨h.1.1, h.1.2, h.2⟩, fun h => ⟨⟨h.atLeast, h.atMost⟩, h.kind⟩⟩

namespace LogicalPlan

variable {plan : LogicalPlan} {order : List PlanNodeId}

/-- One node is an input of another. -/
def Feeds (plan : LogicalPlan) (input id : PlanNodeId) : Prop :=
  ∃ node, plan.nodes[id]? = some node ∧ input ∈ node.inputs

/-- A well-formed plan: a graph of well-formed nodes without directed cycle. -/
structure WellFormed (plan : LogicalPlan) : Prop where
  version : plan.version = planVersion
  root : plan.root ∈ plan.nodes
  nodes : ∀ (id : PlanNodeId) (node : PlanNode), plan.nodes[id]? = some node → NodeOk node
  inputs : ∀ input id, plan.Feeds input id → input ∈ plan.nodes ∧ input ≠ id
  acyclic : ∀ id, ¬Relation.TransGen plan.Feeds id id

/-- `validate` with the ready queue started from the nodes in a given order. -/
def validateFrom (plan : LogicalPlan) (order : List PlanNodeId) : Except PlanError Unit := do
  require (plan.version = planVersion) (.unsupportedVersion plan.version)
  require (plan.nodes.contains plan.root = true) (.missingRoot plan.root)
  plan.nodes.toList.forM plan.checkNode
  let visited ← Kahn.run plan.inputTable order .graphInvariant
  require (visited = plan.nodes.size) .cycle

theorem checkNode_eq_ok {node : PlanNode} :
    plan.checkNode (id, node) = .ok () ↔
      NodeOk node ∧ ∀ input ∈ node.inputs, input ∈ plan.nodes ∧ input ≠ id := by
  unfold checkNode
  simp only [bind_eq_ok, exists_unit_iff, validateNode_eq_ok, FirstFault.forM_eq_ok,
    require_eq_ok, Std.ExtTreeMap.contains_iff_mem]

theorem checkNodes_eq_ok : plan.nodes.toList.forM plan.checkNode = .ok () ↔
    (∀ (id : PlanNodeId) (node : PlanNode), plan.nodes[id]? = some node → NodeOk node) ∧
      ∀ input id, plan.Feeds input id → input ∈ plan.nodes ∧ input ≠ id := by
  rw [FirstFault.forM_eq_ok]
  constructor
  · intro h
    have hnode : ∀ (id : PlanNodeId) (node : PlanNode), plan.nodes[id]? = some node →
        NodeOk node ∧ ∀ input ∈ node.inputs, input ∈ plan.nodes ∧ input ≠ id := by
      intro id node hget
      exact checkNode_eq_ok.mp (h _ (Std.ExtTreeMap.mem_toList_iff_getElem?_eq_some.mpr hget))
    refine ⟨fun id node hget => (hnode id node hget).1, fun input id hfeeds => ?_⟩
    obtain ⟨node, hget, hinput⟩ := hfeeds
    exact (hnode id node hget).2 input hinput
  · intro h entry hentry
    have hget := Std.ExtTreeMap.mem_toList_iff_getElem?_eq_some.mp hentry
    exact checkNode_eq_ok.mpr ⟨h.1 _ _ hget, fun input hinput => h.2 _ _ ⟨_, hget, hinput⟩⟩

theorem inputTable_keys (plan : LogicalPlan) :
    plan.inputTable.map Prod.fst = plan.nodes.keys := by
  rw [inputTable, map_map, ← Std.ExtTreeMap.map_fst_toList_eq_keys]
  rfl

theorem inputTable_length (plan : LogicalPlan) : plan.inputTable.length = plan.nodes.size := by
  rw [inputTable, length_map, Std.ExtTreeMap.length_toList]

theorem reads_inputTable {a b : PlanNodeId} : Kahn.Reads plan.inputTable a b ↔ plan.Feeds b a := by
  unfold Kahn.Reads Feeds inputTable
  constructor
  · intro ⟨inputs, hmem, hinput⟩
    obtain ⟨⟨id, node⟩, hentry, heq⟩ := mem_map.mp hmem
    obtain ⟨rfl, rfl⟩ := Prod.mk.injEq .. ▸ heq
    exact ⟨node, Std.ExtTreeMap.mem_toList_iff_getElem?_eq_some.mp hentry, hinput⟩
  · intro ⟨node, hget, hinput⟩
    have hentry := Std.ExtTreeMap.mem_toList_iff_getElem?_eq_some.mpr hget
    exact ⟨node.inputs, mem_map.mpr ⟨_, hentry, rfl⟩, hinput⟩

theorem acyclic_inputTable : Kahn.Acyclic plan.inputTable ↔
    ∀ id, ¬Relation.TransGen plan.Feeds id id := by
  have hswap : Kahn.Reads plan.inputTable = Function.swap plan.Feeds := by
    funext a b
    exact propext reads_inputTable
  unfold Kahn.Acyclic
  rw [hswap]
  exact forall_congr' fun id => not_congr Relation.transGen_swap

theorem closed_inputTable (h : plan.nodes.toList.forM plan.checkNode = .ok ()) :
    Kahn.Closed plan.inputTable where
  nodup := by
    rw [inputTable_keys]
    exact Std.ExtTreeMap.nodup_keys
  inputs node hnode input hinput := by
    rw [inputTable_keys, Std.ExtTreeMap.mem_keys]
    have hfeeds : plan.Feeds input node.1 := reads_inputTable.mp ⟨node.2, hnode, hinput⟩
    exact ((checkNodes_eq_ok.mp h).2 _ _ hfeeds).1

theorem kahn_answers (h : plan.nodes.toList.forM plan.checkNode = .ok ())
    (horder : order.Perm plan.nodes.keys) :
    ∃ visited, Kahn.run plan.inputTable order PlanError.graphInvariant = .ok visited ∧
      (visited = plan.nodes.size ↔ ∀ id, ¬Relation.TransGen plan.Feeds id id) := by
  have hkeys : order.Perm (plan.inputTable.map Prod.fst) := by rwa [inputTable_keys]
  have hrun := Kahn.run_acyclic (closed_inputTable h) hkeys PlanError.graphInvariant
  rwa [inputTable_length, acyclic_inputTable] at hrun

theorem validateFrom_eq_ok (horder : order.Perm plan.nodes.keys) :
    plan.validateFrom order = .ok () ↔ plan.WellFormed := by
  unfold validateFrom
  rw [bind_eq_ok, exists_unit_iff, require_eq_ok, bind_eq_ok, exists_unit_iff, require_eq_ok,
    bind_eq_ok, exists_unit_iff, Std.ExtTreeMap.contains_iff_mem]
  constructor
  · intro ⟨hversion, hroot, hchecks, hrest⟩
    obtain ⟨visited, hrun, hacyclic⟩ := kahn_answers hchecks horder
    rw [hrun, ok_bind, require_eq_ok, hacyclic] at hrest
    have hnodes := checkNodes_eq_ok.mp hchecks
    exact ⟨hversion, hroot, hnodes.1, hnodes.2, hrest⟩
  · intro h
    have hchecks := checkNodes_eq_ok.mpr ⟨h.nodes, h.inputs⟩
    obtain ⟨visited, hrun, hacyclic⟩ := kahn_answers hchecks horder
    refine ⟨h.version, h.root, hchecks, ?_⟩
    rw [hrun, ok_bind, require_eq_ok]
    exact hacyclic.mpr h.acyclic

theorem validateColumns_ne_graphInvariant {field : String} {columns : List ColumnId} :
    validateColumns id field columns ≠ .error .graphInvariant := by
  unfold validateColumns
  intro h
  rcases bind_eq_error.mp h with h | ⟨_, -, h⟩
  · cases (require_eq_error.mp h).2
  · cases hfirst : firstDuplicate [] columns <;> simp [hfirst] at h

theorem mapError_ne_graphInvariant {ε : Type} {x : Except ε Unit} {f : ε → PlanError}
    (hf : ∀ e, f e ≠ .graphInvariant) : x.mapError f ≠ .error .graphInvariant := by
  cases x with
  | ok _ => simp [Except.mapError]
  | error e =>
    intro h
    exact hf e (Except.error.inj h)

theorem validateKind_ne_graphInvariant {kind : PlanNodeKind} :
    validateKind id kind ≠ .error .graphInvariant := by
  have hlogical : ∀ x : Except LogicalError Unit,
      x.mapError PlanError.logical ≠ .error .graphInvariant := fun x =>
    mapError_ne_graphInvariant fun _ => by simp
  have hrule : ∀ x : Except RuleError Unit,
      x.mapError PlanError.rule ≠ .error .graphInvariant := fun x =>
    mapError_ne_graphInvariant fun _ => by simp
  intro h
  cases kind with
  | scan asset projection predicate =>
    rcases bind_eq_error.mp h with h | ⟨_, -, h⟩
    · cases (require_eq_error.mp h).2
    rcases bind_eq_error.mp h with h | ⟨_, -, h⟩
    · exact validateColumns_ne_graphInvariant h
    cases predicate with
    | none => cases h
    | some predicate => exact hlogical _ h
  | project columns => exact validateColumns_ne_graphInvariant h
  | filter predicate => exact hlogical _ h
  | applyRules rules =>
    rcases bind_eq_error.mp h with h | ⟨_, -, h⟩
    · cases (require_eq_error.mp h).2
    obtain ⟨rule, -, h⟩ := FirstFault.mem_of_forM_eq_error h
    exact hrule _ h
  | join joinType keys =>
    rcases bind_eq_error.mp h with h | ⟨_, -, h⟩
    · cases (require_eq_error.mp h).2
    obtain ⟨key, -, h⟩ := FirstFault.mem_of_forM_eq_error h
    rcases bind_eq_error.mp h with h | ⟨_, -, h⟩
    · exact hlogical _ h
    · exact hlogical _ h
  | union => cases h
  | sort keys =>
    rcases bind_eq_error.mp h with h | ⟨_, -, h⟩
    · cases (require_eq_error.mp h).2
    cases hfirst : firstDuplicate [] (keys.map SortKey.column) <;> simp [hfirst] at h
  | materialize label => cases (require_eq_error.mp h).2

theorem checkNode_ne_graphInvariant {entry : PlanNodeId × PlanNode} :
    plan.checkNode entry ≠ .error .graphInvariant := by
  intro h
  rcases bind_eq_error.mp h with h | ⟨_, -, h⟩
  · rcases bind_eq_error.mp h with h | ⟨_, -, h⟩
    · cases (require_eq_error.mp h).2
    · exact validateKind_ne_graphInvariant h
  obtain ⟨input, -, h⟩ := FirstFault.mem_of_forM_eq_error h
  rcases bind_eq_error.mp h with h | ⟨_, -, h⟩
  · cases (require_eq_error.mp h).2
  · cases (require_eq_error.mp h).2

theorem validateFrom_ne_graphInvariant (horder : order.Perm plan.nodes.keys) :
    plan.validateFrom order ≠ .error .graphInvariant := by
  intro h
  rcases bind_eq_error.mp h with h | ⟨_, -, h⟩
  · cases (require_eq_error.mp h).2
  rcases bind_eq_error.mp h with h | ⟨_, -, h⟩
  · cases (require_eq_error.mp h).2
  rcases bind_eq_error.mp h with h | ⟨_, hchecks, h⟩
  · obtain ⟨entry, -, h⟩ := FirstFault.mem_of_forM_eq_error h
    exact checkNode_ne_graphInvariant h
  obtain ⟨visited, hrun, -⟩ := kahn_answers hchecks horder
  rw [hrun, ok_bind] at h
  cases (require_eq_error.mp h).2

/-- Queues started in two orders lead to one outcome. -/
theorem validateFrom_order_irrel {order' : List PlanNodeId} (horder : order.Perm plan.nodes.keys)
    (horder' : order'.Perm plan.nodes.keys) :
    plan.validateFrom order = plan.validateFrom order' := by
  unfold validateFrom
  refine bind_congr fun _ => bind_congr fun _ => ?_
  cases hchecks : plan.nodes.toList.forM plan.checkNode with
  | error e => rfl
  | ok u =>
    obtain ⟨visited, hrun, hacyclic⟩ := kahn_answers hchecks horder
    obtain ⟨visited', hrun', hacyclic'⟩ := kahn_answers hchecks horder'
    rw [ok_bind, ok_bind, hrun, hrun', ok_bind, ok_bind]
    have hsame := hacyclic.trans hacyclic'.symm
    by_cases hall : visited = plan.nodes.size
    · rw [hall, hsame.mp hall]
    · simp [require, hall, mt hsame.mpr hall]

/-- Validation accepts exactly the well-formed plans, for every order in which the initial queue is
enumerated; the order changes neither the answer nor the error, and the graph invariant never
fails. -/
theorem validate_accepts_wellFormed (plan : LogicalPlan) (order : List PlanNodeId)
    (horder : order.Perm plan.nodes.keys) :
    (plan.validateFrom order = .ok () ↔ plan.WellFormed) ∧
      plan.validateFrom order ≠ .error .graphInvariant ∧
      plan.validateFrom order = plan.validate :=
  ⟨validateFrom_eq_ok horder, validateFrom_ne_graphInvariant horder,
    validateFrom_order_irrel horder (List.Perm.refl _)⟩

/-- A union that reads one scan twice. -/
def doubledScan : LogicalPlan where
  version := planVersion
  root := 2
  nodes := (∅ : Std.ExtTreeMap PlanNodeId PlanNode).insert 1 ⟨[], .scan 7 [3] none⟩
    |>.insert 2 ⟨[1, 1], .union⟩

theorem doubledScan_accepted :
    doubledScan.WellFormed ∧ doubledScan.validateFrom [2, 1] = .ok () ∧
      doubledScan.validate = .ok () := by
  have hok : (doubledScan.validateFrom [2, 1]).isOk = true := by decide +kernel
  obtain ⟨⟨⟩, haccepted⟩ := exists_of_isOk hok
  obtain ⟨hiff, -, hsame⟩ := validate_accepts_wellFormed doubledScan [2, 1] (by decide +kernel)
  exact ⟨hiff.mp haccepted, haccepted, hsame.symm.trans haccepted⟩

end LogicalPlan

end Stillflow.Plan
