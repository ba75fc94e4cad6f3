import Stillflow.Engine.ExactSchema
import Stillflow.Engine.ScanOrdinals

/-!
The schema after a chain of plan nodes is derived twice: by preflight in one working schema, and rule
by rule by the builder of verification plans.
-/

namespace Stillflow.Engine

open Stillflow.Core Stillflow.Plan Lib.Fallible List

def maxRulesPerNode : Nat := 256

/-- The routing rules are admitted by a verification only. -/
def admitRule (verification : Bool) (node : PlanNodeId) : Rule → Except EngineError Unit
  | .validate _ _ _ => require (verification = true) (.unsupportedRule node "validate")
  | .deduplicate _ => require (verification = true) (.unsupportedRule node "deduplicate")
  | _ => .ok ()

/-- The step of a node between the scan and the materialize node. -/
def compileInner (verification : Bool) (entry : PlanNodeId × PlanNode) :
    Except EngineError CompiledStep :=
  match entry.2.kind with
  | .project columns => return .project columns
  | .filter predicate => return .filter predicate
  | .applyRules rules => do
    require (¬(rules.length = 0 ∨ rules.length > maxRulesPerNode))
      (EngineError.boundExceeded "apply-rules count is outside the authorized range")
    rules.forM (admitRule verification entry.1)
    return .rules rules
  | .join _ _ | .union => .error (.unsupportedOperator entry.1 entry.2.kind.name)
  | .sort keys => return .sort keys
  | .scan _ _ _ | .materialize _ => .error (.invalidPlan "duplicate scan or materialize")

variable {schema : LogicalSchema} {fields : List LogicalField} {resolver : ColumnResolver}
  {columns seen : List ColumnId} {verification : Bool}

theorem projectFields_map (h : projectFields resolver columns seen = .ok fields) :
    columns.map resolver = fields.map some := by
  induction columns generalizing seen fields with
  | nil =>
    cases h
    rfl
  | cons column columns ih =>
    rw [projectFields] at h
    obtain ⟨_, -, h⟩ := of_bind h
    obtain ⟨field, hfield, h⟩ := of_bind h
    obtain ⟨rest, hrest, h⟩ := of_bind h
    cases h
    rw [map_cons, map_cons, ih hrest]
    unfold ofOption at hfield
    split at hfield
    · rename_i found hfound
      cases hfield
      rw [hfound]
    · cases hfield

theorem projectSchemaWith_eq_ok {projected : LogicalSchema}
    (h : projectSchemaWith resolver columns = .ok projected) :
    projectFields resolver columns [] = .ok projected.fields ∧ FieldsFit 0 projected.fields ∧
      projected = ⟨logicalSchemaVersion, projected.fields, ∅⟩ := by
  unfold projectSchemaWith at h
  obtain ⟨fields, hfields, h⟩ := of_bind h
  obtain ⟨hfit, rfl⟩ := schema_new_eq_ok.mp (mapError_eq_ok.mp h)
  exact ⟨hfields, hfit, rfl⟩

theorem authorizedLookup_eq (h : schema.validate = .ok ()) (served : Nat) :
    authorizedLookup schema served = findColumn schema.fields := by
  funext id
  unfold authorizedLookup
  split_ifs
  · exact searchOrdinal_getElem? (nodup_ids h) id
  · rfl

namespace IncrementalSchema

variable {working working' : IncrementalSchema}

/-- The schema a working schema is closed to. -/
def closed (working : IncrementalSchema) : LogicalSchema :=
  ⟨logicalSchemaVersion, working.schema.fields, ∅⟩

theorem intoSchema_closed (h : Exact working) : working.intoSchema = .ok working.closed :=
  intoSchema_eq_ok.mpr ⟨h.fits, rfl⟩

theorem closed_valid (h : Exact working) : working.closed.validate = .ok () :=
  (fromParts_eq_ok.mp (mapError_eq_ok.mp (intoSchema_closed h))).2

/-- An accepted or refused rule depends on the fields only, whatever the backend. -/
theorem applyRule_congr (h : Exact working) (h' : Exact working')
    (hfields : working.schema.fields = working'.schema.fields) (rule : Rule) :
    closed <$> working.applyRule rule = closed <$> working'.applyRule rule := by
  have hresolve : working.resolveColumn = working'.resolveColumn := by
    rw [h.resolveColumn_eq, h'.resolveColumn_eq, hfields]
  have hordinal : working.ordinalOf = working'.ordinalOf := by
    funext id
    rw [h.ordinalOf_eq, h'.ordinalOf_eq, hfields]
  have hrequire : working.requireColumn = working'.requireColumn := by
    funext id
    unfold requireColumn
    rw [hresolve]
  have htext : working.textBytes = working'.textBytes := by rw [h.text, h'.text, hfields]
  have hclosed : working.closed = working'.closed := by rw [closed, closed, hfields]
  have hnullable : ∀ column nullable, (working.setNullable column nullable).closed =
      (working'.setNullable column nullable).closed := by
    intro column nullable
    unfold setNullable
    rw [hfields]
    split
    · rfl
    · exact hclosed
  have hcast : ∀ column dataType onFailure,
      closed <$> working.applyCast column dataType onFailure =
        closed <$> working'.applyCast column dataType onFailure := by
    intro column dataType onFailure
    simp only [applyCast, hrequire, htext, hfields, map_bind]
    cases modifyColumn (castField dataType onFailure) column working'.schema.fields <;> rfl
  cases rule with
  | rename column target =>
    simp only [applyRule, applyRename, hordinal, htext, hfields]
    split
    · rfl
    · split
      · rfl
      · simp only [map_bind]
        rfl
  | dropColumn column =>
    simp only [applyRule, applyDrop, hfields, map_bind]
    rfl
  | deriveColumn id name dataType nullable expression =>
    have hfield : working.schema.field = working'.schema.field := by
      funext id
      simp only [LogicalSchema.field, hfields]
    simp only [applyRule, applyDerive, hresolve, htext, hfields, hfield, map_bind]
    rfl
  | trim | normalizeText =>
    simp only [applyRule, hrequire, map_bind, map_pure, hclosed]
  | parseTemporal column dataType onFailure format =>
    simp only [applyRule, hrequire, map_bind, hcast]
  | cast column dataType onFailure => exact hcast column dataType onFailure
  | replaceLiteral column source target =>
    simp only [applyRule, hrequire, map_bind, map_pure]
    split_ifs
    · simp only [hnullable]
    · simp only [hclosed]
  | fillNull column value =>
    simp only [applyRule, hrequire, map_bind, map_pure, hnullable]
  | filterRows predicate =>
    simp only [applyRule, hresolve, map_bind, map_pure, hclosed]
  | validate | deduplicate => rfl

/-- A rule in place and the same rule on the closed schema, refusals included. -/
theorem applyRuleSchema_closed (h : Exact working) (rule : Rule) :
    applyRuleSchema working.closed rule = closed <$> working.applyRule rule := by
  have hvalid : ValidFlat working.closed := ⟨closed_valid h, h.flat⟩
  have hown : Exact (forShape working.closed (ruleServedLookups rule)) :=
    (Starts.shaped _).exact hvalid
  rw [applyRule_congr h hown rfl rule]
  unfold applyRuleSchema
  cases hrule : (forShape working.closed (ruleServedLookups rule)).applyRule rule with
  | error e => rfl
  | ok next => exact intoSchema_closed (hown.applyRule hrule)

/-- A projection in place and the same projection on the closed schema. -/
theorem projectSchema_closed (h : Exact working) {next : IncrementalSchema}
    (hnext : propagateStep verification working (.project columns) = .ok next) :
    projectSchema working.closed columns = .ok next.closed ∧ Exact next := by
  obtain ⟨projected, hprojected, hnext⟩ := of_bind hnext
  cases hnext
  rw [h.resolveColumn_eq] at hprojected
  obtain ⟨hfields, hfit, heq⟩ := projectSchemaWith_eq_ok hprojected
  constructor
  · have hlookup : authorizedLookup working.closed columns.length = findColumn working.schema.fields :=
      authorizedLookup_eq (closed_valid h) _
    rw [projectSchema, hlookup]
    exact hprojected.trans (congrArg Except.ok heq)
  · refine exact_refresh hfit ?_ rfl
    intro f hf
    have hmem : some f ∈ columns.map (findColumn working.schema.fields) := by
      rw [projectFields_map hfields]
      exact mem_map_of_mem hf
    obtain ⟨id, -, hid⟩ := mem_map.mp hmem
    exact h.flat f (findColumn_some hid).1

end IncrementalSchema

open IncrementalSchema

variable {working next : IncrementalSchema} {builder builder' : PlanBuilder}

theorem flushTransform_working (builder : PlanBuilder) :
    builder.flushTransform.working = builder.working := by
  unfold PlanBuilder.flushTransform
  split_ifs <;> rfl

/-- The builder's schema is the one preflight's working schema is closed to. -/
def PlanBuilder.Agrees (builder : PlanBuilder) (working : IncrementalSchema) : Prop :=
  builder.working = working.closed ∧ Exact working

/-- One rule of a verification group, in the builder and in preflight. -/
theorem buildRule_agrees (h : builder.Agrees working)
    {rule : Rule} {nodeId : Uuid} {index : Nat}
    (hrule : buildRule nodeId builder (rule, index) = .ok builder')
    (hnext : propagateRule true working rule = .ok next) :
    builder'.Agrees next := by
  have hclosed := applyRuleSchema_closed h.2 rule
  have hexact : working.applyRule rule = .ok next → Exact next := h.2.applyRule
  cases rule with
  | validate predicate severity message =>
    obtain ⟨_, -, hrule⟩ := of_bind hrule
    obtain ⟨_, -, hrule⟩ := of_bind hrule
    cases hrule
    cases hnext
    exact ⟨(flushTransform_working builder).trans h.1, h.2⟩
  | deduplicate keys =>
    obtain ⟨_, -, hrule⟩ := of_bind hrule
    obtain ⟨_, -, hrule⟩ := of_bind hrule
    obtain ⟨_, -, hrule⟩ := of_bind hrule
    cases hrule
    cases hnext
    exact ⟨(flushTransform_working builder).trans h.1, h.2⟩
  | filterRows predicate =>
    obtain ⟨_, -, hrule⟩ := of_bind hrule
    obtain ⟨_, -, hnext⟩ := of_bind hnext
    cases hrule
    cases hnext
    exact ⟨(flushTransform_working builder).trans h.1, h.2⟩
  | _ =>
    obtain ⟨schema, hschema, hrule⟩ := of_bind hrule
    cases hrule
    rw [h.1] at hschema
    have hplace := hclosed.trans (congrArg (closed <$> ·) hnext)
    exact ⟨Except.ok.inj (hschema.symm.trans hplace), hexact hnext⟩

theorem buildRules_agrees (h : builder.Agrees working)
    {rules : List Rule} {nodeId : Uuid} {start : Nat}
    (hrules : (rules.zipIdx start).foldlM (buildRule nodeId) builder = .ok builder')
    (hnext : rules.foldlM (propagateRule true) working = .ok next) :
    builder'.Agrees next := by
  induction rules generalizing builder working start with
  | nil =>
    cases hrules
    cases hnext
    exact h
  | cons rule rules ih =>
    rw [zipIdx_cons, foldlM_cons] at hrules
    rw [foldlM_cons] at hnext
    obtain ⟨_, hfirst, hrules⟩ := of_bind hrules
    obtain ⟨_, hstep, hnext⟩ := of_bind hnext
    exact ih (buildRule_agrees h hfirst hstep) hrules hnext

/-- One node of the chain, in the builder and in preflight. -/
theorem buildNode_agrees (h : builder.Agrees working)
    {entry : PlanNodeId × PlanNode} {step : CompiledStep}
    (hnode : buildNode builder entry = .ok builder') (hstep : compileInner true entry = .ok step)
    (hnext : propagateStep true working step = .ok next) :
    builder'.Agrees next := by
  unfold buildNode at hnode
  unfold compileInner at hstep
  cases hkind : entry.2.kind with
  | project columns =>
    simp only [hkind] at hnode hstep
    cases hstep
    obtain ⟨schema, hschema, hnode⟩ := of_bind hnode
    cases hnode
    obtain ⟨hproject, hexact⟩ := projectSchema_closed h.2 hnext
    rw [h.1, hproject] at hschema
    exact ⟨(Except.ok.inj hschema).symm, hexact⟩
  | filter predicate =>
    simp only [hkind] at hnode hstep
    cases hstep
    obtain ⟨_, -, hnode⟩ := of_bind hnode
    obtain ⟨_, -, hnext⟩ := of_bind hnext
    cases hnode
    cases hnext
    exact h
  | applyRules rules =>
    simp only [hkind] at hnode hstep
    obtain ⟨_, -, hstep⟩ := of_bind hstep
    obtain ⟨_, -, hstep⟩ := of_bind hstep
    cases hstep
    obtain ⟨last, hrules, hnode⟩ := of_bind hnode
    cases hnode
    have hagrees := buildRules_agrees h hrules hnext
    exact ⟨(flushTransform_working last).trans hagrees.1, hagrees.2⟩
  | _ =>
    simp only [hkind] at hnode
    cases hnode

theorem buildNodes_agrees (h : builder.Agrees working)
    {entries : List (PlanNodeId × PlanNode)} {steps : List CompiledStep}
    (hnodes : entries.foldlM buildNode builder = .ok builder')
    (hsteps : entries.mapM (compileInner true) = .ok steps)
    (hnext : steps.foldlM (propagateStep true) working = .ok next) :
    builder'.Agrees next := by
  induction entries generalizing builder working steps with
  | nil =>
    cases hsteps
    cases hnodes
    cases hnext
    exact h
  | cons entry entries ih =>
    rw [foldlM_cons] at hnodes
    rw [mapM_cons] at hsteps
    obtain ⟨_, hnode, hnodes⟩ := of_bind hnodes
    obtain ⟨step, hstep, hsteps⟩ := of_bind hsteps
    obtain ⟨rest, hrest, hsteps⟩ := of_bind hsteps
    cases hsteps
    rw [foldlM_cons] at hnext
    obtain ⟨_, hfirst, hnext⟩ := of_bind hnext
    exact ih (buildNode_agrees h hnode hstep hfirst) hnodes hrest hnext

/-- After any chain of nodes that both accept, the builder's working schema is the schema that
preflight derives for the steps of these nodes, as the assertion at the builder's end has it. -/
theorem builder_schema_propagated (scanOutput final : LogicalSchema) (leading : List VStep)
    (entries : List (PlanNodeId × PlanNode)) (steps : List CompiledStep) (builder : PlanBuilder)
    (hnew : LogicalSchema.new scanOutput.fields = .ok scanOutput)
    (hflat : FlatFields scanOutput.fields)
    (hsteps : entries.mapM (compileInner true) = .ok steps)
    (hfinal : propagateSchema scanOutput steps true = .ok final)
    (hbuilder : entries.foldlM buildNode ⟨leading, [], scanOutput⟩ = .ok builder) :
    builder.working = final := by
  obtain ⟨working, hworking, hfinal⟩ := of_bind hfinal
  have hvalid := (fromParts_eq_ok.mp hnew).2
  have hplain := (schema_new_eq_ok.mp hnew).2
  have hstart : ∀ served, Exact (forShape scanOutput served) :=
    fun served => (Starts.shaped served).exact ⟨hvalid, hflat⟩
  obtain ⟨hreached, hexact⟩ := buildNodes_agrees ⟨hplain, hstart _⟩ hbuilder hsteps hworking
  rw [hreached]
  exact Except.ok.inj ((intoSchema_closed hexact).symm.trans hfinal)

/-- A rename and a validation of the renamed column, then a projection to it. -/
def renameAndCheck : List (PlanNodeId × PlanNode) :=
  [(2, ⟨[1], .applyRules [.rename 1 "key", .validate (.isNull (.column 1) true) .error "key"]⟩),
    (3, ⟨[2], .project [1]⟩)]

theorem builder_schema_renameAndCheck : ∃ steps builder final,
    renameAndCheck.mapM (compileInner true) = .ok steps ∧
    propagateSchema IncrementalSchema.twoColumns steps true = .ok final ∧
    renameAndCheck.foldlM buildNode ⟨[], [], IncrementalSchema.twoColumns⟩ = .ok builder ∧
    builder.working = final := by
  have hpropagated : (renameAndCheck.mapM (compileInner true) >>= fun steps =>
      propagateSchema IncrementalSchema.twoColumns steps true).isOk = true := by decide +kernel
  have hbuilt : (renameAndCheck.foldlM buildNode ⟨[], [], IncrementalSchema.twoColumns⟩).isOk =
      true := by decide +kernel
  obtain ⟨final, hfinal⟩ := exists_of_isOk hpropagated
  obtain ⟨steps, hsteps, hfinal⟩ := of_bind hfinal
  obtain ⟨builder, hbuilder⟩ := exists_of_isOk hbuilt
  have hflat : FlatFields IncrementalSchema.twoColumns.fields := by
    intro f hf
    simp only [IncrementalSchema.twoColumns, mem_cons, not_mem_nil, or_false] at hf
    rcases hf with rfl | rfl <;> exact trivial
  exact ⟨steps, builder, final, hsteps, hfinal, hbuilder,
    builder_schema_propagated _ _ _ _ _ _ rfl hflat hsteps hfinal hbuilder⟩

end Stillflow.Engine
