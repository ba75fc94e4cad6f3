import Stillflow.Engine.ChunkSearch
import Stillflow.Plan.Admissible

/-! The arrays the predictor measures. -/

namespace Stillflow.Engine

open Stillflow.Core Stillflow.Plan Lib Lib.Fallible List

variable {payload : ScanPayload} {scanOutput schema : LogicalSchema}

def rejectPausedSchema (schema : LogicalSchema) : Except EngineError Unit :=
  schema.fields.forM fun field => lift (Capability.rejectPausedType field.dataType)

def projectionServedLookups (scanProjection : List ColumnId) (pushProjection : Bool) : Nat :=
  saturatingMul scanProjection.length (if pushProjection then 3 else 2)

def projectSchemaWith (lookup : ColumnResolver) (columns : List ColumnId) :
    Except EngineError LogicalSchema := do
  let fields ← projectFields lookup columns []
  (LogicalSchema.new fields).mapError fun _ => .invalidPlan "projected schema is invalid"

def stepServedLookups : CompiledStep → Nat
  | .project columns => columns.length
  | .filter predicate => countExprColumnRefs predicate
  | .rules rules => (rules.map ruleServedLookups).sum
  | .sort keys => keys.length

/-- One rule of a propagated group; the routing rules leave the schema of a verification alone. -/
def propagateRule (verification : Bool) (working : IncrementalSchema) (rule : Rule) :
    Except EngineError IncrementalSchema :=
  match verification, rule with
  | true, .validate _ _ _ | true, .deduplicate _ => .ok working
  | _, rule => working.applyRule rule

def propagateStep (verification : Bool) (working : IncrementalSchema) :
    CompiledStep → Except EngineError IncrementalSchema
  | .project columns => do
    let projected ← projectSchemaWith working.resolveColumn columns
    return working.swapWith projected
  | .filter predicate => do
    requireBooleanIn predicate working.resolveColumn
    return working
  | .rules rules => rules.foldlM (propagateRule verification) working
  | .sort _ => .ok working

def propagateSchema (scanOutput : LogicalSchema) (steps : List CompiledStep) (verification : Bool) :
    Except EngineError LogicalSchema := do
  let start := IncrementalSchema.forShape scanOutput (steps.map stepServedLookups).sum
  let working ← steps.foldlM (propagateStep verification) start
  working.intoSchema

/-- The columns a connector delivers. -/
def connectorSchema (authorized : LogicalSchema) (lookup : ColumnResolver) (pushProjection : Bool)
    (scanProjection : List ColumnId) : Except EngineError LogicalSchema :=
  if pushProjection then projectSchemaWith lookup scanProjection else .ok authorized

/-- The last part of preflight: the schemas of a scan of an authorized source. -/
def prepareScan (authorized : LogicalSchema) (pushProjection : Bool)
    (scanProjection : List ColumnId) (steps : List CompiledStep) (verification : Bool) :
    Except EngineError PreparedPlan := do
  rejectPausedSchema authorized
  let lookup :=
    authorizedLookup authorized (projectionServedLookups scanProjection pushProjection)
  scanProjection.forM fun id => require ((lookup id).isSome = true) (.unknownColumn id)
  let expectedConnector ← connectorSchema authorized lookup pushProjection scanProjection
  let scanOutput ← projectSchemaWith lookup scanProjection
  rejectPausedSchema scanOutput
  let materializeSchema ← propagateSchema scanOutput steps verification
  rejectPausedSchema materializeSchema
  return ⟨pushProjection, scanProjection, expectedConnector, scanOutput, materializeSchema⟩

def columnIds (schema : LogicalSchema) : List ColumnId := schema.fields.map (·.id)

theorem columnIds_nodup (h : schema.validate = .ok ()) : (columnIds schema).Nodup :=
  (fieldsFit_of_validate h).ok.1.nodup_ids

theorem authorizedLookup_id (hids : (columnIds schema).Nodup) {served : Nat} {id : ColumnId}
    {field : LogicalField} (h : authorizedLookup schema served id = some field) :
    field.id = id := by
  have hfind : findColumn schema.fields id = some field := by
    unfold authorizedLookup at h
    split_ifs at h
    · exact (searchOrdinal_getElem? hids id).symm.trans h
    · exact h
  have := find?_some hfind
  exact eq_of_beq this

theorem projectFields_ids {lookup : ColumnResolver}
    (hlookup : ∀ {id field}, lookup id = some field → field.id = id) {columns : List ColumnId} :
    ∀ {seen : List ColumnId} {fields : List LogicalField},
      projectFields lookup columns seen = .ok fields → fields.map (·.id) = columns := by
  induction columns with
  | nil =>
    intro seen fields h
    cases h
    rfl
  | cons id columns ih =>
    intro seen fields h
    unfold projectFields at h
    obtain ⟨_, -, h⟩ := of_bind h
    obtain ⟨field, hfield, h⟩ := of_bind h
    obtain ⟨rest, hrest, h⟩ := of_bind h
    cases h
    have hsome : lookup id = some field := by
      unfold ofOption at hfield
      cases hid : lookup id with
      | none => simp [hid] at hfield
      | some found =>
        rw [hid] at hfield
        cases hfield
        rfl
    rw [map_cons, hlookup hsome, ih hrest]

theorem projectSchemaWith_ids {lookup : ColumnResolver}
    (hlookup : ∀ {id field}, lookup id = some field → field.id = id) {columns : List ColumnId}
    (h : projectSchemaWith lookup columns = .ok schema) :
    columnIds schema = columns ∧ schema.validate = .ok () := by
  unfold projectSchemaWith at h
  obtain ⟨fields, hfields, h⟩ := of_bind h
  have hnew := mapError_eq_ok.mp h
  unfold LogicalSchema.new LogicalSchema.fromParts at hnew
  obtain ⟨_, hvalid, hnew⟩ := of_bind hnew
  cases hnew
  exact ⟨projectFields_ids hlookup hfields, hvalid⟩

theorem prepareScan_ids {authorized : LogicalSchema} (hv : authorized.validate = .ok ())
    {pushProjection : Bool} {scanProjection : List ColumnId} {steps : List CompiledStep}
    {verification : Bool} {prepared : PreparedPlan}
    (h : prepareScan authorized pushProjection scanProjection steps verification = .ok prepared) :
    columnIds prepared.scanOutput = scanProjection ∧
      columnIds prepared.expectedConnector =
        (if pushProjection then scanProjection else columnIds authorized) ∧
      (columnIds prepared.expectedConnector).Nodup := by
  unfold prepareScan at h
  obtain ⟨_, -, h⟩ := of_bind h
  obtain ⟨_, -, h⟩ := of_bind h
  obtain ⟨expected, hexpected, h⟩ := of_bind h
  obtain ⟨output, houtput, h⟩ := of_bind h
  obtain ⟨_, -, h⟩ := of_bind h
  obtain ⟨_, -, h⟩ := of_bind h
  obtain ⟨_, -, h⟩ := of_bind h
  cases h
  have hlookup : ∀ {id field}, authorizedLookup authorized
      (projectionServedLookups scanProjection pushProjection) id = some field → field.id = id :=
    fun hfield => authorizedLookup_id (columnIds_nodup hv) hfield
  refine ⟨(projectSchemaWith_ids hlookup houtput).1, ?_⟩
  cases pushProjection with
  | true =>
    have hprojected := projectSchemaWith_ids hlookup hexpected
    exact ⟨hprojected.1, columnIds_nodup hprojected.2⟩
  | false =>
    cases hexpected
    exact ⟨rfl, columnIds_nodup hv⟩

/-- A payload with the column each of its arrays belongs to. -/
abbrev ScanPayload := List (ColumnId × ArrowArray)

/-- Every source column of the predictor is numbered by the place of its own array. -/
def MeasuresOwn (scanOutput : LogicalSchema) (payload : ScanPayload) : Prop :=
  ∀ c ∈ (PredictedSchema.fromScanOutput scanOutput).columns, ∀ ordinal,
    c.origin = .source ordinal → ∃ array, payload[ordinal]? = some (c.id, array)

/-- The arrays of the plan's own columns, in the order of the plan. -/
def ownArrays (scanOutput : LogicalSchema) (payload : ScanPayload) : List ArrowArray :=
  scanOutput.fields.filterMap fun field => payload.lookup field.id

theorem mem_fromScanOutput {c : PredictedColumn} :
    c ∈ (PredictedSchema.fromScanOutput schema).columns ↔
      ∃ field ordinal, schema.fields[ordinal]? = some field ∧
        c = ⟨field.id, field.name, field.dataType, field.nullable, 0, .source ordinal⟩ := by
  unfold PredictedSchema.fromScanOutput
  simp only [mem_map, Prod.exists, mem_zipIdx_iff_getElem?]
  constructor
  · rintro ⟨field, ordinal, hfield, rfl⟩
    exact ⟨field, ordinal, hfield, rfl⟩
  · rintro ⟨field, ordinal, hfield, rfl⟩
    exact ⟨field, ordinal, hfield, rfl⟩

theorem measuresOwn_iff_starts :
    MeasuresOwn scanOutput payload ↔ columnIds scanOutput <+: payload.map (·.1) := by
  rw [prefix_iff_getElem?]
  unfold MeasuresOwn columnIds
  constructor
  · intro h ordinal hlt
    rw [length_map] at hlt
    have hfield : scanOutput.fields[ordinal]? = some scanOutput.fields[ordinal] :=
      getElem?_eq_getElem hlt
    obtain ⟨array, harray⟩ := h _ (mem_fromScanOutput.mpr ⟨_, ordinal, hfield, rfl⟩) ordinal rfl
    rw [getElem?_map, harray, getElem_map]
    rfl
  · intro h c hc ordinal horigin
    obtain ⟨field, index, hfield, rfl⟩ := mem_fromScanOutput.mp hc
    cases horigin
    obtain ⟨hlt, rfl⟩ := List.getElem?_eq_some_iff.mp hfield
    have hid := h ordinal (by rw [List.length_map]; exact hlt)
    rw [getElem?_map, getElem_map] at hid
    obtain ⟨entry, hentry, heq⟩ := Option.map_eq_some_iff.mp hid
    exact ⟨entry.2, by rw [hentry, ← heq]⟩

theorem lookup_of_mem (hids : (payload.map (·.1)).Nodup) {entry : ColumnId × ArrowArray}
    (hmem : entry ∈ payload) : payload.lookup entry.1 = some entry.2 := by
  induction payload with
  | nil => cases hmem
  | cons first payload ih =>
    rw [map_cons, nodup_cons] at hids
    rw [lookup_cons]
    rcases mem_cons.mp hmem with rfl | hrest
    · rw [beq_self_eq_true]
    · have hne : entry.1 ≠ first.1 := by
        intro heq
        exact hids.1 (heq ▸ mem_map_of_mem hrest)
      rw [beq_false_of_ne hne]
      exact ih hids.2 hrest

theorem ownArrays_eq {own rest : ScanPayload} (hids : ((own ++ rest).map (·.1)).Nodup)
    (hown : own.map (·.1) = columnIds scanOutput) :
    ownArrays scanOutput (own ++ rest) = own.map (·.2) := by
  have hfields : ownArrays scanOutput (own ++ rest) =
      (columnIds scanOutput).filterMap (fun id => lookup id (own ++ rest)) := by
    unfold ownArrays columnIds
    rw [filterMap_map]
    rfl
  rw [hfields, ← hown, filterMap_map, ← filterMap_eq_map]
  refine filterMap_congr fun entry hmem => ?_
  exact lookup_of_mem hids (mem_append_left rest hmem)

theorem MeasuresOwn.predict_eq (h : MeasuresOwn scanOutput payload)
    (hids : (payload.map (·.1)).Nodup) (k offset : Nat) (steps : List CompiledStep) :
    predict k offset (payload.map (·.2)) (.fromScanOutput scanOutput) steps =
      predict k offset (ownArrays scanOutput payload) (.fromScanOutput scanOutput) steps := by
  have hpre := measuresOwn_iff_starts.mp h
  obtain ⟨own, rest, rfl, hown⟩ : ∃ own rest, payload = own ++ rest ∧
      own.map (·.1) = columnIds scanOutput := by
    refine ⟨payload.take (columnIds scanOutput).length, payload.drop (columnIds scanOutput).length,
      (take_append_drop _ _).symm, ?_⟩
    rw [map_take]
    exact (prefix_iff_eq_take.mp hpre).symm
  rw [ownArrays_eq hids hown]
  refine predict_congr (fun c hc ordinal horigin => ?_) steps
  obtain ⟨field, index, hfield, rfl⟩ := mem_fromScanOutput.mp hc
  cases horigin
  have hlength : own.length = scanOutput.fields.length := by
    have := congrArg length hown
    rwa [length_map, columnIds, length_map] at this
  have hlt : ordinal < (own.map (·.2)).length := by
    obtain ⟨hlt, -⟩ := List.getElem?_eq_some_iff.mp hfield
    rw [List.length_map]
    omega
  rw [map_append, getElem?_append_left hlt]

/-- The predictor measures the plan's own columns exactly when the connector projects, or the scan
projection lists the first columns of the source in their order. -/
theorem predictor_measures_own_iff {authorized : LogicalSchema} (hv : authorized.validate = .ok ())
    {pushProjection : Bool} {scanProjection : List ColumnId} {steps : List CompiledStep}
    {verification : Bool} {prepared : PreparedPlan}
    (h : prepareScan authorized pushProjection scanProjection steps verification = .ok prepared)
    {payload : ScanPayload} (hpayload : payload.map (·.1) = columnIds prepared.expectedConnector) :
    (MeasuresOwn prepared.scanOutput payload ∧ ∀ k offset steps,
      predict k offset (payload.map (·.2)) (.fromScanOutput prepared.scanOutput) steps =
        predict k offset (ownArrays prepared.scanOutput payload)
          (.fromScanOutput prepared.scanOutput) steps) ↔
      pushProjection = true ∨ scanProjection <+: columnIds authorized := by
  obtain ⟨houtput, hexpected, hids⟩ := prepareScan_ids hv h
  have hmeasures : MeasuresOwn prepared.scanOutput payload ↔
      pushProjection = true ∨ scanProjection <+: columnIds authorized := by
    rw [measuresOwn_iff_starts, houtput, hpayload, hexpected]
    cases pushProjection with
    | true => simp
    | false => simp
  have hnodup : (payload.map (·.1)).Nodup := hpayload ▸ hids
  rw [← hmeasures]
  exact ⟨And.left, fun hown => ⟨hown, fun k offset steps => hown.predict_eq hnodup k offset steps⟩⟩

def countField : LogicalField := ⟨1, "count", .int64, false, ∅⟩

def noteField : LogicalField := ⟨2, "note", .utf8, false, ∅⟩

def countAndNote : LogicalSchema := ⟨logicalSchemaVersion, [countField, noteField], ∅⟩

def longNote : ScanPayload :=
  [(1, .other [true]), (2, .bytes .utf8 [⟨40000000, true⟩])]

/-- A plan that reads the note measures the count instead: a row with a note that a batch can still
carry is predicted to fit, where the note itself is predicted not to. -/
theorem note_measured_as_count :
    ∃ prepared, prepareScan countAndNote false [2] [.project [2]] false = .ok prepared ∧
      longNote.map (·.1) = columnIds prepared.expectedConnector ∧
      ¬MeasuresOwn prepared.scanOutput longNote ∧
      feasible 0 (longNote.map (·.2)) (.fromScanOutput prepared.scanOutput) [.project [2]] 1 =
        .ok true ∧
      feasible 0 (ownArrays prepared.scanOutput longNote) (.fromScanOutput prepared.scanOutput)
        [.project [2]] 1 = .ok false := by
  refine ⟨⟨false, [2], countAndNote, ⟨logicalSchemaVersion, [noteField], ∅⟩,
    ⟨logicalSchemaVersion, [noteField], ∅⟩⟩, by rfl, rfl, ?_, by decide +kernel, by decide +kernel⟩
  rw [measuresOwn_iff_starts]
  decide

/-- A plan that reads the columns as they come. -/
theorem countAndNote_measured :
    ∃ prepared, prepareScan countAndNote false [1] [.project [1]] false = .ok prepared ∧
      MeasuresOwn prepared.scanOutput longNote := by
  have hprepared : prepareScan countAndNote false [1] [.project [1]] false =
      .ok ⟨false, [1], countAndNote, ⟨logicalSchemaVersion, [countField], ∅⟩,
        ⟨logicalSchemaVersion, [countField], ∅⟩⟩ := by rfl
  have hvalid : countAndNote.validate = .ok () := by decide +kernel
  have hpayload : longNote.map (·.1) = columnIds countAndNote := rfl
  have hmeasured := (predictor_measures_own_iff hvalid hprepared hpayload).mpr (.inr (by decide))
  exact ⟨_, hprepared, hmeasured.1⟩

end Stillflow.Engine
