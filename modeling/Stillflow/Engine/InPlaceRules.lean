import Stillflow.Lib.InPlace
import Stillflow.Engine.Incremental

/-!
The rule methods of the incremental schema as they edit it in place, statement by statement, and
that each of them amounts to its pure reading: an error leaves no trace.
-/

namespace Stillflow.Engine

open Stillflow.Core Stillflow.Plan Lib.Fallible Lib.InPlace

namespace IncrementalSchema

open Capability

/-- A method on `&mut self`. -/
abbrev Method := InPlace IncrementalSchema EngineError Unit

/-- The working schema without index, and with one whatever the policy says. -/
def fromSchema (schema : LogicalSchema) : IncrementalSchema :=
  ⟨schema, textBytesOf schema.fields, none⟩

def indexed (schema : LogicalSchema) : IncrementalSchema :=
  { fromSchema schema with entries := some (buildOrdinals schema.fields) }

def retainOthers (column : ColumnId) (working : IncrementalSchema) : IncrementalSchema :=
  working.withFields (working.schema.fields.filter (·.id != column))

namespace Method

def rename (column : ColumnId) (target : String) : Method := do
  let working ← get
  match working.ordinalOf column with
  | none => throw (.unknownColumn column)
  | some index =>
    match working.schema.fields[index]? with
    | none => throw (.unknownColumn column)
    | some field =>
      let newTotal := if byteLen field.name ≤ working.textBytes then
        working.textBytes - byteLen field.name + byteLen target else maxSchemaTextBytes + 1
      attempt (require (newTotal ≤ maxSchemaTextBytes) (.unknownColumn column))
      attempt (require (¬(isBlank target ∨
          working.schema.fields.any fun f => f.id != column && f.name == target))
        (.unknownColumn column))
      modify fun w =>
        { w.withFields (w.schema.fields.set index { field with name := target }) with
          textBytes := newTotal }

/-- `retain` has run when the length shows that nothing was dropped. -/
def drop (column : ColumnId) : Method := do
  let working ← get
  attempt (require (1 < working.schema.fields.length)
    (.invalidPlan "cannot drop the last remaining column"))
  let removed := working.schema.fields.filter (·.id == column)
  modify (retainOthers column)
  let retained ← get
  attempt (require (retained.schema.fields.length ≠ working.schema.fields.length)
    (.unknownColumn column))
  modify fun w => refresh { w with textBytes := w.textBytes - textBytesOf removed }

def cast (column : ColumnId) (dataType : LogicalType) (onFailure : CastFailurePolicy) :
    Method := do
  let working ← get
  attempt (lift (rejectPausedType dataType))
  let field ← attempt (working.requireColumn column)
  attempt (lift (rejectPausedCast field.dataType dataType))
  let newTotal := if typeTimezoneText field.dataType ≤ working.textBytes then
    working.textBytes - typeTimezoneText field.dataType + typeTimezoneText dataType
    else maxSchemaTextBytes + 1
  attempt (require (newTotal ≤ maxSchemaTextBytes) (.invalidPlan "cast produced an invalid schema"))
  match modifyColumn (castField dataType onFailure) column working.schema.fields with
  | none => throw (.unknownColumn column)
  | some fields => modify fun w => { w.withFields fields with textBytes := newTotal }

def derive (id : ColumnId) (name : String) (dataType : LogicalType) (nullable : Bool)
    (expression : Expr) : Method := do
  let working ← get
  attempt (lift (validateExprRefs expression working.resolveColumn))
  let inferred ← attempt (lift (analyzeExpr expression working.resolveColumn))
  attempt (lift (rejectPausedType dataType))
  attempt (require (¬(inferred.1 ≠ .null ∧ inferred.1 ≠ dataType))
    (.typeError "derived column type does not match the typed expression"))
  attempt (require (¬((working.schema.field id).isSome ∨ working.schema.fields.any (·.name == name)))
    (.invalidPlan "derived column id or name is not unique"))
  attempt (lift (rejectPausedCastsInExpr working.resolveColumn expression))
  let nullability ← attempt (lift (analyzeExpr expression working.resolveColumn))
  attempt (require (¬(nullable = false ∧ nullability.2 = true))
    (.typeError "derived column nullability is narrower than the expression"))
  let field ← attempt ((LogicalField.new id name dataType nullable).mapError fun _ =>
    .invalidPlan "derived field is invalid")
  attempt (require (working.schema.fields.length < maxSchemaFields)
    (.invalidPlan "derive produced an invalid schema"))
  let newTotal := working.textBytes + (incrementalFieldText field + typeTimezoneText dataType)
  attempt (require (newTotal ≤ maxSchemaTextBytes)
    (.invalidPlan "derive produced an invalid schema"))
  modify fun w => refresh
    { w.withFields (w.schema.fields ++ [field]) with textBytes := newTotal }

def applyRule : Rule → Method
  | .rename column target => rename column target
  | .dropColumn column => drop column
  | .trim column => do
    let working ← get
    let field ← attempt (working.requireColumn column)
    attempt (require (field.dataType = .utf8) (.typeError "trim requires a utf8 column"))
  | .normalizeText column _ => do
    let working ← get
    let field ← attempt (working.requireColumn column)
    attempt (require (field.dataType = .utf8)
      (.typeError "text normalization requires a utf8 column"))
  | .parseTemporal column dataType onFailure _ => do
    let working ← get
    let field ← attempt (working.requireColumn column)
    attempt (require (field.dataType = .utf8)
      (.typeError "temporal parsing requires a utf8 column"))
    cast column dataType onFailure
  | .cast column dataType onFailure => cast column dataType onFailure
  | .replaceLiteral column source target => do
    let working ← get
    let field ← attempt (working.requireColumn column)
    attempt (validateLiteralForColumn field.dataType source)
    attempt (validateLiteralForColumn field.dataType target)
    attempt (require (¬(field.dataType = .binary ∧ ¬(source = .null ∧ target = .null)))
      (.typeError "binary replace-literal may only use null-to-null"))
    if target = .null then modify (·.setNullable column true)
  | .fillNull column value => do
    attempt (require (value ≠ .null) (.typeError "fill-null value must not be null"))
    let working ← get
    let field ← attempt (working.requireColumn column)
    attempt (require (field.dataType ≠ .binary)
      (.typeError "fill-null is not authorized on binary"))
    attempt (validateLiteralForColumn field.dataType value)
    modify (·.setNullable column false)
  | .deriveColumn id name dataType nullable expression =>
    derive id name dataType nullable expression
  | .filterRows predicate => do
    let working ← get
    attempt (requireBooleanIn predicate working.resolveColumn)
  | .validate _ _ _ => throw (.unsupportedRule 0 "validate")
  | .deduplicate _ => throw (.unsupportedRule 0 "deduplicate")

end Method

variable (working : IncrementalSchema)

theorem amounts_rename (column : ColumnId) (target : String) :
    Amounts (Method.rename column target) working (working.applyRename column target) := by
  unfold Method.rename applyRename
  apply Amounts.get_bind
  cases working.ordinalOf column with
  | none => exact .throw _
  | some index =>
    cases hfield : working.schema.fields[index]? with
    | none =>
      simp only [hfield]
      exact .throw _
    | some field =>
      simp only [hfield]
      refine .attempt_bind fun _ _ => .attempt_bind fun _ _ => ?_
      exact .modify _

theorem retainOthers_of_length {column : ColumnId}
    (h : (retainOthers column working).schema.fields.length = working.schema.fields.length) :
    retainOthers column working = working := by
  have hkept : working.schema.fields.filter (·.id != column) = working.schema.fields :=
    List.filter_sublist.eq_of_length h
  unfold retainOthers withFields
  rw [hkept]

theorem amounts_drop (column : ColumnId) :
    Amounts (Method.drop column) working (working.applyDrop column) := by
  apply Amounts.get_bind
  apply Amounts.attempt_bind
  intro _ _
  dsimp only
  by_cases hlength :
      (retainOthers column working).schema.fields.length = working.schema.fields.length
  · have hrefused : require ((retainOthers column working).schema.fields.length ≠
        working.schema.fields.length) (EngineError.unknownColumn column) =
        .error (.unknownColumn column) := require_eq_error.mpr ⟨not_not.mpr hlength, rfl⟩
    have hpure : require ((working.schema.fields.filter (·.id != column)).length ≠
        working.schema.fields.length) (EngineError.unknownColumn column) =
        .error (.unknownColumn column) := hrefused
    rw [hpure]
    change call _ working = (.error (EngineError.unknownColumn column), working)
    rw [call_modify_bind, call_get_bind, call_attempt_bind, hrefused,
      retainOthers_of_length working hlength]
  · have hpassed : require ((retainOthers column working).schema.fields.length ≠
        working.schema.fields.length) (EngineError.unknownColumn column) = .ok () :=
      require_eq_ok.mpr hlength
    have hpure : require ((working.schema.fields.filter (·.id != column)).length ≠
        working.schema.fields.length) (EngineError.unknownColumn column) = .ok () := hpassed
    rw [hpure, ok_bind]
    change call _ working = (.ok (), _)
    rw [call_modify_bind, call_get_bind, call_attempt_bind, hpassed]
    rfl

theorem amounts_cast (column : ColumnId) (dataType : LogicalType)
    (onFailure : CastFailurePolicy) :
    Amounts (Method.cast column dataType onFailure) working
      (working.applyCast column dataType onFailure) := by
  apply Amounts.get_bind
  refine .attempt_bind fun _ _ => .attempt_bind fun field _ => .attempt_bind fun _ _ =>
    .attempt_bind fun _ _ => ?_
  cases modifyColumn (castField dataType onFailure) column working.schema.fields with
  | none => exact .throw _
  | some fields => exact .modify _

theorem amounts_derive (id : ColumnId) (name : String) (dataType : LogicalType) (nullable : Bool)
    (expression : Expr) :
    Amounts (Method.derive id name dataType nullable expression) working
      (working.applyDerive id name dataType nullable expression) := by
  apply Amounts.get_bind
  refine .attempt_bind fun _ _ => .attempt_bind fun _ _ => .attempt_bind fun _ _ =>
    .attempt_bind fun _ _ => .attempt_bind fun _ _ => .attempt_bind fun _ _ =>
    .attempt_bind fun _ _ => .attempt_bind fun _ _ => .attempt_bind fun _ _ =>
    .attempt_bind fun _ _ => .attempt_bind fun _ _ => ?_
  exact .modify _

/-- A rule either commits the outcome of its pure reading or leaves the schema as it was. -/
theorem amounts_applyRule (rule : Rule) :
    Amounts (Method.applyRule rule) working (working.applyRule rule) := by
  cases rule with
  | rename column target => exact amounts_rename working column target
  | dropColumn column => exact amounts_drop working column
  | trim column | normalizeText column operation =>
    refine .get_bind (.attempt_bind fun _ _ => ?_)
    exact .attempt _
  | parseTemporal column dataType onFailure format =>
    refine .get_bind (.attempt_bind fun _ _ => .attempt_bind fun _ _ => ?_)
    exact amounts_cast working column dataType onFailure
  | cast column dataType onFailure => exact amounts_cast working column dataType onFailure
  | replaceLiteral column source target =>
    refine .get_bind (.attempt_bind fun _ _ => .attempt_bind fun _ _ => .attempt_bind fun _ _ =>
      .attempt_bind fun _ _ => ?_)
    by_cases htarget : target = .null
    · rw [if_pos htarget, if_pos htarget]
      exact .modify _
    · rw [if_neg htarget, if_neg htarget]
      exact .pure
  | fillNull column value =>
    refine .attempt_bind fun _ _ => .get_bind (.attempt_bind fun _ _ => .attempt_bind fun _ _ =>
      .attempt_bind fun _ _ => ?_)
    exact .modify _
  | deriveColumn id name dataType nullable expression =>
    exact amounts_derive working id name dataType nullable expression
  | filterRows predicate => exact .get_bind (.attempt _)
  | validate | deduplicate => exact .throw _

end IncrementalSchema

end Stillflow.Engine
