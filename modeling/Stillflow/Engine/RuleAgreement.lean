import Stillflow.Plan.Admissible
import Stillflow.Engine.Incremental

/-!
The incremental layer against the compiler's rule effect: the same checks on the same fields, but
schema metadata is dropped and a parse may aim at a type that is not temporal.
-/

namespace Stillflow.Engine

open Stillflow.Core Stillflow.Plan Lib.Fallible Capability List IncrementalSchema

variable {column : ColumnId} {f : LogicalField} {served : Nat}

theorem typeTimezoneText_le (ty : LogicalType) : typeTimezoneText ty ≤ typeText ty := by
  cases ty with
  | timestamp unit timezone => cases timezone <;> simp [typeTimezoneText, typeText]
  | _ => simp [typeTimezoneText]

theorem textBytesOf_cons (f : LogicalField) (fs : List LogicalField) :
    textBytesOf (f :: fs) =
      incrementalFieldText f + typeTimezoneText f.dataType + textBytesOf fs := by
  simp [textBytesOf]

theorem textBytesOf_middle (pre post : List LogicalField) (f : LogicalField) :
    textBytesOf (pre ++ f :: post) =
      incrementalFieldText f + typeTimezoneText f.dataType + textBytesOf (pre ++ post) := by
  simp only [textBytesOf, map_append, map_cons, sum_append, sum_cons]
  omega

theorem textBytesOf_le (fs : List LogicalField) : textBytesOf fs ≤ fieldsText fs := by
  induction fs with
  | nil => exact Nat.zero_le _
  | cons f fs ih =>
    have hty := typeTimezoneText_le f.dataType
    rw [textBytesOf_cons, fieldsText_cons, fieldText, incrementalFieldText]
    omega

section Working

variable {schema : LogicalSchema} (hv : schema.validate = .ok ())

include hv

theorem nodup_ids : (schema.fields.map (·.id)).Nodup :=
  (fieldsFit_of_validate hv).ok.1.nodup_ids

theorem resolveColumn_forShape (served : Nat) :
    (forShape schema served).resolveColumn = findColumn schema.fields := by
  funext id
  simp only [IncrementalSchema.resolveColumn, forShape]
  split_ifs with hi
  · exact searchOrdinal_getElem? (nodup_ids hv) id
  · rfl

theorem ordinalOf_forShape (served : Nat) (id : ColumnId) :
    (forShape schema served).ordinalOf id =
      schema.fields.findIdx? (·.id == id) := by
  simp only [ordinalOf, forShape]
  split_ifs with hi
  · exact searchOrdinal_buildOrdinals (nodup_ids hv) id
  · rfl

theorem requireColumn_eq_ok {id : ColumnId} :
    (forShape schema served).requireColumn id = .ok f ↔
      findColumn schema.fields id = some f := by
  simp only [requireColumn, resolveColumn_forShape hv]
  cases findColumn schema.fields id <;> simp

end Working

theorem intoSchema_eq_ok {working : IncrementalSchema} {s : LogicalSchema} :
    working.intoSchema = .ok s ↔ FieldsFit 0 working.schema.fields ∧
      s = ⟨logicalSchemaVersion, working.schema.fields, ∅⟩ := by
  rw [intoSchema, mapError_eq_ok, schema_new_eq_ok]

theorem set_eq_modifyColumn (edit : LogicalField → LogicalField) {fs : List LogicalField}
    {index : Nat} (hi : fs.findIdx? (·.id == column) = some index) (hf : fs[index]? = some f) :
    modifyColumn edit column fs = some (fs.set index (edit f)) := by
  induction fs generalizing index with
  | nil => simp at hi
  | cons g gs ih =>
    by_cases hg : g.id = column
    · obtain rfl : 0 = index := by simpa [findIdx?_cons, hg] using hi
      obtain rfl : g = f := by simpa using hf
      simp [modifyColumn, hg]
    · obtain ⟨i, hi', rfl⟩ : ∃ i, gs.findIdx? (·.id == column) = some i ∧ i + 1 = index := by
        simpa [findIdx?_cons, hg] using hi
      simp [modifyColumn, hg, ih hi' (by simpa using hf)]

/-- What the engine's effect amounts to on a valid schema. -/
def EngineAccepts (schema : LogicalSchema) (rule : Rule) (s : LogicalSchema) : Prop :=
  (RuleChecks schema.fields rule ∧ FieldsFit 0 (ruleFields schema.fields rule)) ∧
    s = ⟨logicalSchemaVersion, ruleFields schema.fields rule, ∅⟩

section Rules

variable {schema s : LogicalSchema} (hv : schema.validate = .ok ())

include hv

private theorem fits : FieldsFit 0 schema.fields := (fieldsFit_of_validate hv).mono (Nat.zero_le _)

theorem rename_eq_ok {target : String} :
    ruleEffect schema (.rename column target) = .ok s ↔
      EngineAccepts schema (.rename column target) s := by
  have hfind : (schema.fields.findIdx? (·.id == column)).bind (schema.fields[·]?) =
      findColumn schema.fields column := find?_eq_bind_findIdx?_getElem?.symm
  simp only [ruleEffect, applyRuleSchema, IncrementalSchema.applyRule,
    applyRename, ordinalOf_forShape hv, EngineAccepts, RuleChecks, OnColumn]
  cases hi : schema.fields.findIdx? (·.id == column) with
  | none =>
    have hf : findColumn schema.fields column = none := by rw [← hfind, hi]; rfl
    simp [hf]
  | some index =>
    rw [hi, Option.bind_some] at hfind
    cases hf : findColumn schema.fields column with
    | none =>
      rw [hf] at hfind
      simp [forShape, hfind]
    | some f =>
      rw [hf] at hfind
      have hset := set_eq_modifyColumn (fun f => { f with name := target }) hi hfind
      have hfields : ruleFields schema.fields (.rename column target) =
          schema.fields.set index { f with name := target } := by simp [ruleFields, hset]
      have hroom := fieldsFit_rename (fits hv) target hf
      rw [hfields] at hroom ⊢
      have hmem : byteLen f.name ≤ textBytesOf schema.fields := by
        obtain ⟨pre, post, hfs, -, -⟩ := findColumn_split hf id
        rw [hfs, textBytesOf_middle, incrementalFieldText]
        omega
      simp only [forShape, hfind, bind_eq_ok, require_eq_ok, exists_unit_iff,
        pure_eq_ok, Except.ok.injEq, hmem, if_true, intoSchema_eq_ok, withFields]
      constructor
      · rintro ⟨_, ⟨-, -, rfl⟩, hfit, rfl⟩
        exact ⟨⟨⟨f, rfl, trivial⟩, hfit⟩, rfl⟩
      · rintro ⟨⟨-, hfit⟩, rfl⟩
        obtain ⟨hblank, hnames, htext⟩ := hroom.mp hfit
        have hle := textBytesOf_le schema.fields
        refine ⟨_, ⟨by omega, ?_, rfl⟩, hfit, rfl⟩
        simpa [hblank] using hnames

omit hv in
theorem drop_eq_ok :
    ruleEffect schema (.dropColumn column) = .ok s ↔
      EngineAccepts schema (.dropColumn column) s := by
  simp only [ruleEffect, applyRuleSchema, IncrementalSchema.applyRule, applyDrop,
    bind_eq_ok, require_eq_ok, exists_unit_iff, pure_eq_ok, Except.ok.injEq, intoSchema_eq_ok,
    EngineAccepts, RuleChecks, OnColumn, ruleFields]
  constructor
  · rintro ⟨_, ⟨hlen, hkept, rfl⟩, hfit, rfl⟩
    refine ⟨⟨⟨hlen, ?_⟩, hfit⟩, rfl⟩
    cases hf : findColumn schema.fields column with
    | some f => exact ⟨f, rfl, trivial⟩
    | none =>
      refine absurd ?_ hkept
      have hall : ∀ g ∈ schema.fields, g.id ≠ column := by simpa [findColumn] using hf
      rw [filter_eq_self.mpr fun g hg => by simpa using hall g hg]
  · rintro ⟨⟨⟨hlen, f, hf, -⟩, hfit⟩, rfl⟩
    refine ⟨_, ⟨hlen, ?_, rfl⟩, hfit, rfl⟩
    obtain ⟨hmem, hid⟩ := findColumn_some hf
    intro heq
    have := length_filter_eq_length_iff.mp heq f hmem
    simp [hid] at this

theorem cast_eq_ok (served : Nat) (column : ColumnId) (dataType : LogicalType)
    (onFailure : CastFailurePolicy) :
    ((forShape schema served).applyCast column dataType onFailure >>=
        intoSchema) = .ok s ↔
      EngineAccepts schema (.cast column dataType onFailure) s := by
  simp only [applyCast, bind_eq_ok, require_eq_ok, exists_unit_iff,
    requireColumn_eq_ok hv, lift, mapError_eq_ok, EngineAccepts, RuleChecks, OnColumn]
  constructor
  · rintro ⟨w, ⟨hty, f, hf, hcast, -, hw⟩, hinto⟩
    obtain ⟨pre, post, -, -, hmod⟩ := findColumn_split hf (castField dataType onFailure)
    have hmod' : modifyColumn (castField dataType onFailure) column
        (forShape schema served).schema.fields = _ := hmod
    rw [hmod'] at hw
    cases hw
    have hfields : ruleFields schema.fields (.cast column dataType onFailure) =
      pre ++ castField dataType onFailure f :: post := by simp [ruleFields, hmod]
    rw [hfields]
    obtain ⟨hfit, rfl⟩ := intoSchema_eq_ok.mp hinto
    exact ⟨⟨⟨f, hf, hty, hcast⟩, hfit⟩, rfl⟩
  · rintro ⟨⟨⟨f, hf, hty, hcast⟩, hfit⟩, rfl⟩
    have hroom := (fieldsFit_cast (fits hv) onFailure hf hty).mp hfit
    obtain ⟨pre, post, hfs, -, hmod⟩ := findColumn_split hf (castField dataType onFailure)
    have hmod' : modifyColumn (castField dataType onFailure) column
        (forShape schema served).schema.fields = _ := hmod
    have hfields : ruleFields schema.fields (.cast column dataType onFailure) =
      pre ++ castField dataType onFailure f :: post := by simp [ruleFields, hmod]
    -- The counter moves by the timezone texts of the two types, validation by their full texts.
    have hbudget : typeTimezoneText f.dataType ≤ textBytesOf schema.fields ∧
        textBytesOf schema.fields - typeTimezoneText f.dataType + typeTimezoneText dataType ≤
          maxSchemaTextBytes := by
      have hrest := textBytesOf_le (pre ++ post)
      have hnew := typeTimezoneText_le dataType
      rw [hfs, fieldsText_middle, fieldText] at hroom
      rw [hfs, textBytesOf_middle, incrementalFieldText]
      omega
    refine ⟨_, ⟨hty, f, hf, hcast, ?_, by rw [hmod']; rfl⟩, intoSchema_eq_ok.mpr ?_⟩
    · exact le_of_eq_of_le (if_pos hbudget.1) hbudget.2
    · rw [hfields] at hfit ⊢
      exact ⟨hfit, rfl⟩

theorem parseTemporal_eq_ok {dataType : LogicalType} {onFailure : CastFailurePolicy}
    {format : String} :
    ruleEffect schema (.parseTemporal column dataType onFailure format) = .ok s ↔
      EngineAccepts schema (.parseTemporal column dataType onFailure format) s := by
  simp only [ruleEffect, applyRuleSchema, IncrementalSchema.applyRule, bind_assoc]
  rw [bind_eq_ok]
  simp only [requireColumn_eq_ok hv]
  constructor
  · rintro ⟨f, hf, hrest⟩
    obtain ⟨_, hutf8, hcast⟩ := of_bind hrest
    obtain ⟨⟨⟨f', hf', hty, hpaused⟩, hfit⟩, rfl⟩ :=
      (cast_eq_ok hv _ column dataType onFailure).mp hcast
    obtain rfl : f = f' := by simpa [hf] using hf'
    exact ⟨⟨⟨f, hf, require_eq_ok.mp hutf8, hty, hpaused⟩, hfit⟩, rfl⟩
  · rintro ⟨⟨⟨f, hf, hutf8, hty, hpaused⟩, hfit⟩, rfl⟩
    refine ⟨f, hf, bind_eq_ok.mpr ⟨(), require_eq_ok.mpr hutf8, ?_⟩⟩
    exact (cast_eq_ok hv _ column dataType onFailure).mpr ⟨⟨⟨f, hf, hty, hpaused⟩, hfit⟩, rfl⟩

theorem setNullable_eq_ok {nullable : Bool} (hf : findColumn schema.fields column = some f) :
    ((forShape schema served).setNullable column nullable).intoSchema = .ok s ↔
      s = ⟨logicalSchemaVersion, (modifyColumn (fun f => { f with nullable := nullable }) column
        schema.fields).getD schema.fields, ∅⟩ := by
  obtain ⟨fs', hmod, hfit⟩ := fieldsFit_setNullable (fits hv) nullable hf
  have hmod' : modifyColumn (fun f => { f with nullable := nullable }) column
      (forShape schema served).schema.fields = some fs' := hmod
  simp [setNullable, hmod', intoSchema_eq_ok, withFields, hmod,
    hfit]

theorem forShape_intoSchema :
    (forShape schema served).intoSchema = .ok s ↔
      s = ⟨logicalSchemaVersion, schema.fields, ∅⟩ := by
  rw [intoSchema_eq_ok]
  simp [forShape, fits hv]

theorem derive_eq_ok {id : ColumnId} {name : String} {dataType : LogicalType} {nullable : Bool}
    {expression : Expr} :
    ruleEffect schema (.deriveColumn id name dataType nullable expression) = .ok s ↔
      EngineAccepts schema (.deriveColumn id name dataType nullable expression) s := by
  simp only [ruleEffect, applyRuleSchema, IncrementalSchema.applyRule,
    applyDerive, bind_eq_ok, require_eq_ok, exists_unit_iff, lift, mapError_eq_ok,
    resolveColumn_forShape hv, pure_eq_ok, Except.ok.injEq, EngineAccepts, RuleChecks, ruleFields]
  constructor
  · rintro ⟨_, ⟨-, analysis, ha, hty, hmatch, hunique, hcasts, _, ha', hnull, f, hf, -, -, rfl⟩, hinto⟩
    obtain rfl : analysis = _ := by simpa [ha] using ha'
    obtain ⟨rfl, -⟩ := field_new_eq_ok.mp hf
    obtain ⟨hfit, rfl⟩ := intoSchema_eq_ok.mp hinto
    exact ⟨⟨⟨analysis, ha, hty, hmatch, hunique, hcasts, hnull⟩, hfit⟩, rfl⟩
  · rintro ⟨⟨⟨analysis, ha, hty, hmatch, hunique, hcasts, hnull⟩, hfit⟩, rfl⟩
    obtain ⟨-, hcount, htext⟩ := (fieldsFit_derive (fits hv) hty hunique).mp hfit
    refine ⟨_, ⟨validateExprRefs_of_analyzeExpr ha, analysis, ha, hty, hmatch, hunique, hcasts,
      analysis, ha, hnull, _, field_new_of_fits hfit, ?_, ?_, rfl⟩, intoSchema_eq_ok.mpr ⟨hfit, rfl⟩⟩
    · have : schema.fields.length ≤ fieldCount schema.fields := Nat.le_add_right _ _
      change schema.fields.length < _
      omega
    · have hle := textBytesOf_le schema.fields
      have hnew := typeTimezoneText_le dataType
      change textBytesOf schema.fields + (byteLen name + metadataText ∅ + _) ≤ _
      rw [metadataText_empty]
      omega

/-- The engine accepts a rule exactly when its checks pass and the mutated fields validate; schema
metadata plays no part and does not survive. -/
theorem ruleEffect_eq_ok {rule : Rule} (hp : rule.isProduct = true) :
    ruleEffect schema rule = .ok s ↔ EngineAccepts schema rule s := by
  cases rule with
  | rename column target => exact rename_eq_ok hv
  | dropColumn column => exact drop_eq_ok
  | cast column dataType onFailure => exact cast_eq_ok hv _ column dataType onFailure
  | parseTemporal column dataType onFailure format => exact parseTemporal_eq_ok hv
  | deriveColumn id name dataType nullable expression => exact derive_eq_ok hv
  | trim column | normalizeText column operation =>
    cases hf : findColumn schema.fields column <;>
      simp [ruleEffect, applyRuleSchema, IncrementalSchema.applyRule, bind_assoc, bind_eq_ok,
        requireColumn_eq_ok hv, EngineAccepts, RuleChecks, OnColumn, ruleFields, fits hv,
        forShape_intoSchema hv, hf]
  | replaceLiteral column source target =>
    cases hf : findColumn schema.fields column with
    | none => simp [ruleEffect, applyRuleSchema, IncrementalSchema.applyRule, bind_eq_ok,
        requireColumn_eq_ok hv, EngineAccepts, RuleChecks, OnColumn, hf]
    | some f =>
      obtain ⟨fs', hmod, hfit⟩ := fieldsFit_setNullable (fits hv) true hf
      cases target <;>
        simp [ruleEffect, applyRuleSchema, IncrementalSchema.applyRule, bind_assoc, bind_eq_ok,
          requireColumn_eq_ok hv, EngineAccepts, RuleChecks, OnColumn, ruleFields, fits hv,
          forShape_intoSchema hv, setNullable_eq_ok hv hf, hf, validateLiteralForColumn, hmod, hfit,
          and_assoc]
  | fillNull column value =>
    cases hf : findColumn schema.fields column with
    | none => simp [ruleEffect, applyRuleSchema, IncrementalSchema.applyRule, bind_eq_ok,
        requireColumn_eq_ok hv, EngineAccepts, RuleChecks, OnColumn, hf]
    | some f =>
      obtain ⟨fs', hmod, hfit⟩ := fieldsFit_setNullable (fits hv) false hf
      simp [ruleEffect, applyRuleSchema, IncrementalSchema.applyRule, bind_assoc, bind_eq_ok,
        requireColumn_eq_ok hv, EngineAccepts, RuleChecks, OnColumn, ruleFields,
        setNullable_eq_ok hv hf, hf, validateLiteralForColumn, hmod, hfit, and_assoc]
  | filterRows | deduplicate | validate => cases hp

end Rules

/-- A rule the engine accepts, read off the schema before the rule. -/
def RuleAdmissible (schema : LogicalSchema) (rule : Rule) : Prop :=
  RuleChecks schema.fields rule ∧ RuleRoom 0 schema.fields rule

/-- The compiler and the engine agree on a rule exactly when the engine refuses it, or the schema
has no metadata and a parse aims at a temporal type. -/
theorem ruleEffect_agree_iff (schema : LogicalSchema) (rule : Rule)
    (hv : schema.validate = .ok ()) (hp : rule.isProduct = true) :
    (∀ s, Plan.ruleEffect schema rule = .ok s ↔ Engine.ruleEffect schema rule = .ok s) ↔
      (RuleAdmissible schema rule → schema.metadata = ∅ ∧ TemporalTarget rule) := by
  have hversion := ((validate_schema_iff schema).mp hv).1
  simp only [Plan.ruleEffect_eq_ok hv, ruleEffect_eq_ok hv hp, EngineAccepts]
  constructor
  · rintro hagree ⟨hchecks, hroom⟩
    have hfit := (ruleRoom_iff (fits hv) hchecks).mp hroom
    obtain ⟨⟨-, htemporal, -⟩, heq⟩ := (hagree _).mpr ⟨⟨hchecks, hfit⟩, rfl⟩
    exact ⟨(LogicalSchema.mk.inj heq).2.2.symm, htemporal⟩
  · intro h s
    constructor
    · rintro ⟨⟨hchecks, -, hfit⟩, rfl⟩
      have hfit' := hfit.mono (Nat.zero_le _)
      obtain ⟨hmeta, -⟩ := h ⟨hchecks, (ruleRoom_iff (fits hv) hchecks).mpr hfit'⟩
      exact ⟨⟨hchecks, hfit'⟩, by rw [hmeta, hversion]⟩
    · rintro ⟨⟨hchecks, hfit⟩, rfl⟩
      obtain ⟨hmeta, htemporal⟩ := h ⟨hchecks, (ruleRoom_iff (fits hv) hchecks).mpr hfit⟩
      exact ⟨⟨hchecks, htemporal, by rw [hmeta]; exact hfit⟩, by rw [hmeta, hversion]⟩

def textSchema (metadata : Metadata) : LogicalSchema := ⟨1, [⟨1, "name", .utf8, true, ∅⟩], metadata⟩

/-- Two text columns, the first with metadata of its own. -/
def people (metadata : Metadata) : LogicalSchema :=
  ⟨1, [⟨1, "name", .utf8, true, {("label", "Name")}⟩, ⟨2, "born", .utf8, false, ∅⟩], metadata⟩

/-- Both layers parse the dates of a schema without metadata and refuse to drop an unknown column; on
a schema with metadata they part over an accepted rule. -/
theorem people_agree_iff :
    (∀ s, Plan.ruleEffect (people ∅) (.parseTemporal 2 .date32 .setNull "%F") = .ok s ↔
      Engine.ruleEffect (people ∅) (.parseTemporal 2 .date32 .setNull "%F") = .ok s) ∧
    (∀ s, Plan.ruleEffect (people {("owner", "ops")}) (.dropColumn 3) = .ok s ↔
      Engine.ruleEffect (people {("owner", "ops")}) (.dropColumn 3) = .ok s) ∧
    ¬∀ s, Plan.ruleEffect (people {("owner", "ops")}) (.dropColumn 2) = .ok s ↔
      Engine.ruleEffect (people {("owner", "ops")}) (.dropColumn 2) = .ok s := by
  refine ⟨(ruleEffect_agree_iff _ _ rfl rfl).mpr fun _ => ⟨rfl, rfl⟩,
    (ruleEffect_agree_iff _ _ rfl rfl).mpr ?_, fun hagree => ?_⟩
  · rintro ⟨⟨-, f, hf, -⟩, -⟩
    cases hf
  · obtain ⟨hmetadata, -⟩ := (ruleEffect_agree_iff _ _ rfl rfl).mp hagree
      ⟨⟨by decide, _, rfl, trivial⟩, trivial⟩
    exact absurd hmetadata (by decide)

/-- The engine drops schema metadata, and accepts a parse into `Int64` that the compiler refuses. -/
theorem ruleEffect_disagree :
    (textSchema {("owner", "ops")}).validate = .ok () ∧
    Plan.ruleEffect (textSchema {("owner", "ops")}) (.trim 1) =
      .ok (textSchema {("owner", "ops")}) ∧
    Engine.ruleEffect (textSchema {("owner", "ops")}) (.trim 1) = .ok (textSchema ∅) ∧
    textSchema {("owner", "ops")} ≠ textSchema ∅ ∧
    Plan.ruleEffect (textSchema ∅) (.parseTemporal 1 .int64 .error "%Y") =
      .error (.forColumn .invalidLogicalType 1) ∧
    Engine.ruleEffect (textSchema ∅) (.parseTemporal 1 .int64 .error "%Y") =
      .ok ⟨1, [⟨1, "name", .int64, true, ∅⟩], ∅⟩ :=
  ⟨rfl, rfl, rfl, by decide, rfl, rfl⟩

end Stillflow.Engine
