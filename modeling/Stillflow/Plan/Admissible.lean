import Stillflow.Plan.RuleEffect
import Stillflow.Plan.Analysis

/-!
Preconditions of the product rules in terms of the schema before the rule, and the field list after
it.
-/

namespace Stillflow.Plan

open Stillflow.Core Lib.Fallible Capability

variable {column : ColumnId} {dataType : LogicalType} {f : LogicalField}
  {fields : List LogicalField} {s schema : LogicalSchema}

/-- A field list that validates when `base` text bytes are spent outside of it. -/
structure FieldsFit (base : Nat) (fields : List LogicalField) : Prop where
  ok : FieldsOk fields
  count_le : fieldCount fields ≤ maxSchemaFields
  text_le : base + fieldsText fields ≤ maxSchemaTextBytes

theorem fieldsFit_of_validate (h : schema.validate = .ok ()) :
    FieldsFit (metadataText schema.metadata) schema.fields := by
  obtain ⟨-, -, hok, hcount, htext⟩ := (validate_schema_iff schema).mp h
  exact ⟨hok, hcount, htext⟩

theorem FieldsFit.mono {base base' : Nat} (h : FieldsFit base fields) (hb : base' ≤ base) :
    FieldsFit base' fields :=
  ⟨h.ok, h.count_le, by have := h.text_le; omega⟩

theorem rebuild_eq_ok (h : schema.validate = .ok ()) : rebuild schema fields = .ok s ↔
      FieldsFit (metadataText schema.metadata) fields ∧
        s = ⟨schema.version, fields, schema.metadata⟩ := by
  obtain ⟨hv, hsafe, -⟩ := (validate_schema_iff schema).mp h
  rw [rebuild, mapError_eq_ok, fromParts_eq_ok]
  constructor
  · rintro ⟨rfl, hs⟩
    exact ⟨fieldsFit_of_validate hs, rfl⟩
  · rintro ⟨hfit, rfl⟩
    exact ⟨rfl, (validate_schema_iff _).mpr ⟨hv, hsafe, hfit.ok, hfit.count_le, hfit.text_le⟩⟩

theorem schema_new_eq_ok :
    LogicalSchema.new fields = .ok s ↔
      FieldsFit 0 fields ∧ s = ⟨logicalSchemaVersion, fields, ∅⟩ := by
  rw [LogicalSchema.new, fromParts_eq_ok]
  constructor
  · rintro ⟨rfl, hs⟩
    exact ⟨fieldsFit_of_validate hs, rfl⟩
  · rintro ⟨hfit, rfl⟩
    exact ⟨rfl, (validate_schema_iff _).mpr
      ⟨rfl, metadataSafe_empty, hfit.ok, hfit.count_le, hfit.text_le⟩⟩

theorem fieldsFit_edit {base : Nat} {fs : List LogicalField} (edit : LogicalField → LogicalField)
    (hfit : FieldsFit base fs) (hf : findColumn fs column = some f) (hid : (edit f).id = f.id)
    (hmeta : (edit f).metadata = f.metadata) :
    ∃ fs', modifyColumn edit column fs = some fs' ∧
      (FieldsFit base fs' ↔ isBlank (edit f).name = false ∧
        (∀ g ∈ fs, g.id ≠ column → g.name ≠ (edit f).name) ∧ TypeOk 1 (edit f).dataType ∧
        fieldCount fs + typeFieldCount (edit f).dataType ≤
          maxSchemaFields + typeFieldCount f.dataType ∧
        base + fieldsText fs + byteLen (edit f).name + typeText (edit f).dataType ≤
          maxSchemaTextBytes + byteLen f.name + typeText f.dataType) := by
  obtain ⟨pre, post, rfl, hpre, hmod⟩ := findColumn_split hf edit
  obtain ⟨-, hfid⟩ := findColumn_some hf
  refine ⟨_, hmod, ?_⟩
  obtain ⟨⟨-, hsafe, hids, -, -⟩, hrest⟩ := fieldsOk_middle.mp hfit.ok
  have hothers : ∀ {p : LogicalField → Prop}, (∀ g ∈ pre ++ f :: post, g.id ≠ column → p g) ↔
      ∀ g ∈ pre ++ post, p g := by
    intro p
    constructor
    · intro h g hg
      exact h g (by simp at hg ⊢; tauto) (hfid ▸ hids g hg)
    · intro h g hg hne
      refine h g ?_
      have hgf : g ≠ f := fun heq => hne (heq ▸ hfid)
      simp at hg ⊢
      tauto
  have hcount := fieldCount_middle pre post f
  have hcount' := fieldCount_middle pre post (edit f)
  have htext := fieldsText_middle pre post f
  have htext' := fieldsText_middle pre post (edit f)
  simp only [fieldText, hmeta] at htext htext'
  constructor
  · rintro ⟨hok, hc, ht⟩
    obtain ⟨⟨hblank, -, -, hnames, hty⟩, -⟩ := fieldsOk_middle.mp hok
    exact ⟨hblank, hothers.mpr hnames, hty, by omega, by omega⟩
  · rintro ⟨hblank, hnames, hty, hc, ht⟩
    exact ⟨fieldsOk_middle.mpr ⟨⟨hblank, by rw [hmeta]; exact hsafe, by rw [hid]; exact hids,
      hothers.mp hnames, hty⟩, hrest⟩, by omega, by omega⟩

/-- Accepted types are flat, so that the only text in them is a timezone. -/
theorem rejectPausedType_eq_ok {ty : LogicalType} (h : rejectPausedType ty = .ok ()) :
    TypeOk 1 ty ∧ typeFieldCount ty = 0 := by
  cases ty with
  | list _ => simp [rejectPausedType] at h
  | struct _ => simp [rejectPausedType] at h
  | timestamp unit timezone =>
    cases unit with
    | second => simp [rejectPausedType] at h
    | _ => exact ⟨((validate_type_iff _).mp (by simpa [rejectPausedType] using h)).1, rfl⟩
  | _ => exact ⟨((validate_type_iff _).mp (by simpa [rejectPausedType] using h)).1, rfl⟩

/-- What a column rule needs of the column it names. -/
def OnColumn (fields : List LogicalField) (column : ColumnId) (p : LogicalField → Prop) : Prop :=
  ∃ f, findColumn fields column = some f ∧ p f

/-- The checks both layers make on the schema before a rule. The temporal target of
`ParseTemporal` is not among them. -/
def RuleChecks (fields : List LogicalField) : Rule → Prop
  | .rename column _ => OnColumn fields column fun _ => True
  | .trim column | .normalizeText column _ => OnColumn fields column fun f => f.dataType = .utf8
  | .cast column dataType _ => OnColumn fields column fun f =>
    rejectPausedType dataType = .ok () ∧ rejectPausedCast f.dataType dataType = .ok ()
  | .parseTemporal column dataType _ _ => OnColumn fields column fun f =>
    f.dataType = .utf8 ∧ rejectPausedType dataType = .ok () ∧
      rejectPausedCast f.dataType dataType = .ok ()
  | .replaceLiteral column source target => OnColumn fields column fun f =>
    literalCompatible f.dataType source = true ∧ literalCompatible f.dataType target = true ∧
      ¬(f.dataType = .binary ∧ ¬(source = .null ∧ target = .null))
  | .fillNull column value => value ≠ .null ∧ OnColumn fields column fun f =>
    f.dataType ≠ .binary ∧ literalCompatible f.dataType value = true
  | .dropColumn column => 1 < fields.length ∧ OnColumn fields column fun _ => True
  | .deriveColumn id name dataType nullable expression =>
    ∃ analysis, analyzeExpr expression (findColumn fields) = .ok analysis ∧
      rejectPausedType dataType = .ok () ∧
      ¬(analysis.1 ≠ .null ∧ analysis.1 ≠ dataType) ∧
      ¬((findColumn fields id).isSome ∨ fields.any (·.name == name)) ∧
      rejectPausedCastsInExpr (findColumn fields) expression = .ok () ∧
      ¬(nullable = false ∧ analysis.2 = true)
  | .filterRows _ | .deduplicate _ | .validate _ _ _ => False

/-- Room for the result of a rule, when `base` text bytes are spent outside the field list: a
usable name, the field limit and the text limit. -/
def RuleRoom (base : Nat) (fields : List LogicalField) : Rule → Prop
  | .rename column target => OnColumn fields column fun f =>
    isBlank target = false ∧ (∀ g ∈ fields, g.id ≠ column → g.name ≠ target) ∧
      base + fieldsText fields + byteLen target ≤ maxSchemaTextBytes + byteLen f.name
  | .cast column dataType _ | .parseTemporal column dataType _ _ =>
    OnColumn fields column fun f =>
      base + fieldsText fields + typeText dataType ≤ maxSchemaTextBytes + typeText f.dataType
  | .deriveColumn _ name dataType _ _ => isBlank name = false ∧
    fieldCount fields + 1 ≤ maxSchemaFields ∧
    base + fieldsText fields + byteLen name + typeText dataType ≤ maxSchemaTextBytes
  | _ => True

/-- `ParseTemporal` aims at a date or a timestamp. -/
def TemporalTarget : Rule → Prop
  | .parseTemporal _ dataType _ _ => isDateOrTimestamp dataType = true
  | _ => True

/-- The field list after a rule. -/
def ruleFields (fields : List LogicalField) : Rule → List LogicalField
  | .rename column target =>
    (modifyColumn (fun f => { f with name := target }) column fields).getD fields
  | .cast column dataType onFailure | .parseTemporal column dataType onFailure _ =>
    (modifyColumn (castField dataType onFailure) column fields).getD fields
  | .replaceLiteral column _ .null =>
    (modifyColumn (fun f => { f with nullable := true }) column fields).getD fields
  | .fillNull column _ =>
    (modifyColumn (fun f => { f with nullable := false }) column fields).getD fields
  | .dropColumn column => fields.filter (·.id != column)
  | .deriveColumn id name dataType nullable _ => fields ++ [⟨id, name, dataType, nullable, ∅⟩]
  | _ => fields

section Room

variable {base : Nat} {fs : List LogicalField} (hfit : FieldsFit base fs)

include hfit

theorem fieldsFit_rename (target : String) (hf : findColumn fs column = some f) :
    FieldsFit base (ruleFields fs (.rename column target)) ↔ isBlank target = false ∧
      (∀ g ∈ fs, g.id ≠ column → g.name ≠ target) ∧
      base + fieldsText fs + byteLen target ≤ maxSchemaTextBytes + byteLen f.name := by
  obtain ⟨fs', hmod, hiff⟩ :=
    fieldsFit_edit (fun f => { f with name := target }) hfit hf rfl rfl
  have hty : TypeOk 1 f.dataType := fieldTypesOk_iff.mp hfit.ok.2 f (findColumn_some hf).1
  have hcount := hfit.count_le
  simp only [ruleFields, hmod, Option.getD_some, hiff]
  constructor
  · rintro ⟨hb, hn, -, -, ht⟩
    exact ⟨hb, hn, by omega⟩
  · rintro ⟨hb, hn, ht⟩
    exact ⟨hb, hn, hty, by omega, by omega⟩

theorem name_usable (hf : findColumn fs column = some f) :
    isBlank f.name = false ∧ ∀ g ∈ fs, g.id ≠ column → g.name ≠ f.name := by
  obtain ⟨hmem, rfl⟩ := findColumn_some hf
  refine ⟨hfit.ok.1.name_nonblank f hmem, fun g hg hne heq => hne ?_⟩
  exact congrArg _ (List.inj_on_of_nodup_map hfit.ok.1.nodup_names hg hmem heq)

theorem fieldsFit_cast (onFailure : CastFailurePolicy) (hf : findColumn fs column = some f)
    (hty : rejectPausedType dataType = .ok ()) :
    FieldsFit base (ruleFields fs (.cast column dataType onFailure)) ↔
      base + fieldsText fs + typeText dataType ≤ maxSchemaTextBytes + typeText f.dataType := by
  obtain ⟨fs', hmod, hiff⟩ :=
    fieldsFit_edit (castField dataType onFailure) hfit hf rfl rfl
  obtain ⟨hok, hflat⟩ := rejectPausedType_eq_ok hty
  obtain ⟨hblank, hnames⟩ := name_usable hfit hf
  have hcount := hfit.count_le
  simp only [ruleFields, hmod, Option.getD_some, hiff, castField, hflat]
  constructor
  · rintro ⟨-, -, -, -, ht⟩
    omega
  · intro ht
    exact ⟨hblank, hnames, hok, by omega, by omega⟩

theorem fieldsFit_setNullable (nullable : Bool) (hf : findColumn fs column = some f) : ∃ fs',
    modifyColumn (fun f => { f with nullable := nullable }) column fs = some fs' ∧
      FieldsFit base fs' := by
  obtain ⟨fs', hmod, hiff⟩ :=
    fieldsFit_edit (fun f => { f with nullable := nullable }) hfit hf rfl rfl
  obtain ⟨hblank, hnames⟩ := name_usable hfit hf
  have hty : TypeOk 1 f.dataType := fieldTypesOk_iff.mp hfit.ok.2 f (findColumn_some hf).1
  have hcount := hfit.count_le
  have htext := hfit.text_le
  exact ⟨fs', hmod, hiff.mpr ⟨hblank, hnames, hty, by simp only; omega, by simp only; omega⟩⟩

theorem filter_split {pre post : List LogicalField} (hfs : fs = pre ++ f :: post)
    (hid : f.id = column) : fs.filter (·.id != column) = pre ++ post := by
  subst hfs hid
  obtain ⟨⟨-, -, hids, -, -⟩, -⟩ := fieldsOk_middle.mp hfit.ok
  have hkeep : (pre ++ post).filter (·.id != f.id) = pre ++ post :=
    List.filter_eq_self.mpr fun g hg => by simpa using hids g hg
  simpa using hkeep

theorem fieldsFit_drop (hf : findColumn fs column = some f) :
    FieldsFit base (ruleFields fs (.dropColumn column)) := by
  obtain ⟨pre, post, hfs, -, -⟩ := findColumn_split hf id
  rw [ruleFields, filter_split hfit hfs (findColumn_some hf).2]
  subst hfs
  obtain ⟨-, hrest⟩ := fieldsOk_middle.mp hfit.ok
  have hcount := fieldCount_middle pre post f ▸ hfit.count_le
  have htext := fieldsText_middle pre post f ▸ hfit.text_le
  exact ⟨hrest, by omega, by omega⟩

theorem fieldsFit_derive {id : ColumnId} {name : String} {nullable : Bool}
    (hty : rejectPausedType dataType = .ok ())
    (hunique : ¬((findColumn fs id).isSome ∨ fs.any (·.name == name))) :
    FieldsFit base (fs ++ [⟨id, name, dataType, nullable, ∅⟩]) ↔ isBlank name = false ∧
      fieldCount fs + 1 ≤ maxSchemaFields ∧
      base + fieldsText fs + byteLen name + typeText dataType ≤ maxSchemaTextBytes := by
  obtain ⟨hok, hflat⟩ := rejectPausedType_eq_ok hty
  have hids : ∀ g ∈ fs, g.id ≠ id := by
    intro g hg heq
    refine hunique (.inl ?_)
    simpa [findColumn] using ⟨g, hg, heq⟩
  have hnames : ∀ g ∈ fs, g.name ≠ name := by
    intro g hg heq
    exact hunique (.inr (by simpa using ⟨g, hg, heq⟩))
  have hcount := fieldCount_middle fs [] ⟨id, name, dataType, nullable, ∅⟩
  have htext := fieldsText_middle fs [] ⟨id, name, dataType, nullable, ∅⟩
  simp only [fieldText, metadataText_empty, hflat, List.append_nil] at hcount htext
  constructor
  · rintro ⟨hfs, hc, ht⟩
    obtain ⟨⟨hblank, -⟩, -⟩ := fieldsOk_middle.mp hfs
    exact ⟨hblank, by omega, by omega⟩
  · rintro ⟨hblank, hc, ht⟩
    refine ⟨fieldsOk_middle.mpr ⟨⟨hblank, metadataSafe_empty, ?_, ?_, hok⟩, ?_⟩, by omega, by omega⟩
    · simpa using hids
    · simpa using hnames
    · simpa using hfit.ok

/-- With the checks passed, there is room for the result exactly when the result validates. -/
theorem ruleRoom_iff {rule : Rule} (hc : RuleChecks fs rule) :
    RuleRoom base fs rule ↔ FieldsFit base (ruleFields fs rule) := by
  cases rule with
  | rename column target =>
    obtain ⟨f, hf, -⟩ := hc
    rw [fieldsFit_rename hfit target hf]
    simp [RuleRoom, OnColumn, hf]
  | cast column dataType onFailure =>
    obtain ⟨f, hf, hty, -⟩ := hc
    rw [fieldsFit_cast hfit onFailure hf hty]
    simp [RuleRoom, OnColumn, hf]
  | parseTemporal column dataType onFailure format =>
    obtain ⟨f, hf, -, hty, -⟩ := hc
    have hcast := fieldsFit_cast hfit onFailure hf hty
    simp only [ruleFields] at hcast ⊢
    rw [hcast]
    simp [RuleRoom, OnColumn, hf]
  | replaceLiteral column source target =>
    obtain ⟨f, hf, -⟩ := hc
    obtain ⟨fs', hmod, hfit'⟩ := fieldsFit_setNullable hfit true hf
    cases target <;> simp [RuleRoom, ruleFields, hmod, hfit, hfit']
  | fillNull column value =>
    obtain ⟨-, f, hf, -⟩ := hc
    obtain ⟨fs', hmod, hfit'⟩ := fieldsFit_setNullable hfit false hf
    simp [RuleRoom, ruleFields, hmod, hfit']
  | dropColumn column =>
    obtain ⟨-, f, hf, -⟩ := hc
    simpa [RuleRoom] using fieldsFit_drop hfit hf
  | deriveColumn id name dataType nullable expression =>
    obtain ⟨_, -, hty, -, hunique, -⟩ := hc
    exact (fieldsFit_derive hfit hty hunique).symm
  | trim | normalizeText => simpa [RuleRoom, ruleFields] using hfit
  | filterRows | deduplicate | validate => exact hc.elim

end Room

theorem rebuildWith_eq_ok {edit : LogicalField → LogicalField} (h : schema.validate = .ok ())
    (hf : findColumn schema.fields column = some f) :
    rebuildWith schema column edit = .ok s ↔
      FieldsFit (metadataText schema.metadata)
        ((modifyColumn edit column schema.fields).getD schema.fields) ∧
      s = ⟨schema.version, (modifyColumn edit column schema.fields).getD schema.fields,
        schema.metadata⟩ := by
  obtain ⟨pre, post, -, -, hmod⟩ := findColumn_split hf edit
  simp only [rebuildWith, hmod, rebuild_eq_ok h, Option.getD_some]

/-- A field that fits at the end of a list passes its own validation. -/
theorem field_new_of_fits {base : Nat} {fs : List LogicalField} {id : ColumnId} {name : String}
    {nullable : Bool} (hfit : FieldsFit base (fs ++ [⟨id, name, dataType, nullable, ∅⟩])) :
    LogicalField.new id name dataType nullable = .ok ⟨id, name, dataType, nullable, ∅⟩ := by
  obtain ⟨hok, hcount, htext⟩ := hfit
  obtain ⟨⟨hblank, hsafe, -, -, hty⟩, -⟩ := fieldsOk_middle.mp hok
  rw [fieldCount_middle] at hcount
  rw [fieldsText_middle] at htext
  refine field_new_eq_ok.mpr ⟨rfl, (validateFields_iff _).mpr ⟨?_, ?_, ?_⟩⟩
  · exact ⟨fieldListOk_cons.mpr ⟨hblank, hsafe, by simp, by simp, fieldListOk_nil⟩, hty, trivial⟩
  · rw [fieldCount_cons, show fieldCount [] = 0 from rfl]
    omega
  · rw [fieldsText_cons, show fieldsText [] = 0 from rfl]
    omega

/-- A cast that parses text into a date or a timestamp is never a paused cast. -/
theorem rejectPausedCast_temporal (ty : LogicalType) (h : isDateOrTimestamp ty = true) :
    rejectPausedCast .utf8 ty = .ok () := by
  cases ty <;> simp [isDateOrTimestamp] at h <;> rfl

/-- The compiler accepts a rule exactly when its checks pass, a parse aims at a temporal type and
the rebuilt schema validates. -/
theorem ruleEffect_eq_ok {rule : Rule} (h : schema.validate = .ok ()) :
    ruleEffect schema rule = .ok s ↔
      (RuleChecks schema.fields rule ∧ TemporalTarget rule ∧
        FieldsFit (metadataText schema.metadata) (ruleFields schema.fields rule)) ∧
      s = ⟨schema.version, ruleFields schema.fields rule, schema.metadata⟩ := by
  have hfit := fieldsFit_of_validate h
  have hself : (schema = s) = (s = schema) := propext eq_comm
  cases rule with
  | filterRows | deduplicate | validate => simp [ruleEffect, RuleChecks]
  | dropColumn column =>
    simp [ruleEffect, bind_eq_ok, rebuild_eq_ok h, RuleChecks, OnColumn, TemporalTarget, ruleFields,
      and_assoc]
  | deriveColumn id name dataType nullable expression =>
    simp only [ruleEffect, bind_eq_ok, require_eq_ok, mapError_eq_ok, exists_unit_iff,
      rebuild_eq_ok h, RuleChecks, TemporalTarget, ruleFields, true_and]
    constructor
    · rintro ⟨analysis, ha, hty, hmatch, hunique, hcasts, hnull, f, hf, hfit', rfl⟩
      obtain ⟨rfl, -⟩ := field_new_eq_ok.mp hf
      exact ⟨⟨⟨analysis, ha, hty, hmatch, hunique, hcasts, hnull⟩, hfit'⟩, rfl⟩
    · rintro ⟨⟨⟨analysis, ha, hty, hmatch, hunique, hcasts, hnull⟩, hfit'⟩, rfl⟩
      exact ⟨analysis, ha, hty, hmatch, hunique, hcasts, hnull, _, field_new_of_fits hfit', hfit', rfl⟩
  | rename column target =>
    cases hf : findColumn schema.fields column with
    | none => simp [ruleEffect, rebuildWith, modifyColumn_eq_none _ hf, RuleChecks, OnColumn, hf]
    | some f =>
      simp [ruleEffect, rebuildWith_eq_ok h hf, RuleChecks, OnColumn, hf, TemporalTarget, ruleFields]
  | trim column | normalizeText column operation =>
    cases hf : findColumn schema.fields column <;>
      simp [ruleEffect, bind_eq_ok, RuleChecks, OnColumn, TemporalTarget, ruleFields, hf, hfit,
        hself]
  | cast column dataType onFailure =>
    cases hf : findColumn schema.fields column with
    | none => simp [ruleEffect, bind_eq_ok, RuleChecks, OnColumn, hf]
    | some f =>
      simp [ruleEffect, bind_eq_ok, rebuildWith_eq_ok h hf, RuleChecks, OnColumn, hf,
        TemporalTarget, ruleFields, and_assoc]
  | parseTemporal column dataType onFailure format =>
    cases hf : findColumn schema.fields column with
    | none => simp [ruleEffect, bind_eq_ok, RuleChecks, OnColumn, hf]
    | some f =>
      simp [ruleEffect, bind_eq_ok, rebuildWith_eq_ok h hf, RuleChecks, OnColumn, hf,
        TemporalTarget, ruleFields, and_assoc]
      intro hutf8
      rw [hutf8]
      have := rejectPausedCast_temporal dataType
      tauto
  | replaceLiteral column source target =>
    cases hf : findColumn schema.fields column with
    | none => simp [ruleEffect, bind_eq_ok, RuleChecks, OnColumn, hf]
    | some f =>
      cases target <;>
        simp [ruleEffect, bind_eq_ok, rebuildWith_eq_ok h hf, RuleChecks, OnColumn, hf, TemporalTarget, ruleFields, and_assoc,
          validateLiteralForColumn, hfit, hself]
  | fillNull column value =>
    cases hf : findColumn schema.fields column with
    | none => simp [ruleEffect, bind_eq_ok, RuleChecks, OnColumn, hf]
    | some f =>
      simp [ruleEffect, bind_eq_ok, rebuildWith_eq_ok h hf,
        RuleChecks, OnColumn, hf, TemporalTarget, ruleFields, and_assoc, validateLiteralForColumn]

end Stillflow.Plan
