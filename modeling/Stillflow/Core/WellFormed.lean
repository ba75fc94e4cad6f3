import Stillflow.Core.Validate

/-!
What schema validation accepts, in closed form: local well-formedness of every type and field list,
plus two totals that must stay within the budgets.
-/

namespace Stillflow.Core

open Lib.Fallible Lib.WorkStack List

variable {b b' : SchemaBudget} {depth : Nat} {fs : List LogicalField}

/-- `b'` is `b` after spending a number of fields and of text bytes. -/
def SchemaBudget.Spent (b : SchemaBudget) (fields text : Nat) (b' : SchemaBudget) : Prop :=
  b'.fields = b.fields + fields ∧ b'.textBytes = b.textBytes + text

namespace SchemaBudget

theorem eq_of_spent_zero (h : b.Spent 0 0 b') : b' = b := by
  obtain ⟨f, t, hf, ht⟩ := b
  obtain ⟨f', t', hf', ht'⟩ := b'
  obtain ⟨rfl, rfl⟩ : f' = f ∧ t' = t := h
  rfl

theorem spent_zero_iff : b.Spent 0 0 b' ↔ b = b' :=
  ⟨fun h => (eq_of_spent_zero h).symm, fun h => h ▸ ⟨rfl, rfl⟩⟩

theorem spent_add_iff {f t f' t' : Nat} :
    (∃ b₁, b.Spent f t b₁ ∧ b₁.Spent f' t' b') ↔ b.Spent (f + f') (t + t') b' := by
  constructor
  · rintro ⟨b₁, ⟨hf, ht⟩, ⟨hf', ht'⟩⟩
    exact ⟨by omega, by omega⟩
  · rintro ⟨hf, ht⟩
    have hle := b'.fields_le
    have hle' := b'.textBytes_le
    exact ⟨⟨b.fields + f, b.textBytes + t, by omega, by omega⟩, ⟨rfl, rfl⟩,
      ⟨by simp only; omega, by simp only; omega⟩⟩

theorem exists_spent_iff {f t : Nat} :
    (∃ b', b.Spent f t b') ↔
      b.fields + f ≤ maxSchemaFields ∧ b.textBytes + t ≤ maxSchemaTextBytes := by
  constructor
  · rintro ⟨b', hf, ht⟩
    exact ⟨hf ▸ b'.fields_le, ht ▸ b'.textBytes_le⟩
  · rintro ⟨hf, ht⟩
    exact ⟨⟨_, _, hf, ht⟩, rfl, rfl⟩

theorem addField_eq_ok : b.addField = .ok b' ↔ b.Spent 1 0 b' := by
  have hmax : maxSchemaFields < usizeMax := by decide
  have hle := b'.fields_le
  obtain ⟨f, t, hf, ht⟩ := b
  obtain ⟨f', t', hf', ht'⟩ := b'
  simp only [addField, Spent]
  split_ifs with h₁ h₂ <;> simp_all <;> omega

theorem addText_eq_ok {n : Nat} : b.addText n = .ok b' ↔ b.Spent 0 n b' := by
  have hmax : maxSchemaTextBytes < usizeMax := by decide
  obtain ⟨f, t, hf, ht⟩ := b
  obtain ⟨f', t', hf', ht'⟩ := b'
  simp only [addText, Spent]
  split_ifs with h₁ h₂ <;> simp_all <;> omega

end SchemaBudget

open SchemaBudget

def metadataText (metadata : Metadata) : Nat :=
  (metadata.toList.map fun entry => byteLen entry.1 + byteLen entry.2).sum

@[simp] theorem metadataText_empty : metadataText ∅ = 0 := rfl

theorem validateMetadataEntries_eq_ok {entries : List (String × String)} :
    entries.foldlM validateMetadataEntry b = .ok b' ↔
      b.Spent 0 (entries.map fun entry => byteLen entry.1 + byteLen entry.2).sum b' := by
  induction entries generalizing b with
  | nil => simp [spent_zero_iff]
  | cons entry entries ih =>
    simp only [foldlM_cons, bind_eq_ok, validateMetadataEntry, addText_eq_ok, spent_add_iff, ih,
      map_cons, sum_cons, Nat.add_zero]

theorem validateMetadata_eq_ok {metadata : Metadata} :
    validateMetadata metadata b = .ok b' ↔
      metadataSafe metadata = true ∧ b.Spent 0 (metadataText metadata) b' := by
  simp only [validateMetadata, bind_eq_ok, validateMetadataEntries_eq_ok]
  by_cases hs : metadataSafe metadata = true
  · simp only [hs, if_true, Except.ok.injEq, exists_eq_right, true_and]
    rfl
  · simp [hs]

/-- Names are present, metadata carries no secrets, ids and names are unique in the list. -/
structure FieldListOk (fields : List LogicalField) : Prop where
  name_nonblank : ∀ f ∈ fields, isBlank f.name = false
  metadata_safe : ∀ f ∈ fields, metadataSafe f.metadata = true
  nodup_ids : (fields.map (·.id)).Nodup
  nodup_names : (fields.map (·.name)).Nodup

def fieldListText (fields : List LogicalField) : Nat :=
  (fields.map fun f => byteLen f.name + metadataText f.metadata).sum

theorem fieldListOk_nil : FieldListOk [] := ⟨by simp, by simp, by simp, by simp⟩

theorem fieldListOk_cons {f : LogicalField} :
    FieldListOk (f :: fs) ↔ isBlank f.name = false ∧ metadataSafe f.metadata = true ∧
      (∀ g ∈ fs, g.id ≠ f.id) ∧ (∀ g ∈ fs, g.name ≠ f.name) ∧ FieldListOk fs := by
  constructor
  · rintro ⟨hb, hm, hi, hn⟩
    simp only [map_cons, nodup_cons, mem_map, not_exists, not_and] at hi hn
    exact ⟨hb f (by simp), hm f (by simp), hi.1, hn.1,
      ⟨fun g hg => hb g (by simp [hg]), fun g hg => hm g (by simp [hg]), hi.2, hn.2⟩⟩
  · rintro ⟨hb, hm, hi, hn, h⟩
    refine ⟨by simpa using ⟨hb, h.name_nonblank⟩, by simpa using ⟨hm, h.metadata_safe⟩, ?_, ?_⟩
    · simpa using ⟨hi, h.nodup_ids⟩
    · simpa using ⟨hn, h.nodup_names⟩

theorem validateFieldLoop_eq_ok {ids : List ColumnId} {names : List String} :
    validateFieldLoop fs ids names b = .ok b' ↔
      (FieldListOk fs ∧ (∀ f ∈ fs, f.id ∉ ids) ∧ ∀ f ∈ fs, f.name ∉ names) ∧
        b.Spent fs.length (fieldListText fs) b' := by
  induction fs generalizing ids names b with
  | nil => simp [validateFieldLoop, fieldListOk_nil, fieldListText, spent_zero_iff]
  | cons f fs ih =>
    have hspent : b.Spent (f :: fs).length (fieldListText (f :: fs)) b' ↔
        ∃ b₁, b.Spent 1 0 b₁ ∧ ∃ b₂, b₁.Spent 0 (byteLen f.name) b₂ ∧
          ∃ b₃, b₂.Spent 0 (metadataText f.metadata) b₃ ∧
            b₃.Spent fs.length (fieldListText fs) b' := by
      simp only [spent_add_iff, fieldListText, length_cons, map_cons, sum_cons,
        Nat.zero_add, Nat.add_assoc, Nat.add_comm 1]
    rw [hspent, fieldListOk_cons]
    simp only [validateFieldLoop, bind_eq_ok, require_eq_ok, addField_eq_ok, addText_eq_ok,
      validateMetadata_eq_ok, ih, mem_cons, not_or, forall_eq_or_imp]
    constructor
    · rintro ⟨-, hblank, b₁, h₁, b₂, h₂, b₃, ⟨hsafe, h₃⟩, -, hid, -, hname, ⟨hok, hids, hnames⟩, h₄⟩
      exact ⟨⟨⟨hblank, hsafe, fun g hg => (hids g hg).1, fun g hg => (hnames g hg).1, hok⟩,
        ⟨hid, fun g hg => (hids g hg).2⟩, hname, fun g hg => (hnames g hg).2⟩,
        b₁, h₁, b₂, h₂, b₃, h₃, h₄⟩
    · rintro ⟨⟨⟨hblank, hsafe, hids, hnames, hok⟩, ⟨hid, hids'⟩, hname, hnames'⟩,
        b₁, h₁, b₂, h₂, b₃, h₃, h₄⟩
      exact ⟨(), hblank, b₁, h₁, b₂, h₂, b₃, ⟨hsafe, h₃⟩, (), hid, (), hname,
        ⟨hok, fun g hg => ⟨hids g hg, hids' g hg⟩, fun g hg => ⟨hnames g hg, hnames' g hg⟩⟩, h₄⟩

mutual

/-- A type at a nesting depth: within the depth limit, with non-blank timezones and well-formed
nested field lists. -/
def TypeOk : Nat → LogicalType → Prop
  | depth, .timestamp _ (some timezone) =>
    depth ≤ maxSchemaNestingDepth ∧ isBlank timezone = false
  | depth, .list element => depth ≤ maxSchemaNestingDepth ∧ TypeOk (depth + 1) element
  | depth, .struct fields =>
    depth ≤ maxSchemaNestingDepth ∧ FieldListOk fields ∧ FieldTypesOk (depth + 1) fields
  | depth, _ => depth ≤ maxSchemaNestingDepth

def FieldTypesOk : Nat → List LogicalField → Prop
  | _, [] => True
  | depth, ⟨_, _, dataType, _, _⟩ :: fs => TypeOk depth dataType ∧ FieldTypesOk depth fs

end

mutual

/-- Fields nested inside a type. -/
def typeFieldCount : LogicalType → Nat
  | .list element => typeFieldCount element
  | .struct fields => fields.length + fieldTypesCount fields
  | _ => 0

def fieldTypesCount : List LogicalField → Nat
  | [] => 0
  | ⟨_, _, dataType, _, _⟩ :: fs => typeFieldCount dataType + fieldTypesCount fs

end

mutual

/-- Text bytes nested inside a type. -/
def typeText : LogicalType → Nat
  | .timestamp _ (some timezone) => byteLen timezone
  | .list element => typeText element
  | .struct fields => fieldListText fields + fieldTypesText fields
  | _ => 0

def fieldTypesText : List LogicalField → Nat
  | [] => 0
  | ⟨_, _, dataType, _, _⟩ :: fs => typeText dataType + fieldTypesText fs

end

theorem nextDepth_eq_ok (h : depth ≤ maxSchemaNestingDepth) :
    nextDepth depth = .ok (depth + 1) := by
  have hmax : maxSchemaNestingDepth < usizeMax := by decide
  rw [nextDepth, if_pos (by omega)]

theorem validateWalk_leaf {ty : LogicalType}
    (hnode : validateTypeNode ty depth b = (do
      require (depth ≤ maxSchemaNestingDepth)
        (.schemaNestingDepthExceeded depth maxSchemaNestingDepth)
      return ([], b))) :
    validateWalk.run [.type ty depth] b = .ok b' ↔
      depth ≤ maxSchemaNestingDepth ∧ b.Spent 0 0 b' := by
  rw [Walk.run_singleton]
  simp [validateWalk, validateNode, hnode, bind_eq_ok, spent_zero_iff]

theorem validateWalk_fields_of
    (ih : ∀ b b', validateWalk.run (fs.map fun f => .type f.dataType depth) b = .ok b' ↔
      FieldTypesOk depth fs ∧ b.Spent (fieldTypesCount fs) (fieldTypesText fs) b')
    (b b' : SchemaBudget) :
    validateWalk.run [.fields fs depth] b = .ok b' ↔ (FieldListOk fs ∧ FieldTypesOk depth fs) ∧
      b.Spent (fs.length + fieldTypesCount fs) (fieldListText fs + fieldTypesText fs) b' := by
  have hvisit : validateWalk.visit (.fields fs depth) b = (do
      let b₁ ← validateFieldLoop fs [] [] b
      return (fs.map fun f => .type f.dataType depth, b₁)) := rfl
  rw [Walk.run_singleton, ← spent_add_iff, hvisit]
  simp only [bind_eq_ok, pure_eq_ok, Except.ok.injEq, Prod.exists, Prod.mk.injEq,
    validateFieldLoop_eq_ok, not_mem_nil, not_false_eq_true, implies_true, and_true]
  constructor
  · rintro ⟨_, _, ⟨b₁, ⟨hok, h₁⟩, rfl, rfl⟩, hrun⟩
    obtain ⟨htypes, h₂⟩ := (ih b₁ b').mp hrun
    exact ⟨⟨hok, htypes⟩, b₁, h₁, h₂⟩
  · rintro ⟨⟨hok, htypes⟩, b₁, h₁, h₂⟩
    exact ⟨_, _, ⟨b₁, ⟨hok, h₁⟩, rfl, rfl⟩, (ih b₁ b').mpr ⟨htypes, h₂⟩⟩

mutual

theorem validateWalk_type : ∀ (ty : LogicalType) (depth : Nat) (b b' : SchemaBudget),
    validateWalk.run [.type ty depth] b = .ok b' ↔
      TypeOk depth ty ∧ b.Spent (typeFieldCount ty) (typeText ty) b'
  | .timestamp unit none, depth, b, b' => validateWalk_leaf rfl
  | .timestamp unit (some timezone), depth, b, b' => by
    rw [Walk.run_singleton]
    simp [validateWalk, validateNode, validateTypeNode, bind_eq_ok, addText_eq_ok, TypeOk,
      typeFieldCount, typeText, and_assoc]
  | .list element, depth, b, b' => by
    have ih := validateWalk_type element (depth + 1) b b'
    rw [Walk.run_singleton]
    by_cases hd : depth ≤ maxSchemaNestingDepth
    · simpa [validateWalk, validateNode, validateTypeNode, bind_eq_ok, TypeOk, typeFieldCount,
        typeText, nextDepth_eq_ok hd, hd] using ih
    · simp [validateWalk, validateNode, validateTypeNode, bind_eq_ok, TypeOk, hd]
  | .struct fields, depth, b, b' => by
    have ih := validateWalk_fields_of (validateWalk_fieldTypes fields (depth + 1)) b b'
    rw [Walk.run_singleton]
    by_cases hd : depth ≤ maxSchemaNestingDepth
    · simpa [validateWalk, validateNode, validateTypeNode, bind_eq_ok, TypeOk, typeFieldCount,
        typeText, nextDepth_eq_ok hd, hd, and_assoc] using ih
    · simp [validateWalk, validateNode, validateTypeNode, bind_eq_ok, TypeOk, hd]
  | .null, _, _, _ | .boolean, _, _, _ | .int8, _, _, _ | .int16, _, _, _ | .int32, _, _, _
  | .int64, _, _, _ | .uint8, _, _, _ | .uint16, _, _, _ | .uint32, _, _, _ | .uint64, _, _, _
  | .float32, _, _, _ | .float64, _, _, _ | .utf8, _, _, _ | .binary, _, _, _
  | .date32, _, _, _ => validateWalk_leaf rfl

theorem validateWalk_fieldTypes : ∀ (fs : List LogicalField) (depth : Nat) (b b' : SchemaBudget),
    validateWalk.run (fs.map fun f => .type f.dataType depth) b = .ok b' ↔
      FieldTypesOk depth fs ∧ b.Spent (fieldTypesCount fs) (fieldTypesText fs) b'
  | [], depth, b, b' => by simp [FieldTypesOk, fieldTypesCount, fieldTypesText, spent_zero_iff]
  | ⟨id, name, ty, nullable, metadata⟩ :: fs, depth, b, b' => by
    rw [map_cons, Walk.run_cons_eq, bind_eq_ok]
    simp only [validateWalk_type ty, validateWalk_fieldTypes fs, FieldTypesOk, fieldTypesCount,
      fieldTypesText, ← spent_add_iff]
    constructor
    · rintro ⟨b₁, ⟨hty, h₁⟩, hfs, h₂⟩
      exact ⟨⟨hty, hfs⟩, b₁, h₁, h₂⟩
    · rintro ⟨⟨hty, hfs⟩, b₁, h₁, h₂⟩
      exact ⟨b₁, ⟨hty, h₁⟩, hfs, h₂⟩

end

theorem validateWalk_fields (fs : List LogicalField) (depth : Nat) (b b' : SchemaBudget) :
    validateWalk.run [.fields fs depth] b = .ok b' ↔ (FieldListOk fs ∧ FieldTypesOk depth fs) ∧
      b.Spent (fs.length + fieldTypesCount fs) (fieldListText fs + fieldTypesText fs) b' :=
  validateWalk_fields_of (validateWalk_fieldTypes fs depth) b b'

/-- Everything validation asks of a top-level field list, the totals apart. -/
def FieldsOk (fields : List LogicalField) : Prop := FieldListOk fields ∧ FieldTypesOk 1 fields

def fieldCount (fields : List LogicalField) : Nat := fields.length + fieldTypesCount fields

def fieldsText (fields : List LogicalField) : Nat := fieldListText fields + fieldTypesText fields

theorem validateNodes_eq_ok {stack : List ValidationNode} :
    validateNodes stack b = .ok () ↔ ∃ b', validateWalk.run stack b = .ok b' := by
  simp [validateNodes, bind_eq_ok]

theorem validate_type_iff (ty : LogicalType) :
    ty.validate = .ok () ↔ TypeOk 1 ty ∧ typeFieldCount ty ≤ maxSchemaFields ∧
      typeText ty ≤ maxSchemaTextBytes := by
  simp only [LogicalType.validate, validateType, validateNodes_eq_ok, validateWalk_type,
    exists_and_left, exists_spent_iff]
  simp [SchemaBudget.default]

theorem validateFields_iff (fields : List LogicalField) :
    validateFields fields = .ok () ↔ FieldsOk fields ∧ fieldCount fields ≤ maxSchemaFields ∧
      fieldsText fields ≤ maxSchemaTextBytes := by
  simp only [validateFields, validateNodes_eq_ok, validateWalk_fields, exists_and_left,
    exists_spent_iff]
  simp [SchemaBudget.default, FieldsOk, fieldCount, fieldsText]

theorem validate_schema_iff (schema : LogicalSchema) :
    schema.validate = .ok () ↔ schema.version = logicalSchemaVersion ∧
      metadataSafe schema.metadata = true ∧ FieldsOk schema.fields ∧
      fieldCount schema.fields ≤ maxSchemaFields ∧
      metadataText schema.metadata + fieldsText schema.fields ≤ maxSchemaTextBytes := by
  simp only [LogicalSchema.validate, validateSchema, bind_eq_ok, require_eq_ok,
    validateMetadata_eq_ok, validateNodes_eq_ok, validateWalk_fields]
  constructor
  · rintro ⟨-, hv, b, ⟨hsafe, h₁⟩, b', hok, h₂⟩
    obtain ⟨hf, ht⟩ := exists_spent_iff.mp ⟨b', spent_add_iff.mp ⟨b, h₁, h₂⟩⟩
    simp only [SchemaBudget.default, Nat.zero_add] at hf ht
    exact ⟨hv, hsafe, hok, hf, ht⟩
  · rintro ⟨hv, hsafe, hok, hf, ht⟩
    have hspent : ∃ b', SchemaBudget.default.Spent (0 + fieldCount schema.fields)
        (metadataText schema.metadata + fieldsText schema.fields) b' :=
      exists_spent_iff.mpr ⟨by simpa [SchemaBudget.default] using hf,
        by simpa [SchemaBudget.default] using ht⟩
    obtain ⟨b', hb'⟩ := hspent
    obtain ⟨b, h₁, h₂⟩ := spent_add_iff.mpr hb'
    exact ⟨(), hv, b, ⟨hsafe, h₁⟩, b', hok, h₂⟩

theorem fromParts_eq_ok {version : UInt16} {fields : List LogicalField} {metadata : Metadata}
    {s : LogicalSchema} : LogicalSchema.fromParts version fields metadata = .ok s ↔
      s = ⟨version, fields, metadata⟩ ∧ s.validate = .ok () := by
  simp only [LogicalSchema.fromParts, bind_eq_ok, pure_eq_ok, Except.ok.injEq]
  constructor
  · rintro ⟨_, h, rfl⟩
    exact ⟨rfl, h⟩
  · rintro ⟨rfl, h⟩
    exact ⟨(), h, rfl⟩

theorem field_new_eq_ok {id : ColumnId} {name : String} {ty : LogicalType} {nullable : Bool}
    {f : LogicalField} : LogicalField.new id name ty nullable = .ok f ↔
      f = ⟨id, name, ty, nullable, ∅⟩ ∧ validateFields [f] = .ok () := by
  simp only [LogicalField.new, LogicalField.validate, bind_eq_ok, pure_eq_ok, Except.ok.injEq]
  constructor
  · rintro ⟨_, h, rfl⟩
    exact ⟨rfl, h⟩
  · rintro ⟨rfl, h⟩
    exact ⟨(), h, rfl⟩

end Stillflow.Core
