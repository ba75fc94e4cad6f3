import Stillflow.Core.WellFormed

/-!
Edits of a field list by column id, as the rule layers make them, and what they do to the totals of
schema validation.
-/

namespace Stillflow.Core

open List

variable {f : LogicalField} {fs gs : List LogicalField} {id : ColumnId}

/-- `iter().find(|field| field.id == id)`. -/
def findColumn (fields : List LogicalField) (id : ColumnId) : Option LogicalField :=
  fields.find? (·.id == id)

/-- `iter_mut().find(|field| field.id == id)` followed by an in-place edit of that field. -/
def modifyColumn (edit : LogicalField → LogicalField) (id : ColumnId) :
    List LogicalField → Option (List LogicalField)
  | [] => none
  | f :: fs => if f.id = id then some (edit f :: fs) else (modifyColumn edit id fs).map (f :: ·)

@[simp] theorem schema_field_eq (schema : LogicalSchema) (id : ColumnId) :
    schema.field id = findColumn schema.fields id := rfl

theorem findColumn_some (h : findColumn fs id = some f) : f ∈ fs ∧ f.id = id :=
  ⟨mem_of_find?_eq_some h, by simpa using find?_some h⟩

theorem findColumn_split (h : findColumn fs id = some f) (edit : LogicalField → LogicalField) :
    ∃ pre post, fs = pre ++ f :: post ∧ (∀ g ∈ pre, g.id ≠ id) ∧
      modifyColumn edit id fs = some (pre ++ edit f :: post) := by
  induction fs with
  | nil => simp [findColumn] at h
  | cons g gs ih =>
    by_cases hg : g.id = id
    · obtain rfl : g = f := by simpa [findColumn, hg] using h
      exact ⟨[], gs, rfl, by simp, by simp [modifyColumn, hg]⟩
    · obtain ⟨pre, post, rfl, hpre, hmod⟩ := ih (by simpa [findColumn, hg] using h)
      exact ⟨g :: pre, post, rfl, by simpa using ⟨hg, hpre⟩, by simp [modifyColumn, hg, hmod]⟩

theorem modifyColumn_eq_none (edit : LogicalField → LogicalField) (h : findColumn fs id = none) :
    modifyColumn edit id fs = none := by
  induction fs with
  | nil => rfl
  | cons g gs ih =>
    have hg : g.id ≠ id := by
      intro heq
      simp [findColumn, heq] at h
    simp [modifyColumn, hg, ih (by simpa [findColumn, hg] using h)]

/-- Text bytes a field contributes: its name, its metadata and what its type nests. -/
def fieldText (f : LogicalField) : Nat :=
  byteLen f.name + metadataText f.metadata + typeText f.dataType

theorem fieldTypesOk_iff {depth : Nat} :
    FieldTypesOk depth fs ↔ ∀ f ∈ fs, TypeOk depth f.dataType := by
  induction fs with
  | nil => simp [FieldTypesOk]
  | cons f fs ih => cases f; simp [FieldTypesOk, ih]

theorem fieldCount_cons (f : LogicalField) (fs : List LogicalField) :
    fieldCount (f :: fs) = 1 + typeFieldCount f.dataType + fieldCount fs := by
  cases f
  simp only [fieldCount, length_cons, fieldTypesCount]
  omega

theorem fieldsText_cons (f : LogicalField) (fs : List LogicalField) :
    fieldsText (f :: fs) = fieldText f + fieldsText fs := by
  cases f
  simp only [fieldsText, fieldListText, map_cons, sum_cons, fieldTypesText, fieldText]
  omega

theorem fieldCount_perm (h : fs.Perm gs) : fieldCount fs = fieldCount gs := by
  induction h with
  | nil => rfl
  | cons f _ ih => rw [fieldCount_cons, fieldCount_cons, ih]
  | swap f g l => simp only [fieldCount_cons]; omega
  | trans _ _ ih₁ ih₂ => exact ih₁.trans ih₂

theorem fieldsText_perm (h : fs.Perm gs) : fieldsText fs = fieldsText gs := by
  induction h with
  | nil => rfl
  | cons f _ ih => rw [fieldsText_cons, fieldsText_cons, ih]
  | swap f g l => simp only [fieldsText_cons]; omega
  | trans _ _ ih₁ ih₂ => exact ih₁.trans ih₂

theorem FieldListOk.perm (hp : fs.Perm gs) (h : FieldListOk fs) : FieldListOk gs :=
  ⟨fun f hf => h.name_nonblank f (hp.mem_iff.mpr hf), fun f hf => h.metadata_safe f (hp.mem_iff.mpr hf),
    (hp.map _).nodup_iff.mp h.nodup_ids, (hp.map _).nodup_iff.mp h.nodup_names⟩

theorem fieldsOk_middle {pre post : List LogicalField} :
    FieldsOk (pre ++ f :: post) ↔ (isBlank f.name = false ∧ metadataSafe f.metadata = true ∧
      (∀ g ∈ pre ++ post, g.id ≠ f.id) ∧ (∀ g ∈ pre ++ post, g.name ≠ f.name) ∧
      TypeOk 1 f.dataType) ∧ FieldsOk (pre ++ post) := by
  have hp : (pre ++ f :: post).Perm (f :: (pre ++ post)) := perm_middle
  have hok : FieldListOk (pre ++ f :: post) ↔ FieldListOk (f :: (pre ++ post)) :=
    ⟨.perm hp, .perm hp.symm⟩
  have hty : (∀ g ∈ pre ++ f :: post, TypeOk 1 g.dataType) ↔
      TypeOk 1 f.dataType ∧ ∀ g ∈ pre ++ post, TypeOk 1 g.dataType := by
    constructor
    · intro h
      exact ⟨h f (by simp), fun g hg => h g (by simp at hg ⊢; tauto)⟩
    · rintro ⟨hf, h⟩ g hg
      rcases mem_append.mp hg with hg | hg
      · exact h g (by simp [hg])
      · rcases mem_cons.mp hg with rfl | hg
        · exact hf
        · exact h g (by simp [hg])
  simp only [FieldsOk, hok, fieldListOk_cons, fieldTypesOk_iff, hty]
  tauto

theorem fieldCount_middle (pre post : List LogicalField) (f : LogicalField) :
    fieldCount (pre ++ f :: post) = 1 + typeFieldCount f.dataType + fieldCount (pre ++ post) := by
  rw [fieldCount_perm perm_middle, fieldCount_cons]

theorem fieldsText_middle (pre post : List LogicalField) (f : LogicalField) :
    fieldsText (pre ++ f :: post) = fieldText f + fieldsText (pre ++ post) := by
  rw [fieldsText_perm perm_middle, fieldsText_cons]

end Stillflow.Core
