import Stillflow.Engine.InPlaceRules
import Stillflow.Engine.RuleAgreement

/-!
The derived state of the incremental schema is exact over any sequence of calls: the text counter
and the ordinal table are those of the current fields, and the final full validation has nothing
left to refuse.
-/

namespace Stillflow.Engine

open Stillflow.Core Stillflow.Plan Lib.Fallible Lib.InPlace List Option Except

variable {column : ColumnId} {f : LogicalField} {fs : List LogicalField} {ty : LogicalType}

def IsFlat : LogicalType → Prop
  | .list _ | .struct _ => False
  | _ => True

def FlatFields (fields : List LogicalField) : Prop := ∀ f ∈ fields, IsFlat f.dataType

theorem IsFlat.fieldCount (h : IsFlat ty) : typeFieldCount ty = 0 := by
  cases ty <;> first | rfl | exact h.elim

theorem IsFlat.text (h : IsFlat ty) : typeText ty = typeTimezoneText ty := by
  cases ty with
  | timestamp unit timezone => cases timezone <;> simp [typeText, typeTimezoneText]
  | list _ => exact h.elim
  | struct _ => exact h.elim
  | _ => simp [typeText, typeTimezoneText]

theorem isFlat_of_rejectPausedType (h : Capability.rejectPausedType ty = .ok ()) : IsFlat ty := by
  cases ty with
  | list _ => simp [Capability.rejectPausedType] at h
  | struct _ => simp [Capability.rejectPausedType] at h
  | _ => exact trivial

theorem textBytesOf_eq (h : FlatFields fs) : textBytesOf fs = fieldsText fs := by
  induction fs with
  | nil => rfl
  | cons f fs ih =>
    have hf : IsFlat f.dataType := h f (by simp)
    have hfs : FlatFields fs := fun g hg => h g (mem_cons_of_mem _ hg)
    rw [textBytesOf_cons, fieldsText_cons, ih hfs, fieldText, hf.text, incrementalFieldText]

theorem fieldCount_eq (h : FlatFields fs) : fieldCount fs = fs.length := by
  induction fs with
  | nil => rfl
  | cons f fs ih =>
    have hf : IsFlat f.dataType := h f (by simp)
    have hfs : FlatFields fs := fun g hg => h g (mem_cons_of_mem _ hg)
    rw [fieldCount_cons, ih hfs, hf.fieldCount, length_cons]
    omega

theorem buildOrdinals_congr {fs gs : List LogicalField} (h : fs.map (·.id) = gs.map (·.id)) :
    buildOrdinals fs = buildOrdinals gs := by
  have hpairs : ∀ l : List LogicalField, (l.zipIdx.map fun entry => (entry.1.id, entry.2)) =
      (l.map (·.id)).zipIdx := by
    intro l
    rw [zipIdx_map]
    rfl
  unfold buildOrdinals
  rw [hpairs, hpairs, h]

namespace IncrementalSchema

/-- Fields that validate on their own, a counter and a table that are theirs. -/
structure Exact (working : IncrementalSchema) : Prop where
  fits : FieldsFit 0 working.schema.fields
  flat : FlatFields working.schema.fields
  text : working.textBytes = textBytesOf working.schema.fields
  table : ∀ entries ∈ working.entries, entries = buildOrdinals working.schema.fields

variable {working next : IncrementalSchema}

theorem Exact.resolveColumn_eq (h : Exact working) :
    working.resolveColumn = findColumn working.schema.fields := by
  funext id
  unfold resolveColumn
  cases hentries : working.entries with
  | none => rfl
  | some entries =>
    rw [h.table entries hentries]
    exact searchOrdinal_getElem? h.fits.ok.1.nodup_ids id

theorem Exact.ordinalOf_eq (h : Exact working) (id : ColumnId) :
    working.ordinalOf id = working.schema.fields.findIdx? (·.id == id) := by
  unfold ordinalOf
  cases hentries : working.entries with
  | none => rfl
  | some entries =>
    rw [h.table entries hentries]
    exact searchOrdinal_buildOrdinals h.fits.ok.1.nodup_ids id

theorem Exact.requireColumn_eq_ok (h : Exact working) {id : ColumnId} :
    working.requireColumn id = .ok f ↔ findColumn working.schema.fields id = some f := by
  unfold requireColumn
  rw [h.resolveColumn_eq]
  cases findColumn working.schema.fields id <;> simp

theorem Exact.of_edit (h : Exact working) {edit : LogicalField → LogicalField}
    {fields : List LogicalField} {total : Nat}
    (hf : findColumn working.schema.fields column = some f)
    (hmod : modifyColumn edit column working.schema.fields = some fields) (hid : (edit f).id = f.id)
    (hmeta : (edit f).metadata = f.metadata) (hflat : IsFlat (edit f).dataType)
    (hfits : FieldsFit 0 fields)
    (htotal : total + byteLen f.name + typeTimezoneText f.dataType =
      working.textBytes + byteLen (edit f).name + typeTimezoneText (edit f).dataType) :
    Exact { working.withFields fields with textBytes := total } := by
  obtain ⟨pre, post, hfs, -, hmod'⟩ := findColumn_split hf edit
  have hfields : fields = pre ++ edit f :: post := some.inj (hmod.symm.trans hmod')
  subst hfields
  have hothers : ∀ g ∈ pre ++ post, IsFlat g.dataType := by
    intro g hg
    refine h.flat g ?_
    rw [hfs]
    simp only [mem_append, mem_cons] at hg ⊢
    tauto
  have hold : working.textBytes =
      incrementalFieldText f + typeTimezoneText f.dataType + textBytesOf (pre ++ post) := by
    rw [h.text, hfs, textBytesOf_middle]
  refine ⟨hfits, ?_, ?_, ?_⟩
  · intro g hg
    rcases mem_append.mp hg with hg | hg
    · exact hothers g (mem_append_left _ hg)
    · rcases mem_cons.mp hg with hg | hg
      · exact hg ▸ hflat
      · exact hothers g (mem_append_right _ hg)
  · change total = textBytesOf (pre ++ edit f :: post)
    rw [textBytesOf_middle, incrementalFieldText, hmeta]
    rw [incrementalFieldText] at hold
    omega
  · intro entries hentries
    rw [h.table entries hentries]
    refine buildOrdinals_congr ?_
    change working.schema.fields.map (·.id) = (pre ++ edit f :: post).map (·.id)
    rw [hfs]
    simp [hid]

theorem exact_refresh (hfits : FieldsFit 0 working.schema.fields)
    (hflat : FlatFields working.schema.fields)
    (htext : working.textBytes = textBytesOf working.schema.fields) : Exact working.refresh := by
  refine ⟨hfits, hflat, htext, ?_⟩
  intro entries hentries
  obtain ⟨_, -, rfl⟩ := map_eq_some_iff.mp hentries
  rfl

theorem Exact.rename (h : Exact working) {target : String}
    (hs : working.applyRename column target = .ok next) : Exact next := by
  unfold applyRename at hs
  rw [h.ordinalOf_eq] at hs
  cases hi : working.schema.fields.findIdx? (·.id == column) with
  | none => simp [hi] at hs
  | some index =>
    cases hget : working.schema.fields[index]? with
    | none => simp [hi, hget] at hs
    | some f =>
      simp only [hi, hget, bind_eq_ok, require_eq_ok, exists_unit_iff, pure_eq_ok,
        ok.injEq] at hs
      obtain ⟨hbudget, hname, rfl⟩ := hs
      have hf : findColumn working.schema.fields column = some f := by
        rw [findColumn, find?_eq_bind_findIdx?_getElem?, hi, bind_some, hget]
      have hmod := set_eq_modifyColumn (fun f => { f with name := target }) hi hget
      have hle : byteLen f.name ≤ working.textBytes := by
        obtain ⟨pre, post, hfs, -, -⟩ := findColumn_split hf id
        rw [h.text, hfs, textBytesOf_middle, incrementalFieldText]
        omega
      rw [if_pos hle] at hbudget ⊢
      have hfits := (fieldsFit_rename h.fits target hf).mpr
      rw [ruleFields, hmod, getD_some] at hfits
      rw [not_or, Bool.not_eq_true, Bool.not_eq_true] at hname
      refine h.of_edit hf hmod rfl rfl (h.flat f (findColumn_some hf).1) (hfits ⟨hname.1, ?_, ?_⟩) ?_
      · intro g hg hne heq
        have hany := any_eq_false.mp hname.2 g hg
        simp [hne, heq] at hany
      · rw [← textBytesOf_eq h.flat, ← h.text]
        omega
      · dsimp only
        omega

theorem Exact.cast (h : Exact working) {dataType : LogicalType} {onFailure : CastFailurePolicy}
    (hs : working.applyCast column dataType onFailure = .ok next) : Exact next := by
  simp only [applyCast, bind_eq_ok, require_eq_ok, exists_unit_iff, lift, mapError_eq_ok,
    h.requireColumn_eq_ok] at hs
  obtain ⟨htype, f, hf, -, hbudget, hs⟩ := hs
  obtain ⟨pre, post, hfs, -, hmod⟩ := findColumn_split hf (castField dataType onFailure)
  rw [hmod] at hs
  cases hs
  have hflat : IsFlat dataType := isFlat_of_rejectPausedType htype
  have hold : IsFlat f.dataType := h.flat f (findColumn_some hf).1
  have hle : typeTimezoneText f.dataType ≤ working.textBytes := by
    rw [h.text, hfs, textBytesOf_middle]
    omega
  rw [if_pos hle] at hbudget ⊢
  have hfits := (fieldsFit_cast h.fits onFailure hf htype).mpr
  rw [ruleFields, hmod, getD_some, hflat.text, hold.text, ← textBytesOf_eq h.flat,
    ← h.text] at hfits
  refine h.of_edit hf hmod rfl rfl hflat (hfits (by omega)) ?_
  dsimp only [castField]
  omega

theorem Exact.drop (h : Exact working) (hs : working.applyDrop column = .ok next) : Exact next := by
  simp only [applyDrop, bind_eq_ok, require_eq_ok, exists_unit_iff, pure_eq_ok,
    ok.injEq] at hs
  obtain ⟨-, hkept, rfl⟩ := hs
  obtain ⟨f, hf⟩ : ∃ f, findColumn working.schema.fields column = some f := by
    rw [← isSome_iff_exists, findColumn, find?_isSome]
    by_contra hnone
    push Not at hnone
    refine hkept ?_
    rw [filter_eq_self.mpr fun g hg => by simpa using hnone g hg]
  obtain ⟨pre, post, hfs, -, -⟩ := findColumn_split hf id
  have hid := (findColumn_some hf).2
  have hrest : working.schema.fields.filter (·.id != column) = pre ++ post :=
    filter_split h.fits hfs hid
  have hgone : working.schema.fields.filter (·.id == column) = [f] := by
    have hok := h.fits.ok
    rw [hfs] at hok ⊢
    obtain ⟨⟨-, -, hids, -⟩, -⟩ := fieldsOk_middle.mp hok
    have hnone : (pre ++ post).filter (·.id == column) = [] :=
      filter_eq_nil_iff.mpr fun g hg => by simpa [← hid] using hids g hg
    rw [filter_append, append_eq_nil_iff] at hnone
    rw [filter_append, hnone.1, filter_cons_of_pos (by simpa using hid), hnone.2,
      nil_append]
  have hfits := fieldsFit_drop h.fits hf
  rw [ruleFields] at hfits
  refine exact_refresh hfits (fun g hg => h.flat g (mem_of_mem_filter hg)) ?_
  change working.textBytes - textBytesOf (working.schema.fields.filter (·.id == column)) =
    textBytesOf (working.schema.fields.filter (·.id != column))
  rw [hrest, hgone, h.text, hfs, textBytesOf_middle, textBytesOf_cons]
  simp [textBytesOf]

theorem Exact.derive (h : Exact working) {id : ColumnId} {name : String} {dataType : LogicalType}
    {nullable : Bool} {expression : Expr}
    (hs : working.applyDerive id name dataType nullable expression = .ok next) : Exact next := by
  simp only [applyDerive, bind_eq_ok, require_eq_ok, exists_unit_iff, lift, mapError_eq_ok,
    pure_eq_ok, ok.injEq] at hs
  obtain ⟨-, -, -, htype, -, hunique, -, -, -, -, f, hf, hlength, hbudget, rfl⟩ := hs
  obtain ⟨rfl, hvalid⟩ := field_new_eq_ok.mp hf
  have hflat : IsFlat dataType := isFlat_of_rejectPausedType htype
  have hblank : isBlank name = false := by
    obtain ⟨⟨hok, -⟩, -⟩ := (validateFields_iff _).mp hvalid
    exact hok.name_nonblank _ (mem_singleton_self _)
  have hadded : textBytesOf (working.schema.fields ++ [⟨id, name, dataType, nullable, ∅⟩]) =
      working.textBytes + (byteLen name + typeTimezoneText dataType) := by
    rw [textBytesOf_middle, append_nil, h.text, incrementalFieldText, metadataText_empty]
    dsimp only
    omega
  have hcounter : working.textBytes + (incrementalFieldText ⟨id, name, dataType, nullable, ∅⟩ +
      typeTimezoneText dataType) = working.textBytes + (byteLen name + typeTimezoneText dataType) := by
    rw [incrementalFieldText, metadataText_empty]
    rfl
  rw [hcounter] at hbudget ⊢
  refine exact_refresh ((fieldsFit_derive h.fits htype hunique).mpr ⟨hblank, ?_, ?_⟩) ?_ hadded.symm
  · rw [fieldCount_eq h.flat]
    omega
  · rw [← textBytesOf_eq h.flat, ← h.text, hflat.text]
    omega
  · exact forall_mem_append.mpr ⟨h.flat, forall_mem_singleton.mpr hflat⟩

theorem Exact.setNullable (h : Exact working)
    (hf : findColumn working.schema.fields column = some f) (nullable : Bool) :
    Exact (working.setNullable column nullable) := by
  obtain ⟨fields, hmod, hfits⟩ := fieldsFit_setNullable h.fits nullable hf
  have hset : working.setNullable column nullable =
      { working.withFields fields with textBytes := working.textBytes } := by
    unfold IncrementalSchema.setNullable
    rw [hmod]
    rfl
  rw [hset]
  exact h.of_edit hf hmod rfl rfl (h.flat f (findColumn_some hf).1) hfits rfl

theorem Exact.applyRule (h : Exact working) {rule : Rule}
    (hs : working.applyRule rule = .ok next) : Exact next := by
  cases rule with
  | rename column target => exact h.rename hs
  | dropColumn column => exact h.drop hs
  | trim column | normalizeText column operation =>
    simp only [IncrementalSchema.applyRule, bind_eq_ok, pure_eq_ok, ok.injEq] at hs
    obtain ⟨_, -, _, -, rfl⟩ := hs
    exact h
  | parseTemporal column dataType onFailure format =>
    simp only [IncrementalSchema.applyRule, bind_eq_ok] at hs
    obtain ⟨_, -, _, -, hs⟩ := hs
    exact h.cast hs
  | cast column dataType onFailure => exact h.cast hs
  | replaceLiteral column source target =>
    simp only [IncrementalSchema.applyRule, bind_eq_ok, exists_unit_iff, pure_eq_ok,
      ok.injEq, h.requireColumn_eq_ok] at hs
    obtain ⟨f, hf, -, -, -, rfl⟩ := hs
    split
    · exact h.setNullable hf true
    · exact h
  | fillNull column value =>
    simp only [IncrementalSchema.applyRule, bind_eq_ok, exists_unit_iff, pure_eq_ok,
      ok.injEq, h.requireColumn_eq_ok] at hs
    obtain ⟨-, f, hf, -, -, rfl⟩ := hs
    exact h.setNullable hf false
  | deriveColumn id name dataType nullable expression => exact h.derive hs
  | filterRows predicate =>
    simp only [IncrementalSchema.applyRule, bind_eq_ok, pure_eq_ok, ok.injEq] at hs
    obtain ⟨_, -, rfl⟩ := hs
    exact h
  | validate | deduplicate => cases hs

inductive Call where
  | applyRule (rule : Rule)
  | swapWith (schema : LogicalSchema)

/-- One call: its answer and the working schema afterwards. -/
def perform (working : IncrementalSchema) : Call → Except EngineError Unit × IncrementalSchema
  | .applyRule rule => call (Method.applyRule rule) working
  | .swapWith schema => (.ok (), working.swapWith schema)

/-- The working schema after a sequence of calls, refused ones included. -/
def after (working : IncrementalSchema) (calls : List Call) : IncrementalSchema :=
  calls.foldl (fun working c => (working.perform c).2) working

def ValidFlat (schema : LogicalSchema) : Prop :=
  schema.validate = .ok () ∧ FlatFields schema.fields

theorem perform_unchanged (working : IncrementalSchema) (c : Call) {e : EngineError}
    (h : (working.perform c).1 = .error e) : (working.perform c).2 = working := by
  cases c with
  | applyRule rule => exact (amounts_applyRule working rule).unchanged h
  | swapWith schema => cases h

/-- How a working schema begins: the two backends, and the policy that selects one. -/
inductive Starts (schema : LogicalSchema) : IncrementalSchema → Prop
  | linear : Starts schema (fromSchema schema)
  | indexed : Starts schema (indexed schema)
  | shaped (servedLookups : Nat) : Starts schema (forShape schema servedLookups)

theorem Starts.exact {schema : LogicalSchema} (hs : Starts schema working)
    (h : ValidFlat schema) : Exact working := by
  have hfits : FieldsFit 0 schema.fields := (fieldsFit_of_validate h.1).mono (Nat.zero_le _)
  cases hs with
  | linear => exact ⟨hfits, h.2, rfl, fun _ hentries => nomatch hentries⟩
  | indexed => exact ⟨hfits, h.2, rfl, fun _ hentries => (some.inj hentries).symm⟩
  | shaped servedLookups =>
    refine ⟨hfits, h.2, rfl, fun entries hentries => ?_⟩
    unfold forShape at hentries ⊢
    split_ifs at hentries with hindex
    · exact (some.inj hentries).symm
    · cases hentries

theorem Exact.perform (h : Exact working) (c : Call)
    (hswap : ∀ schema, c = .swapWith schema → ValidFlat schema) :
    Exact (working.perform c).2 := by
  cases c with
  | applyRule rule =>
    rcases (amounts_applyRule working rule).committed with hsame | hcommit
    · rw [IncrementalSchema.perform, hsame]
      exact h
    · exact h.applyRule hcommit
  | swapWith schema =>
    have hvalid := hswap schema rfl
    exact exact_refresh ((fieldsFit_of_validate hvalid.1).mono (Nat.zero_le _)) hvalid.2 rfl

theorem Exact.after (h : Exact working) {calls : List Call}
    (hswaps : ∀ schema, .swapWith schema ∈ calls → ValidFlat schema) :
    Exact (working.after calls) := by
  induction calls generalizing working with
  | nil => exact h
  | cons c calls ih =>
    refine ih (h.perform c fun schema hc => hswaps schema ?_) fun schema hmem =>
      hswaps schema (mem_cons_of_mem _ hmem)
    rw [hc]
    exact mem_cons_self

/-- For every valid flat schema, backend and sequence of calls, the counter and the table are those of
the current fields, every id resolves as by the linear scan, a refused call leaves everything as it
was, and the closing validation succeeds. -/
theorem derived_state_exact (schema : LogicalSchema) (start : IncrementalSchema)
    (calls : List Call) (hvalid : ValidFlat schema) (hstart : Starts schema start)
    (hswaps : ∀ schema, .swapWith schema ∈ calls → ValidFlat schema) :
    let working := start.after calls
    working.textBytes = textBytesOf working.schema.fields ∧
      (∀ entries, working.entries = some entries →
        entries = buildOrdinals working.schema.fields) ∧
      (∀ id, working.resolveColumn id = working.schema.field id) ∧
      (∀ c e, (working.perform c).1 = .error e → (working.perform c).2 = working) ∧
      ∃ s, working.intoSchema = .ok s := by
  intro working
  have h : Exact working := (hstart.exact hvalid).after hswaps
  refine ⟨h.text, fun entries hentries => h.table entries hentries, fun id => ?_,
    fun c e => perform_unchanged working c, _, intoSchema_eq_ok.mpr ⟨h.fits, rfl⟩⟩
  rw [h.resolveColumn_eq]
  rfl

/-- Two columns; the first is dropped, the second renamed, and its own drop refused. -/
def twoColumns : LogicalSchema :=
  ⟨logicalSchemaVersion, [⟨1, "a", .utf8, true, ∅⟩, ⟨2, "b", .boolean, false, ∅⟩], ∅⟩

def dropAndRename : List Call :=
  [.applyRule (.dropColumn 1), .applyRule (.rename 2 "flag"), .applyRule (.dropColumn 2),
    .swapWith twoColumns]

theorem twoColumns_exact :
    ValidFlat twoColumns ∧ Starts twoColumns (indexed twoColumns) ∧
      ((indexed twoColumns).after dropAndRename).textBytes =
        textBytesOf ((indexed twoColumns).after dropAndRename).schema.fields ∧
      ∃ s, ((indexed twoColumns).after dropAndRename).intoSchema = .ok s := by
  have hvalid : ValidFlat twoColumns := by
    refine ⟨rfl, ?_⟩
    intro f hf
    simp only [twoColumns, mem_cons, not_mem_nil, or_false] at hf
    rcases hf with rfl | rfl <;> exact trivial
  have hswaps : ∀ schema, .swapWith schema ∈ dropAndRename → ValidFlat schema := by
    intro schema hmem
    simp only [dropAndRename, mem_cons, reduceCtorEq, not_mem_nil, false_or,
      or_false, Call.swapWith.injEq] at hmem
    exact hmem ▸ hvalid
  have h := derived_state_exact twoColumns (indexed twoColumns) dropAndRename hvalid .indexed hswaps
  exact ⟨hvalid, .indexed, h.1, h.2.2.2.2⟩

end IncrementalSchema

end Stillflow.Engine
