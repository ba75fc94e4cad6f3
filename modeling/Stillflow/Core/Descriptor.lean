import Stillflow.Core.Canonical

/-! The canonical descriptor as a recursive function of the schema. -/

namespace Stillflow.Core

open Lib.Fallible Lib.WorkStack Lib.SelfDelimiting EncodingSink List Std.ExtTreeMap

def lengthPrefixedBytes (s : String) : List UInt8 := leBytes 4 (utf8Bytes s).length ++ utf8Bytes s

def lengthFits (s : String) : Bool := (utf8Bytes s).length ≤ u32Max

def metadataEntryBytes (entry : String × String) : List UInt8 :=
  lengthPrefixedBytes entry.1 ++ lengthPrefixedBytes entry.2

def metadataEntryFits (entry : String × String) : Bool := lengthFits entry.1 && lengthFits entry.2

def metadataBytes (metadata : Metadata) : List UInt8 :=
  leBytes 4 metadata.size ++ metadata.toList.flatMap metadataEntryBytes

def metadataFits (metadata : Metadata) : Bool :=
  decide (metadata.size ≤ u32Max) && metadata.toList.all metadataEntryFits

def timezoneBytes : Option String → List UInt8
  | none => [0x00]
  | some timezone => 0x01 :: lengthPrefixedBytes timezone

def timezoneFits : Option String → Bool
  | none => true
  | some timezone => lengthFits timezone

def typeTag : LogicalType → UInt8
  | .null => CanonicalTypeTags.null
  | .boolean => CanonicalTypeTags.boolean
  | .int8 => CanonicalTypeTags.int8
  | .int16 => CanonicalTypeTags.int16
  | .int32 => CanonicalTypeTags.int32
  | .int64 => CanonicalTypeTags.int64
  | .uint8 => CanonicalTypeTags.uint8
  | .uint16 => CanonicalTypeTags.uint16
  | .uint32 => CanonicalTypeTags.uint32
  | .uint64 => CanonicalTypeTags.uint64
  | .float32 => CanonicalTypeTags.float32
  | .float64 => CanonicalTypeTags.float64
  | .utf8 => CanonicalTypeTags.utf8
  | .binary => CanonicalTypeTags.binary
  | .date32 => CanonicalTypeTags.date32
  | .timestamp _ _ => CanonicalTypeTags.timestamp
  | .list _ => CanonicalTypeTags.list
  | .struct _ => CanonicalTypeTags.struct

mutual

/-- What follows the tag of a type in the descriptor. -/
def typePayload : LogicalType → List UInt8
  | .timestamp unit timezone => canonicalTimeUnitTag unit :: timezoneBytes timezone
  | .list element => typeTag element :: typePayload element
  | .struct fields => leBytes 4 fields.length ++ fieldsBytes fields
  | _ => []

def fieldBytes : LogicalField → List UInt8
  | ⟨id, name, dataType, nullable, metadata⟩ =>
    lengthPrefixedBytes name ++ (Uuid.asBytes id ++ (nullable.toUInt8 ::
      (typeTag dataType :: typePayload dataType ++ metadataBytes metadata)))

def fieldsBytes : List LogicalField → List UInt8
  | [] => []
  | f :: fs => fieldBytes f ++ fieldsBytes fs

end

def typeBytes (ty : LogicalType) : List UInt8 := typeTag ty :: typePayload ty

mutual

/-- Every length of the descriptor is representable in its `u32` slot. -/
def typeFits : LogicalType → Bool
  | .timestamp _ timezone => timezoneFits timezone
  | .list element => typeFits element
  | .struct fields => decide (fields.length ≤ u32Max) && fieldsFit fields
  | _ => true

def fieldFits : LogicalField → Bool
  | ⟨_, name, dataType, _, metadata⟩ =>
    lengthFits name && (typeFits dataType && metadataFits metadata)

def fieldsFit : List LogicalField → Bool
  | [] => true
  | f :: fs => fieldFits f && fieldsFit fs

end

def schemaBytes (schema : LogicalSchema) : List UInt8 :=
  leBytes 2 schema.version.toNat ++ (leBytes 4 schema.fields.length ++
    (fieldsBytes schema.fields ++ metadataBytes schema.metadata))

def schemaFits (schema : LogicalSchema) : Bool :=
  decide (schema.fields.length ≤ u32Max) &&
    (fieldsFit schema.fields && metadataFits schema.metadata)

/-- Sinks for which writing is concatenation, and which can only fail by running out of length. -/
class LawfulSink (S : Type) [EncodingSink S] : Prop where
  put_nil : ∀ s : S, put s [] = .ok s
  put_append : ∀ (s : S) (a b : List UInt8), put s (a ++ b) = put s a >>= fun s => put s b
  put_error : ∀ {s : S} {a : List UInt8} {e : LogicalError},
    put s a = .error e → e = .canonicalEncodingOverflow

instance : LawfulSink VecSink where
  put_nil s := by simp [put]
  put_append s a b := by simp [put]
  put_error h := by simp [put] at h

instance : LawfulSink CountingSink where
  put_nil s := by simp [put, s.length_le]
  put_append s a b := by
    by_cases ha : s.length + a.length ≤ usizeMax
    · by_cases hab : s.length + a.length + b.length ≤ usizeMax <;>
        simp [put, ha, hab, ← Nat.add_assoc]
    · have hab : ¬ s.length + (a.length + b.length) ≤ usizeMax := by omega
      simp [put, ha, hab]
  put_error h := by
    simp only [put] at h
    split_ifs at h
    simpa using h.symm

section Emit

variable {S : Type} [EncodingSink S]

/-- Write `bytes` when all their length slots fit, and refuse otherwise. -/
def emit (fits : Bool) (bytes : List UInt8) (sink : S) : Except LogicalError S :=
  if fits then put sink bytes else .error .canonicalEncodingOverflow

@[simp] theorem emit_true (bytes : List UInt8) (sink : S) : emit true bytes sink = put sink bytes :=
  rfl

@[simp] theorem emit_false (bytes : List UInt8) (sink : S) :
    emit false bytes sink = .error .canonicalEncodingOverflow := rfl

variable [LawfulSink S]

open LawfulSink

theorem emit_bind_emit (f g : Bool) (a b : List UInt8) (sink : S) :
    emit f a sink >>= emit g b = emit (f && g) (a ++ b) sink := by
  cases f with
  | false => rfl
  | true =>
    cases g with
    | true => exact (put_append sink a b).symm
    | false =>
      cases hp : put sink a with
      | ok s => simp [hp]
      | error e => simp [hp, put_error hp]

theorem encodeMetadataEntry_eq (entry : String × String) (sink : S) :
    encodeMetadataEntry sink entry =
      emit (metadataEntryFits entry) (metadataEntryBytes entry) sink := by
  by_cases hk : (utf8Bytes entry.1).length ≤ u32Max <;>
  by_cases hv : (utf8Bytes entry.2).length ≤ u32Max <;>
    simp [encodeMetadataEntry, metadataEntryFits, metadataEntryBytes, lengthPrefixedBytes,
      lengthFits, tryU32, hk, hv, put_append]

theorem encodeMetadataEntries_eq (entries : List (String × String)) (sink : S) :
    entries.foldlM encodeMetadataEntry sink =
      emit (entries.all metadataEntryFits) (entries.flatMap metadataEntryBytes) sink := by
  induction entries generalizing sink with
  | nil => simp [put_nil]
  | cons entry entries ih =>
    rw [foldlM_cons, encodeMetadataEntry_eq, all_cons, flatMap_cons,
      ← emit_bind_emit]
    exact congrArg _ (funext ih)

theorem encodeMetadataBlock_eq (metadata : Metadata) (sink : S) :
    encodeMetadataBlock metadata sink =
      emit (metadataFits metadata) (metadataBytes metadata) sink := by
  by_cases hn : metadata.size ≤ u32Max
  · simp only [encodeMetadataBlock, tryU32, hn, if_true, ok_bind, metadataFits, metadataBytes,
      ← emit_bind_emit, decide_true]
    exact congrArg _ (funext fun s => encodeMetadataEntries_eq _ s)
  · simp [encodeMetadataBlock, tryU32, hn, metadataFits]

theorem put_bind_overflow {α : Type} (bytes : List UInt8) (sink : S) :
    (put sink bytes >>= fun _ => .error .canonicalEncodingOverflow : Except LogicalError α) =
      .error .canonicalEncodingOverflow := by
  cases hp : put sink bytes with
  | ok s => rfl
  | error e => rw [put_error hp]; rfl

theorem runEncodeTasks_timestamp (unit : TimeUnit) (timezone : Option String) (sink : S) :
    runEncodeTasks [.type (.timestamp unit timezone)] sink =
      emit (typeFits (.timestamp unit timezone)) (typeBytes (.timestamp unit timezone)) sink := by
  rw [runEncodeTasks, Walk.run_singleton]
  cases timezone with
  | none =>
    change _ = put sink ([CanonicalTypeTags.timestamp, canonicalTimeUnitTag unit] ++ [0x00])
    rw [put_append]
    simp [encodeWalk, encodeTask, encodeCanonicalType]
  | some timezone =>
    by_cases hz : (utf8Bytes timezone).length ≤ u32Max
    · have hb : typeBytes (.timestamp unit (some timezone)) =
          [CanonicalTypeTags.timestamp, canonicalTimeUnitTag unit] ++ ([0x01] ++
            (leBytes 4 (utf8Bytes timezone).length ++ utf8Bytes timezone)) := by
        simp [typeBytes, typeTag, typePayload, timezoneBytes, lengthPrefixedBytes]
      simp only [hb, typeFits, timezoneFits, lengthFits, hz, decide_true, emit_true, put_append]
      simp [encodeWalk, encodeTask, encodeCanonicalType, tryU32, hz]
    · simp [encodeWalk, encodeTask, encodeCanonicalType, typeFits, timezoneFits, lengthFits, tryU32,
        hz, put_bind_overflow]

mutual

theorem runEncodeTasks_type : ∀ (ty : LogicalType) (sink : S),
    runEncodeTasks [.type ty] sink = emit (typeFits ty) (typeBytes ty) sink
  | .timestamp unit timezone, sink => runEncodeTasks_timestamp unit timezone sink
  | .list element, sink => by
    have ih : ∀ s : S, (encodeWalk S).run [.type element] s =
        emit (typeFits element) (typeBytes element) s := runEncodeTasks_type element
    rw [runEncodeTasks, Walk.run_singleton]
    change _ = emit (true && typeFits element) ([CanonicalTypeTags.list] ++ typeBytes element) sink
    rw [← emit_bind_emit]
    simp only [encodeWalk, encodeTask, encodeCanonicalType] at ih ⊢
    simp [ih]
  | .struct fields, sink => by
    have ih : ∀ s : S, (encodeWalk S).run [.fields fields] s =
        emit (fieldsFit fields) (fieldsBytes fields) s := fun s => by
      rw [Walk.run_singleton]
      exact runEncodeTasks_fields fields s
    rw [runEncodeTasks, Walk.run_singleton]
    by_cases hn : fields.length ≤ u32Max
    · change _ = emit (decide (fields.length ≤ u32Max) && fieldsFit fields)
        ([CanonicalTypeTags.struct] ++ (leBytes 4 fields.length ++ fieldsBytes fields)) sink
      rw [← append_assoc, ← emit_bind_emit]
      simp only [encodeWalk, encodeTask, encodeCanonicalType] at ih ⊢
      simp only [hn, decide_true, emit_true, put_append]
      simp [tryU32, hn, ih]
    · simp [encodeWalk, encodeTask, encodeCanonicalType, typeFits, tryU32, hn, put_bind_overflow]
  | .null, sink | .boolean, sink | .int8, sink | .int16, sink | .int32, sink | .int64, sink
  | .uint8, sink | .uint16, sink | .uint32, sink | .uint64, sink | .float32, sink
  | .float64, sink | .utf8, sink | .binary, sink | .date32, sink => by
    rw [runEncodeTasks, Walk.run_singleton]
    simp [encodeWalk, encodeTask, encodeCanonicalType, typeFits, typeBytes, typeTag, typePayload]

theorem runEncodeTasks_field : ∀ (f : LogicalField) (sink : S),
    runEncodeTasks [.field f] sink = emit (fieldFits f) (fieldBytes f) sink
  | ⟨id, name, ty, nullable, metadata⟩, sink => by
    have ih : ∀ s : S, (encodeWalk S).run [.type ty, .metadata metadata] s =
        emit (typeFits ty && metadataFits metadata)
          (typeTag ty :: typePayload ty ++ metadataBytes metadata) s := fun s => by
      have hm : ∀ s : S, (encodeWalk S).run [.metadata metadata] s =
          emit (metadataFits metadata) (metadataBytes metadata) s := fun s => by
        rw [Walk.run_singleton]
        simp [encodeWalk, encodeTask, encodeMetadataBlock_eq]
      rw [Walk.run_cons_eq, ← emit_bind_emit, ← runEncodeTasks, runEncodeTasks_type ty s]
      exact congrArg _ (funext hm)
    rw [runEncodeTasks, Walk.run_singleton]
    by_cases hn : (utf8Bytes name).length ≤ u32Max
    · have hb : fieldBytes ⟨id, name, ty, nullable, metadata⟩ =
          leBytes 4 (utf8Bytes name).length ++ (utf8Bytes name ++ (Uuid.asBytes id ++
            [nullable.toUInt8])) ++ (typeTag ty :: typePayload ty ++ metadataBytes metadata) := by
        simp [fieldBytes, lengthPrefixedBytes]
      rw [hb, fieldFits, lengthFits, ← emit_bind_emit]
      simp only [encodeWalk, encodeTask] at ih ⊢
      simp only [hn, decide_true, emit_true, put_append]
      simp [tryU32, hn, ih]
    · simp [encodeWalk, encodeTask, fieldFits, lengthFits, tryU32, hn]

theorem runEncodeTasks_fields : ∀ (fs : List LogicalField) (sink : S),
    runEncodeTasks (fs.map .field) sink = emit (fieldsFit fs) (fieldsBytes fs) sink
  | [], sink => by simp [runEncodeTasks, fieldsFit, fieldsBytes, put_nil]
  | f :: fs, sink => by
    rw [map_cons, runEncodeTasks, Walk.run_cons_eq, fieldsFit, fieldsBytes, ← emit_bind_emit]
    rw [← runEncodeTasks, runEncodeTasks_field f]
    exact congrArg _ (funext fun s => runEncodeTasks_fields fs s)

end

theorem encodeCanonicalInto_eq (schema : LogicalSchema) (sink : S) :
    schema.encodeCanonicalInto sink = emit (schemaFits schema) (schemaBytes schema) sink := by
  have hbody : ∀ s : S, runEncodeTasks [.fields schema.fields] s >>=
        encodeMetadataBlock schema.metadata =
      emit (fieldsFit schema.fields && metadataFits schema.metadata)
        (fieldsBytes schema.fields ++ metadataBytes schema.metadata) s := fun s => by
    have hfields : runEncodeTasks [.fields schema.fields] s =
        emit (fieldsFit schema.fields) (fieldsBytes schema.fields) s := by
      rw [runEncodeTasks, Walk.run_singleton]
      exact runEncodeTasks_fields schema.fields s
    rw [hfields, ← emit_bind_emit]
    exact congrArg _ (funext fun s => encodeMetadataBlock_eq schema.metadata s)
  by_cases hn : schema.fields.length ≤ u32Max
  · rw [schemaBytes, schemaFits, ← append_assoc, ← emit_bind_emit]
    simp only [LogicalSchema.encodeCanonicalInto, hn, decide_true, emit_true, put_append, tryU32,
      if_true, ok_bind, bind_assoc, hbody]
  · simp [LogicalSchema.encodeCanonicalInto, schemaFits, tryU32, hn, put_bind_overflow]

end Emit

theorem encodeCanonicalInto_vecSink (schema : LogicalSchema) (out : List UInt8) :
    schema.encodeCanonicalInto (⟨out⟩ : VecSink) =
      if schemaFits schema then .ok ⟨out ++ schemaBytes schema⟩
      else .error .canonicalEncodingOverflow :=
  encodeCanonicalInto_eq schema _

theorem encodeCanonicalInto_countingSink (schema : LogicalSchema) :
    schema.encodeCanonicalInto (⟨0, Nat.zero_le _⟩ : CountingSink) =
      if h : schemaFits schema = true ∧ (schemaBytes schema).length ≤ usizeMax then
        .ok ⟨(schemaBytes schema).length, h.2⟩
      else .error .canonicalEncodingOverflow := by
  rw [encodeCanonicalInto_eq]
  by_cases hf : schemaFits schema = true <;>
  by_cases hl : (schemaBytes schema).length ≤ usizeMax <;> simp [emit, put, hf, hl]

theorem canonicalBytes_eq_ok (schema : LogicalSchema) (bytes : List UInt8)
    (h : schema.canonicalBytes = .ok bytes) :
    schemaFits schema = true ∧ bytes = schemaBytes schema := by
  simp only [LogicalSchema.canonicalBytes, bind_eq_ok] at h
  obtain ⟨-, -, -, -, sink, hsink, hout⟩ := h
  rw [encodeCanonicalInto_vecSink] at hsink
  split_ifs at hsink with hf
  cases hsink
  exact ⟨hf, by simpa using hout.symm⟩

theorem le_u32Max_iff {n : Nat} : n ≤ u32Max ↔ n < 256 ^ 4 := by
  simp only [u32Max]
  omega

theorem selfDelimiting_lengthPrefixedBytes :
    SelfDelimitingOn (fun s => lengthFits s = true) lengthPrefixedBytes := by
  intro s t x y hs ht h
  simp only [lengthFits, decide_eq_true_eq, le_u32Max_iff] at hs ht
  exact (selfDelimitingOn_leBytes 4).lengthPrefixed utf8Bytes_injective s t x y hs ht h

theorem selfDelimiting_metadataEntryBytes :
    SelfDelimitingOn (fun e => metadataEntryFits e = true) metadataEntryBytes := by
  rintro ⟨k, v⟩ ⟨k', v'⟩ x y ha hb h
  simp only [metadataEntryFits, Bool.and_eq_true] at ha hb
  simp only [metadataEntryBytes, append_assoc] at h
  obtain ⟨rfl, hrest⟩ := selfDelimiting_lengthPrefixedBytes k k' _ _ ha.1 hb.1 h
  obtain ⟨rfl, rfl⟩ := selfDelimiting_lengthPrefixedBytes v v' _ _ ha.2 hb.2 hrest
  exact ⟨rfl, rfl⟩

theorem selfDelimiting_metadataBytes :
    SelfDelimitingOn (fun m => metadataFits m = true) metadataBytes := by
  intro m m' x y hm hm' h
  simp only [metadataFits, Bool.and_eq_true, decide_eq_true_eq, le_u32Max_iff,
    all_eq_true, ← length_toList] at hm hm'
  have hcounted := (selfDelimitingOn_leBytes 4).counted selfDelimiting_metadataEntryBytes
  obtain ⟨hl, rfl⟩ := hcounted m.toList m'.toList x y hm hm' (by simpa [metadataBytes] using h)
  exact ⟨toList_inj.mp hl, rfl⟩

theorem selfDelimiting_timezoneBytes :
    SelfDelimitingOn (fun z => timezoneFits z = true) timezoneBytes := by
  intro z z' x y hz hz' h
  cases z <;> cases z' <;> simp [timezoneBytes] at h
  · exact ⟨rfl, h⟩
  · rename_i z z'
    obtain ⟨rfl, rfl⟩ := selfDelimiting_lengthPrefixedBytes z z' x y hz hz' (by simpa using h)
    exact ⟨rfl, rfl⟩

theorem canonicalTimeUnitTag_injective : Function.Injective canonicalTimeUnitTag := by
  intro u u' h
  cases u <;> cases u' <;> first | rfl | cases h

theorem asBytes_selfDelimiting : SelfDelimitingOn (fun _ => True) Uuid.asBytes := by
  refine selfDelimitingOn_of_length_eq (fun a b _ _ h => ?_) (by simp [Uuid.asBytes])
  have hn := leBytes_inj 16 a.toNat b.toNat a.isLt b.isLt (reverse_injective h)
  exact BitVec.eq_of_toNat_eq hn

theorem ctorIdx_eq_of_typeTag_eq {a b : LogicalType} (h : typeTag a = typeTag b) :
    a.ctorIdx = b.ctorIdx := by
  have htag : ∀ ty : LogicalType, typeTag ty = UInt8.ofNat ty.ctorIdx := by
    intro ty
    cases ty <;> rfl
  have hlt : ∀ ty : LogicalType, ty.ctorIdx < 256 := by
    intro ty
    cases ty <;> simp [LogicalType.ctorIdx]
  rw [htag, htag] at h
  have := congrArg UInt8.toNat h
  simp at this
  have := hlt a
  have := hlt b
  omega

mutual

theorem typeBytes_cancel : ∀ (a b : LogicalType) (x y : List UInt8), typeFits a = true →
    typeFits b = true → typeBytes a ++ x = typeBytes b ++ y → a = b ∧ x = y
  | .timestamp u z, b, x, y, ha, hb, h => by
    simp only [typeBytes, cons_append, List.cons.injEq] at h
    have hidx := ctorIdx_eq_of_typeTag_eq h.1
    cases b with
    | timestamp u' z' =>
      simp only [typePayload, cons_append, List.cons.injEq] at h
      obtain ⟨-, hu, hz⟩ := h
      obtain ⟨rfl, rfl⟩ := selfDelimiting_timezoneBytes z z' x y ha hb hz
      exact ⟨by rw [canonicalTimeUnitTag_injective hu], rfl⟩
    | _ => simp [LogicalType.ctorIdx] at hidx
  | .list e, b, x, y, ha, hb, h => by
    simp only [typeBytes, cons_append, List.cons.injEq] at h
    have hidx := ctorIdx_eq_of_typeTag_eq h.1
    cases b with
    | list e' =>
      obtain ⟨rfl, rfl⟩ := typeBytes_cancel e e' x y ha hb (by simpa [typePayload, typeBytes] using h.2)
      exact ⟨rfl, rfl⟩
    | _ => simp [LogicalType.ctorIdx] at hidx
  | .struct fs, b, x, y, ha, hb, h => by
    simp only [typeBytes, cons_append, List.cons.injEq] at h
    have hidx := ctorIdx_eq_of_typeTag_eq h.1
    cases b with
    | struct fs' =>
      simp only [typeFits, Bool.and_eq_true, decide_eq_true_eq, le_u32Max_iff] at ha hb
      simp only [typePayload, append_assoc] at h
      obtain ⟨hlen, hrest⟩ := selfDelimitingOn_leBytes 4 _ _ _ _ ha.1 hb.1 h.2
      obtain ⟨rfl, rfl⟩ := fieldsBytes_cancel fs fs' x y ha.2 hb.2 hlen hrest
      exact ⟨rfl, rfl⟩
    | _ => simp [LogicalType.ctorIdx] at hidx
  | .null, b, x, y, _, _, h | .boolean, b, x, y, _, _, h | .int8, b, x, y, _, _, h
  | .int16, b, x, y, _, _, h | .int32, b, x, y, _, _, h | .int64, b, x, y, _, _, h
  | .uint8, b, x, y, _, _, h | .uint16, b, x, y, _, _, h | .uint32, b, x, y, _, _, h
  | .uint64, b, x, y, _, _, h | .float32, b, x, y, _, _, h | .float64, b, x, y, _, _, h
  | .utf8, b, x, y, _, _, h | .binary, b, x, y, _, _, h | .date32, b, x, y, _, _, h => by
    simp only [typeBytes, cons_append, List.cons.injEq] at h
    have hidx := ctorIdx_eq_of_typeTag_eq h.1
    cases b <;> simp [LogicalType.ctorIdx] at hidx
    exact ⟨rfl, by simpa [typePayload] using h.2⟩

theorem fieldBytes_cancel : ∀ (f g : LogicalField) (x y : List UInt8), fieldFits f = true →
    fieldFits g = true → fieldBytes f ++ x = fieldBytes g ++ y → f = g ∧ x = y
  | ⟨id, name, ty, nullable, metadata⟩, ⟨id', name', ty', nullable', metadata'⟩, x, y, hf, hg, h => by
    simp only [fieldFits, Bool.and_eq_true] at hf hg
    simp only [fieldBytes, append_assoc, cons_append] at h
    obtain ⟨rfl, hid⟩ := selfDelimiting_lengthPrefixedBytes name name' _ _ hf.1 hg.1 h
    obtain ⟨rfl, hflag⟩ := asBytes_selfDelimiting id id' _ _ trivial trivial hid
    obtain ⟨hnull, hty⟩ := List.cons.inj hflag
    obtain ⟨rfl, hm⟩ := typeBytes_cancel ty ty' _ _ hf.2.1 hg.2.1 (by simpa [typeBytes] using hty)
    obtain ⟨rfl, rfl⟩ := selfDelimiting_metadataBytes metadata metadata' _ _ hf.2.2 hg.2.2 hm
    obtain rfl : nullable = nullable' := by revert hnull; cases nullable <;> cases nullable' <;> decide
    exact ⟨rfl, rfl⟩

theorem fieldsBytes_cancel : ∀ (fs gs : List LogicalField) (x y : List UInt8),
    fieldsFit fs = true → fieldsFit gs = true → fs.length = gs.length →
    fieldsBytes fs ++ x = fieldsBytes gs ++ y → fs = gs ∧ x = y
  | [], [], x, y, _, _, _, h => ⟨rfl, by simpa [fieldsBytes] using h⟩
  | [], _ :: _, _, _, _, _, hlen, _ => by simp at hlen
  | _ :: _, [], _, _, _, _, hlen, _ => by simp at hlen
  | f :: fs, g :: gs, x, y, hf, hg, hlen, h => by
    simp only [fieldsFit, Bool.and_eq_true] at hf hg
    simp only [fieldsBytes, append_assoc] at h
    obtain ⟨rfl, hrest⟩ := fieldBytes_cancel f g _ _ hf.1 hg.1 h
    obtain ⟨rfl, rfl⟩ := fieldsBytes_cancel fs gs x y hf.2 hg.2 (by simpa using hlen) hrest
    exact ⟨rfl, rfl⟩

end

theorem schemaBytes_inj {s t : LogicalSchema} (hs : schemaFits s = true) (ht : schemaFits t = true)
    (h : schemaBytes s = schemaBytes t) : s = t := by
  obtain ⟨v, fs, m⟩ := s
  obtain ⟨v', fs', m'⟩ := t
  simp only [schemaFits, Bool.and_eq_true, decide_eq_true_eq, le_u32Max_iff] at hs ht
  simp only [schemaBytes] at h
  obtain ⟨hv, hcount⟩ := selfDelimitingOn_leBytes 2 _ _ _ _ v.toNat_lt v'.toNat_lt h
  obtain ⟨hlen, hfields⟩ := selfDelimitingOn_leBytes 4 _ _ _ _ hs.1 ht.1 hcount
  obtain ⟨rfl, hm⟩ := fieldsBytes_cancel fs fs' _ _ hs.2.1 ht.2.1 hlen hfields
  obtain rfl := selfDelimiting_metadataBytes.eq_of_eq hs.2.2 ht.2.2 hm
  obtain rfl := UInt16.toNat_inj.mp hv
  rfl

/-- Descriptors are injective on schemas, and both passes of the encoder agree on the length. -/
theorem canonicalBytes_injective :
    (∀ (s₁ s₂ : LogicalSchema) (bytes : List UInt8), s₁.canonicalBytes = .ok bytes →
      s₂.canonicalBytes = .ok bytes → s₁ = s₂) ∧
    (∀ (s : LogicalSchema) (counter : CountingSink),
      s.encodeCanonicalInto (⟨0, Nat.zero_le _⟩ : CountingSink) = .ok counter →
      ∃ sink : VecSink, s.encodeCanonicalInto (⟨[]⟩ : VecSink) = .ok sink ∧
        sink.out.length = counter.length) := by
  constructor
  · intro s₁ s₂ bytes h₁ h₂
    obtain ⟨hf₁, rfl⟩ := canonicalBytes_eq_ok s₁ bytes h₁
    obtain ⟨hf₂, hb⟩ := canonicalBytes_eq_ok s₂ _ h₂
    exact schemaBytes_inj hf₁ hf₂ hb
  · intro s counter h
    rw [encodeCanonicalInto_countingSink] at h
    split_ifs at h with hf
    cases h
    exact ⟨⟨schemaBytes s⟩, by simp [encodeCanonicalInto_vecSink, hf.1], rfl⟩

/-- A nested schema over one metadata map, for evaluation. -/
def nestedSchema (metadata : Metadata) : LogicalSchema :=
  ⟨1, [⟨7, "t", .list (.struct [⟨9, "z", .timestamp .microsecond (some "UTC"), true, ∅⟩]), false,
    metadata⟩], ∅⟩

theorem canonicalBytes_injective_nestedSchema :
    nestedSchema (insert (insert ∅ "k" "v") "a" "b") =
      nestedSchema (insert (insert ∅ "a" "b") "k" "v") ∧
    ∃ sink : VecSink, (nestedSchema ∅).encodeCanonicalInto (⟨[]⟩ : VecSink) = .ok sink ∧
      sink.out.length = 78 :=
  ⟨canonicalBytes_injective.1 _ _ _ rfl rfl,
    canonicalBytes_injective.2 _ ⟨78, by decide⟩ rfl⟩

end Stillflow.Core
