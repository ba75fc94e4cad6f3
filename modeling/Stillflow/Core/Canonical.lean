import Stillflow.Lib.WorkStack
import Stillflow.Lib.SelfDelimiting
import Stillflow.Core.Logical

/-!
The canonical schema descriptor: the task-stack encoder of `LogicalSchema`, run once against a
counting sink and once against a byte sink.
-/

namespace Stillflow.Core

open Lib.Fallible Lib.WorkStack Lib.SelfDelimiting

def utf8Bytes (s : String) : List UInt8 := s.toUTF8.data.toList

theorem utf8Bytes_injective : Function.Injective utf8Bytes := by
  intro s t h
  have hb : s.toByteArray = t.toByteArray := ByteArray.ext (Array.toList_inj.mp h)
  exact String.toByteArray_inj.mp hb

def Uuid.asBytes (id : Uuid) : List UInt8 := (leBytes 16 id.toNat).reverse

/-- `u32::try_from` on a length. -/
def tryU32 (n : Nat) : Except LogicalError Nat :=
  if n ≤ u32Max then .ok n else .error .canonicalEncodingOverflow

namespace CanonicalTypeTags

def null : UInt8 := 0x00
def boolean : UInt8 := 0x01
def int8 : UInt8 := 0x02
def int16 : UInt8 := 0x03
def int32 : UInt8 := 0x04
def int64 : UInt8 := 0x05
def uint8 : UInt8 := 0x06
def uint16 : UInt8 := 0x07
def uint32 : UInt8 := 0x08
def uint64 : UInt8 := 0x09
def float32 : UInt8 := 0x0A
def float64 : UInt8 := 0x0B
def utf8 : UInt8 := 0x0C
def binary : UInt8 := 0x0D
def date32 : UInt8 := 0x0E
def timestamp : UInt8 := 0x0F
def list : UInt8 := 0x10
def struct : UInt8 := 0x11

end CanonicalTypeTags

def canonicalTimeUnitTag : TimeUnit → UInt8
  | .second => 0x00
  | .millisecond => 0x01
  | .microsecond => 0x02
  | .nanosecond => 0x03

class EncodingSink (S : Type) where
  put : S → List UInt8 → Except LogicalError S

structure CountingSink where
  length : Nat
  length_le : length ≤ usizeMax

instance : EncodingSink CountingSink where
  put sink bytes :=
    if h : sink.length + bytes.length ≤ usizeMax then .ok ⟨sink.length + bytes.length, h⟩
    else .error .canonicalEncodingOverflow

structure VecSink where
  out : List UInt8

instance : EncodingSink VecSink where
  put sink bytes := .ok ⟨sink.out ++ bytes⟩

inductive EncodeTask where
  | field (field : LogicalField)
  | fields (fields : List LogicalField)
  | type (dataType : LogicalType)
  | metadata (metadata : Metadata)

section Encoder

variable {S : Type} [EncodingSink S]

open EncodingSink

def encodeMetadataEntry (sink : S) (entry : String × String) : Except LogicalError S := do
  let keyLength ← tryU32 (utf8Bytes entry.1).length
  let valueLength ← tryU32 (utf8Bytes entry.2).length
  let sink ← put sink (leBytes 4 keyLength)
  let sink ← put sink (utf8Bytes entry.1)
  let sink ← put sink (leBytes 4 valueLength)
  put sink (utf8Bytes entry.2)

def encodeMetadataBlock (metadata : Metadata) (sink : S) : Except LogicalError S := do
  let count ← tryU32 metadata.size
  let sink ← put sink (leBytes 4 count)
  metadata.toList.foldlM encodeMetadataEntry sink

/-- Emit the tag and payload of one type; the nested parts are left as tasks, top first. -/
def encodeCanonicalType (dataType : LogicalType) (sink : S) :
    Except LogicalError (List EncodeTask × S) :=
  match dataType with
  | .null => return ([], ← put sink [CanonicalTypeTags.null])
  | .boolean => return ([], ← put sink [CanonicalTypeTags.boolean])
  | .int8 => return ([], ← put sink [CanonicalTypeTags.int8])
  | .int16 => return ([], ← put sink [CanonicalTypeTags.int16])
  | .int32 => return ([], ← put sink [CanonicalTypeTags.int32])
  | .int64 => return ([], ← put sink [CanonicalTypeTags.int64])
  | .uint8 => return ([], ← put sink [CanonicalTypeTags.uint8])
  | .uint16 => return ([], ← put sink [CanonicalTypeTags.uint16])
  | .uint32 => return ([], ← put sink [CanonicalTypeTags.uint32])
  | .uint64 => return ([], ← put sink [CanonicalTypeTags.uint64])
  | .float32 => return ([], ← put sink [CanonicalTypeTags.float32])
  | .float64 => return ([], ← put sink [CanonicalTypeTags.float64])
  | .utf8 => return ([], ← put sink [CanonicalTypeTags.utf8])
  | .binary => return ([], ← put sink [CanonicalTypeTags.binary])
  | .date32 => return ([], ← put sink [CanonicalTypeTags.date32])
  | .timestamp unit none => do
    let sink ← put sink [CanonicalTypeTags.timestamp, canonicalTimeUnitTag unit]
    return ([], ← put sink [0x00])
  | .timestamp unit (some timezone) => do
    let sink ← put sink [CanonicalTypeTags.timestamp, canonicalTimeUnitTag unit]
    let length ← tryU32 (utf8Bytes timezone).length
    let sink ← put sink [0x01]
    let sink ← put sink (leBytes 4 length)
    return ([], ← put sink (utf8Bytes timezone))
  | .list element => do
    let sink ← put sink [CanonicalTypeTags.list]
    return ([.type element], sink)
  | .struct fields => do
    let sink ← put sink [CanonicalTypeTags.struct]
    let fieldCount ← tryU32 fields.length
    let sink ← put sink (leBytes 4 fieldCount)
    return ([.fields fields], sink)

/-- One iteration of the encoder loop. -/
def encodeTask (task : EncodeTask) (sink : S) : Except LogicalError (List EncodeTask × S) :=
  match task with
  | .fields fields => return (fields.map .field, sink)
  | .field field => do
    let nameLength ← tryU32 (utf8Bytes field.name).length
    let sink ← put sink (leBytes 4 nameLength)
    let sink ← put sink (utf8Bytes field.name)
    let sink ← put sink (Uuid.asBytes field.id)
    let sink ← put sink [field.nullable.toUInt8]
    return ([.type field.dataType, .metadata field.metadata], sink)
  | .type dataType => encodeCanonicalType dataType sink
  | .metadata metadata => return ([], ← encodeMetadataBlock metadata sink)

def EncodeTask.size : EncodeTask → Nat
  | .field f => f.weight
  | .fields fs => fieldsWeight fs + 1
  | .type ty => ty.weight
  | .metadata _ => 1

private theorem sum_size_fields (fs : List LogicalField) :
    ((fs.map EncodeTask.field).map EncodeTask.size).sum = fieldsWeight fs := by
  rw [fieldsWeight_eq_sum, List.map_map]
  rfl

private theorem encodeCanonicalType_size {ty : LogicalType} {sink sink' : S}
    {tasks : List EncodeTask} (h : encodeCanonicalType ty sink = .ok (tasks, sink')) :
    (tasks.map EncodeTask.size).sum < ty.weight := by
  cases ty with
  | timestamp unit timezone =>
    cases timezone <;>
    · simp only [encodeCanonicalType, bind_eq_ok, pure_eq_ok] at h
      grind [LogicalType.weight]
  | _ =>
    simp only [encodeCanonicalType, bind_eq_ok, pure_eq_ok] at h
    grind [LogicalType.weight, EncodeTask.size]

/-- The `while let Some(task) = tasks.pop()` loop. -/
def encodeWalk (S : Type) [EncodingSink S] : Walk EncodeTask S LogicalError where
  visit := encodeTask
  size := EncodeTask.size
  size_pos task := by
    cases task <;> simp [EncodeTask.size, LogicalType.weight_pos, LogicalField.weight_eq]
  size_lt {task sink tasks sink'} h := by
    cases task with
    | fields fs =>
      obtain ⟨rfl, -⟩ : fs.map .field = tasks ∧ sink = sink' := by simpa [encodeTask] using h
      rw [sum_size_fields]
      exact Nat.lt_succ_self _
    | field f =>
      simp only [encodeTask, bind_eq_ok, pure_eq_ok] at h
      grind [EncodeTask.size, LogicalField.weight_eq]
    | type ty => exact encodeCanonicalType_size h
    | metadata m =>
      simp only [encodeTask, bind_eq_ok, pure_eq_ok] at h
      grind [EncodeTask.size]

def runEncodeTasks (tasks : List EncodeTask) (sink : S) : Except LogicalError S :=
  (encodeWalk S).run tasks sink

def LogicalSchema.encodeCanonicalInto (schema : LogicalSchema) (sink : S) :
    Except LogicalError S := do
  let sink ← put sink (leBytes 2 schema.version.toNat)
  let fieldCount ← tryU32 schema.fields.length
  let sink ← put sink (leBytes 4 fieldCount)
  let sink ← runEncodeTasks [.fields schema.fields] sink
  encodeMetadataBlock schema.metadata sink

end Encoder

/-- `Vec::try_reserve_exact`: capacities above `isize::MAX` are refused. -/
def tryReserveExact (capacity : Nat) : Except LogicalError Unit :=
  require (capacity < 2 ^ 63) .canonicalEncodingOverflow

def LogicalSchema.canonicalBytes (schema : LogicalSchema) : Except LogicalError (List UInt8) := do
  let counter ← schema.encodeCanonicalInto (⟨0, Nat.zero_le _⟩ : CountingSink)
  tryReserveExact counter.length
  let sink ← schema.encodeCanonicalInto (⟨[]⟩ : VecSink)
  return sink.out

end Stillflow.Core
