import Mathlib

/-!
Logical columns, types and schemas of the core crate: the data that schemas, rules and the
canonical descriptor are made of.
-/

namespace Stillflow.Core

def logicalSchemaVersion : UInt16 := 1

def maxSchemaNestingDepth : Nat := 64

def maxSchemaFields : Nat := 4096

def maxSchemaTextBytes : Nat := 1024 * 1024

def usizeMax : Nat := 2 ^ 64 - 1

def saturatingAdd (a b : Nat) : Nat := min (a + b) usizeMax

def saturatingMul (a b : Nat) : Nat := min (a * b) usizeMax

def u32Max : Nat := 2 ^ 32 - 1

/-- A UUID by its `as_u128` value; the byte order of `Uuid` is the numeric order. -/
abbrev Uuid := BitVec 128

instance : Std.TransOrd Uuid := inferInstance

instance : Std.LawfulEqOrd Uuid := inferInstance

instance : LawfulBEq Uuid := inferInstance

/-- Instants, in nanoseconds since the epoch. -/
abbrev Instant := Int

abbrev ColumnId := Uuid

/-- A `BTreeMap<String, String>`: extensional, and enumerated in ascending key order. -/
abbrev Metadata := Std.ExtTreeMap String String

inductive TimeUnit where
  | second
  | millisecond
  | microsecond
  | nanosecond
  deriving DecidableEq, Repr

mutual

inductive LogicalType where
  | null
  | boolean
  | int8
  | int16
  | int32
  | int64
  | uint8
  | uint16
  | uint32
  | uint64
  | float32
  | float64
  | utf8
  | binary
  | date32
  | timestamp (unit : TimeUnit) (timezone : Option String)
  | list (element : LogicalType)
  | struct (fields : List LogicalField)

structure LogicalField where
  id : ColumnId
  name : String
  dataType : LogicalType
  nullable : Bool
  metadata : Metadata

end

mutual

def LogicalType.beq : LogicalType → LogicalType → Bool
  | .timestamp u z, .timestamp u' z' => u == u' && z == z'
  | .list e, .list e' => e.beq e'
  | .struct fs, .struct fs' => LogicalField.beqList fs fs'
  | a, b => a.ctorIdx == b.ctorIdx

def LogicalField.beq : LogicalField → LogicalField → Bool
  | ⟨id, name, ty, nullable, metadata⟩, ⟨id', name', ty', nullable', metadata'⟩ =>
    id == id' && name == name' && ty.beq ty' && nullable == nullable' && metadata == metadata'

def LogicalField.beqList : List LogicalField → List LogicalField → Bool
  | [], [] => true
  | f :: fs, f' :: fs' => f.beq f' && LogicalField.beqList fs fs'
  | _, _ => false

end

mutual

theorem LogicalType.beq_iff : ∀ a b : LogicalType, a.beq b = true ↔ a = b
  | .timestamp u z, b => by cases b <;> simp [LogicalType.beq, LogicalType.ctorIdx]
  | .list e, b => by
    cases b with
    | list e' => simpa [LogicalType.beq] using LogicalType.beq_iff e e'
    | _ => simp [LogicalType.beq, LogicalType.ctorIdx]
  | .struct fs, b => by
    cases b with
    | struct fs' => simpa [LogicalType.beq] using LogicalField.beqList_iff fs fs'
    | _ => simp [LogicalType.beq, LogicalType.ctorIdx]
  | .null, b | .boolean, b | .int8, b | .int16, b | .int32, b | .int64, b | .uint8, b
  | .uint16, b | .uint32, b | .uint64, b | .float32, b | .float64, b | .utf8, b | .binary, b
  | .date32, b => by cases b <;> simp [LogicalType.beq, LogicalType.ctorIdx]

theorem LogicalField.beq_iff : ∀ f g : LogicalField, f.beq g = true ↔ f = g
  | ⟨id, name, ty, nullable, metadata⟩, ⟨id', name', ty', nullable', metadata'⟩ => by
    simp [LogicalField.beq, LogicalType.beq_iff ty ty', and_assoc]

theorem LogicalField.beqList_iff : ∀ fs gs : List LogicalField,
    LogicalField.beqList fs gs = true ↔ fs = gs
  | [], [] => by simp [LogicalField.beqList]
  | [], _ :: _ => by simp [LogicalField.beqList]
  | _ :: _, [] => by simp [LogicalField.beqList]
  | f :: fs, g :: gs => by
    simp [LogicalField.beqList, LogicalField.beq_iff f g, LogicalField.beqList_iff fs gs]

end

instance : DecidableEq LogicalType := fun a b => decidable_of_iff _ (LogicalType.beq_iff a b)

instance : DecidableEq LogicalField := fun f g => decidable_of_iff _ (LogicalField.beq_iff f g)

structure LogicalSchema where
  version : UInt16
  fields : List LogicalField
  metadata : Metadata
  deriving DecidableEq

/-- Failures of schema, type and expression validation. -/
inductive LogicalError where
  | unsupportedSchemaVersion (version : UInt16)
  | emptyColumnName (id : ColumnId)
  | duplicateColumnId (id : ColumnId)
  | duplicateColumnName (name : String)
  | unknownColumn (id : ColumnId)
  | incompatibleTypes (left right : LogicalType)
  | emptyTimezone
  | schemaNestingDepthExceeded (depth maximum : Nat)
  | schemaFieldLimitExceeded (fields maximum : Nat)
  | schemaTextLimitExceeded (bytes maximum : Nat)
  | unsafeMetadata
  | canonicalEncodingOverflow
  | nonFiniteFloat
  | emptyCoalesce
  | substringStartBelowOne
  | unsafeLiteral
  deriving DecidableEq

def LogicalSchema.field (schema : LogicalSchema) (id : ColumnId) : Option LogicalField :=
  schema.fields.find? (·.id == id)

mutual

/-- Number of stack entries a traversal of the type can create. -/
def LogicalType.weight : LogicalType → Nat
  | .list element => element.weight + 1
  | .struct fields => fieldsWeight fields + 2
  | _ => 1

def LogicalField.weight : LogicalField → Nat
  | ⟨_, _, dataType, _, _⟩ => dataType.weight + 2

def fieldsWeight : List LogicalField → Nat
  | [] => 0
  | f :: fs => f.weight + fieldsWeight fs

end

theorem LogicalType.weight_pos (ty : LogicalType) : 0 < ty.weight := by
  cases ty <;> simp [LogicalType.weight]

theorem LogicalField.weight_eq (f : LogicalField) : f.weight = f.dataType.weight + 2 := by
  cases f
  rw [LogicalField.weight]

theorem fieldsWeight_eq_sum (fs : List LogicalField) :
    fieldsWeight fs = (fs.map LogicalField.weight).sum := by
  induction fs with
  | nil => rfl
  | cons f fs ih => simp [fieldsWeight, ih]

end Stillflow.Core
