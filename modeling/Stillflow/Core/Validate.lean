import Stillflow.Lib.WorkStack
import Stillflow.Core.Text

/-!
Schema validation: the stack walk over types and field lists with its field and text budgets.
-/

namespace Stillflow.Core

open Lib.Fallible Lib.WorkStack

/-- Fields and text spent so far; a budget past a limit cannot be built. -/
structure SchemaBudget where
  fields : Nat
  textBytes : Nat
  fields_le : fields ≤ maxSchemaFields
  textBytes_le : textBytes ≤ maxSchemaTextBytes

namespace SchemaBudget

def default : SchemaBudget := ⟨0, 0, Nat.zero_le _, Nat.zero_le _⟩

def addField (budget : SchemaBudget) : Except LogicalError SchemaBudget :=
  if budget.fields + 1 > usizeMax then
    .error (.schemaFieldLimitExceeded usizeMax maxSchemaFields)
  else if h : budget.fields + 1 ≤ maxSchemaFields then
    .ok ⟨budget.fields + 1, budget.textBytes, h, budget.textBytes_le⟩
  else .error (.schemaFieldLimitExceeded (budget.fields + 1) maxSchemaFields)

def addText (budget : SchemaBudget) (bytes : Nat) : Except LogicalError SchemaBudget :=
  if budget.textBytes + bytes > usizeMax then
    .error (.schemaTextLimitExceeded usizeMax maxSchemaTextBytes)
  else if h : budget.textBytes + bytes ≤ maxSchemaTextBytes then
    .ok ⟨budget.fields, budget.textBytes + bytes, budget.fields_le, h⟩
  else .error (.schemaTextLimitExceeded (budget.textBytes + bytes) maxSchemaTextBytes)

end SchemaBudget

def validateMetadataEntry (budget : SchemaBudget) (entry : String × String) :
    Except LogicalError SchemaBudget := do
  let budget ← budget.addText (byteLen entry.1)
  budget.addText (byteLen entry.2)

def validateMetadata (metadata : Metadata) (budget : SchemaBudget) :
    Except LogicalError SchemaBudget := do
  let budget ← metadata.toList.foldlM validateMetadataEntry budget
  if metadataSafe metadata then .ok budget else .error .unsafeMetadata

inductive ValidationNode where
  | type (dataType : LogicalType) (depth : Nat)
  | fields (fields : List LogicalField) (typeDepth : Nat)

def nextDepth (depth : Nat) : Except LogicalError Nat :=
  if depth + 1 ≤ usizeMax then .ok (depth + 1)
  else .error (.schemaNestingDepthExceeded usizeMax maxSchemaNestingDepth)

/-- The loop over one field list; `ids` and `names` are the sets of what was inserted so far. -/
def validateFieldLoop : List LogicalField → List ColumnId → List String → SchemaBudget →
    Except LogicalError SchemaBudget
  | [], _, _, budget => .ok budget
  | field :: rest, ids, names, budget => do
    require (isBlank field.name = false) (.emptyColumnName field.id)
    let budget ← budget.addField
    let budget ← budget.addText (byteLen field.name)
    let budget ← validateMetadata field.metadata budget
    require (field.id ∉ ids) (.duplicateColumnId field.id)
    require (field.name ∉ names) (.duplicateColumnName field.name)
    validateFieldLoop rest (field.id :: ids) (field.name :: names) budget

def validateTypeNode (dataType : LogicalType) (depth : Nat) (budget : SchemaBudget) :
    Except LogicalError (List ValidationNode × SchemaBudget) := do
  require (depth ≤ maxSchemaNestingDepth)
    (.schemaNestingDepthExceeded depth maxSchemaNestingDepth)
  match dataType with
  | .timestamp _ (some timezone) => do
    require (isBlank timezone = false) .emptyTimezone
    return ([], ← budget.addText (byteLen timezone))
  | .list element => return ([.type element (← nextDepth depth)], budget)
  | .struct fields => return ([.fields fields (← nextDepth depth)], budget)
  | _ => return ([], budget)

/-- One iteration of the validation loop. -/
def validateNode (node : ValidationNode) (budget : SchemaBudget) :
    Except LogicalError (List ValidationNode × SchemaBudget) :=
  match node with
  | .type dataType depth => validateTypeNode dataType depth budget
  | .fields fields typeDepth => do
    let budget ← validateFieldLoop fields [] [] budget
    return (fields.map fun field => .type field.dataType typeDepth, budget)

def ValidationNode.size : ValidationNode → Nat
  | .type dataType _ => dataType.weight
  | .fields fs _ => fieldsWeight fs + 1

private theorem sum_size_fieldTypes (fs : List LogicalField) (depth : Nat) :
    ((fs.map fun f => ValidationNode.type f.dataType depth).map ValidationNode.size).sum ≤
      fieldsWeight fs := by
  induction fs with
  | nil => exact Nat.le_refl _
  | cons f fs ih =>
    simp only [List.map_cons, List.sum_cons, ValidationNode.size, fieldsWeight,
      LogicalField.weight_eq]
    omega

private theorem validateTypeNode_size {ty : LogicalType} {depth : Nat} {budget budget' : SchemaBudget}
    {nodes : List ValidationNode} (h : validateTypeNode ty depth budget = .ok (nodes, budget')) :
    (nodes.map ValidationNode.size).sum < ty.weight := by
  simp only [validateTypeNode, bind_eq_ok] at h
  obtain ⟨-, -, h⟩ := h
  cases ty with
  | timestamp unit timezone =>
    cases timezone <;> simp only [bind_eq_ok, pure_eq_ok] at h <;> grind [LogicalType.weight]
  | _ =>
    simp only [bind_eq_ok, pure_eq_ok] at h
    grind [LogicalType.weight, ValidationNode.size]

/-- The `while let Some(node) = stack.pop()` loop. -/
def validateWalk : Walk ValidationNode SchemaBudget LogicalError where
  visit := validateNode
  size := ValidationNode.size
  size_pos node := by cases node <;> simp [ValidationNode.size, LogicalType.weight_pos]
  size_lt {node budget nodes budget'} h := by
    cases node with
    | type ty depth => exact validateTypeNode_size h
    | fields fs depth =>
      simp only [validateNode, bind_eq_ok, pure_eq_ok] at h
      obtain ⟨b, -, h⟩ := h
      cases h
      exact Nat.lt_succ_of_le (sum_size_fieldTypes fs depth)

def validateNodes (stack : List ValidationNode) (budget : SchemaBudget) :
    Except LogicalError Unit := do
  let _ ← validateWalk.run stack budget
  return ()

def validateType (dataType : LogicalType) : Except LogicalError Unit :=
  validateNodes [.type dataType 1] .default

def validateFields (fields : List LogicalField) : Except LogicalError Unit :=
  validateNodes [.fields fields 1] .default

def validateSchema (fields : List LogicalField) (metadata : Metadata) :
    Except LogicalError Unit := do
  let budget ← validateMetadata metadata .default
  validateNodes [.fields fields 1] budget

def LogicalType.validate (dataType : LogicalType) : Except LogicalError Unit :=
  validateType dataType

def LogicalField.validate (field : LogicalField) : Except LogicalError Unit :=
  validateFields [field]

def LogicalField.new (id : ColumnId) (name : String) (dataType : LogicalType) (nullable : Bool) :
    Except LogicalError LogicalField := do
  let field : LogicalField := ⟨id, name, dataType, nullable, ∅⟩
  field.validate
  return field

namespace LogicalSchema

def validate (schema : LogicalSchema) : Except LogicalError Unit := do
  require (schema.version = logicalSchemaVersion) (.unsupportedSchemaVersion schema.version)
  validateSchema schema.fields schema.metadata

def fromParts (version : UInt16) (fields : List LogicalField) (metadata : Metadata) :
    Except LogicalError LogicalSchema := do
  let schema : LogicalSchema := ⟨version, fields, metadata⟩
  schema.validate
  return schema

def new (fields : List LogicalField) : Except LogicalError LogicalSchema :=
  fromParts logicalSchemaVersion fields ∅

end LogicalSchema
end Stillflow.Core
