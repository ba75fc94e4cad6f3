import Stillflow.Engine.Frame

/-!
The meaning of lowered expressions on one row. What casts, comparisons and text operations do to
values other than NULL is the library's.
-/

namespace Stillflow.Engine

open Stillflow.Core Stillflow.Plan

variable {dataType : LogicalType} {v : AnyValue}

/-- A value other than NULL of a library type. -/
def AnyValue.HasDtype : AnyValue → PolarsType → Prop
  | .boolean _, .boolean | .int8 _, .int8 | .int16 _, .int16 | .int32 _, .int32
  | .int64 _, .int64 | .uint8 _, .uint8 | .uint16 _, .uint16 | .uint32 _, .uint32
  | .uint64 _, .uint64 | .float32 _, .float32 | .float64 _, .float64 | .string _, .string
  | .stringOwned _, .string | .binary _, .binary | .date _, .date => True
  | .datetime _ unit timezone, .datetime unit' timezone' => unit = unit' ∧ timezone = timezone'
  | _, _ => False

/-- A value other than NULL of a logical type. -/
def AnyValue.HasType : AnyValue → LogicalType → Prop
  | .boolean _, .boolean | .int8 _, .int8 | .int16 _, .int16 | .int32 _, .int32
  | .int64 _, .int64 | .uint8 _, .uint8 | .uint16 _, .uint16 | .uint32 _, .uint32
  | .uint64 _, .uint64 | .float32 _, .float32 | .float64 _, .float64 | .string _, .utf8
  | .stringOwned _, .utf8 | .binary _, .binary | .date _, .date32 => True
  | .datetime _ unit timezone, .timestamp unit' timezone' => unit = unit' ∧ timezone = timezone'
  | .nested own _, .list item => own = .list item
  | .nested own _, .struct fields => own = .struct fields
  | _, _ => False

def AnyValue.text? : AnyValue → Option String
  | .string text | .stringOwned text => some text
  | _ => none

/-- What the library does to values other than NULL; `none` is a failure of the evaluation. -/
structure ScalarOps where
  cast : PolarsType → AnyValue → Option AnyValue
  compare : BinaryOperator → AnyValue → AnyValue → Option Bool
  containsLiteral : String → String → Bool
  slice : String → Nat → Nat → String
  stripChars : String → String
  normalizeText : TextOperation → String → String
  strptime : PolarsType → String → String → Option AnyValue

/-- Casts and temporal parsing give values of the target type. -/
structure ScalarOps.Typed (ops : ScalarOps) : Prop where
  cast_dtype : ∀ {dtype v w}, v ≠ AnyValue.null → ops.cast dtype v = some w → w.HasDtype dtype
  strptime_dtype : ∀ {dtype format text w}, ops.strptime dtype format text = some w →
    w.HasDtype dtype

/-- NULL for NULL. -/
def unlessNull (v : AnyValue) (f : AnyValue → Option AnyValue) : Option AnyValue :=
  if v = .null then some .null else f v

/-- NULL for NULL, and text for text. -/
def onText (v : AnyValue) (f : String → AnyValue) : Option AnyValue :=
  unlessNull v fun v => v.text?.map f

/-- NULL when either is NULL. -/
def unlessNulls (v w : AnyValue) (f : AnyValue → AnyValue → Option AnyValue) : Option AnyValue :=
  if v = .null ∨ w = .null then some .null else f v w

/-- A Boolean cell as a truth value. -/
def ofTruth : Option Bool → AnyValue
  | none => .null
  | some b => .boolean b

def kleeneNot (a : Option Bool) : Option Bool := a.map Bool.not

def kleeneAnd : Option Bool → Option Bool → Option Bool
  | some false, _ | _, some false => some false
  | some true, some true => some true
  | _, _ => none

def kleeneOr : Option Bool → Option Bool → Option Bool
  | some true, _ | _, some true => some true
  | some false, some false => some false
  | _, _ => none

def ScalarOps.binary (ops : ScalarOps) (operator : BinaryOperator) (v w : AnyValue) :
    Option AnyValue :=
  match operator with
  | .and => do return ofTruth (kleeneAnd (← asBoolean v) (← asBoolean w))
  | .or => do return ofTruth (kleeneOr (← asBoolean v) (← asBoolean w))
  | operator => unlessNulls v w fun v w => (ops.compare operator v w).map .boolean

/-- A cast; where a strict one fails, the other gives NULL. -/
def ScalarOps.castValue (ops : ScalarOps) (dtype : PolarsType) (strict : Bool) (v : AnyValue) :
    Option AnyValue :=
  unlessNull v fun v => if strict then ops.cast dtype v else some ((ops.cast dtype v).getD .null)

/-- The value of an expression on a row. All operands are evaluated, also those of the branch that
is not taken. -/
def ScalarOps.eval (ops : ScalarOps) (row : Row) : PolarsExpr → Option AnyValue
  | .col name => row.lookup name
  | .lit value => some (scalarValue value)
  | .not e => do return ofTruth (kleeneNot (← asBoolean (← ops.eval row e)))
  | .binary left operator right => do ops.binary operator (← ops.eval row left) (← ops.eval row right)
  | .containsLiteral text part => do
    unlessNulls (← ops.eval row text) (← ops.eval row part) fun v w => do
      return .boolean (ops.containsLiteral (← v.text?) (← w.text?))
  | .isNull e => do return .boolean ((← ops.eval row e) == .null)
  | .isNotNull e => do return .boolean ((← ops.eval row e) != .null)
  | .cast e dtype strict => do ops.castValue dtype strict (← ops.eval row e)
  | .slice e offset length => do
    onText (← ops.eval row e) fun text => .string (ops.slice text offset length)
  | .whenThen predicate thenBranch otherwise => do
    let p ← asBoolean (← ops.eval row predicate)
    let t ← ops.eval row thenBranch
    let o ← ops.eval row otherwise
    return if p = some true then t else o
  | .add left right => do
    unlessNulls (← ops.eval row left) (← ops.eval row right) fun v w => do
      return .string ((← v.text?) ++ (← w.text?))
  | .stripChars e => do onText (← ops.eval row e) fun text => .string (ops.stripChars text)
  | .normalizeText e operation => do
    onText (← ops.eval row e) fun text => .string (ops.normalizeText operation text)
  | .fillNull e value => do
    let v ← ops.eval row e
    let w ← ops.eval row value
    return if v = .null then w else v
  | .strptime e dtype format strict => do
    unlessNull (← ops.eval row e) fun v => do
      let text ← v.text?
      if strict then ops.strptime dtype format text
      else some ((ops.strptime dtype format text).getD .null)

theorem hasType_of_dtype {zones : TimeZones} {dtype : PolarsType}
    (h : polarsDataType zones dataType = .ok dtype) (hv : v.HasDtype dtype) :
    v.HasType dataType := by
  cases dataType with
  | timestamp unit timezone =>
    cases unit with
    | second => cases h
    | millisecond | microsecond | nanosecond =>
      obtain ⟨_, -, h⟩ := Lib.Fallible.of_bind h
      cases h
      cases v <;> exact hv
  | list _ | struct _ => cases h
  | _ =>
    cases h
    cases v <;> exact hv

/-- The value is of the type, or NULL where NULL is allowed. -/
def AnyValue.Fits (v : AnyValue) (dataType : LogicalType) (nullable : Bool) : Prop :=
  (v = .null ∧ nullable = true) ∨ v.HasType dataType

theorem ne_null_of_hasType (h : v.HasType dataType) : v ≠ .null := by
  rintro rfl
  cases dataType <;> exact h

theorem not_hasType_null (v : AnyValue) : ¬ v.HasType .null := by
  intro h
  cases v <;> exact h

theorem fits_null : AnyValue.null.Fits dataType true := .inl ⟨rfl, rfl⟩

theorem AnyValue.Fits.mono {nullable nullable' : Bool} (h : v.Fits dataType nullable)
    (hle : nullable = true → nullable' = true) : v.Fits dataType nullable' := by
  rcases h with ⟨hnull, hn⟩ | htype
  · exact .inl ⟨hnull, hle hn⟩
  · exact .inr htype

theorem AnyValue.Fits.null_of_nullType {nullable : Bool} (h : v.Fits .null nullable) :
    v = .null ∧ nullable = true := by
  rcases h with h | h
  · exact h
  · exact absurd h (not_hasType_null v)

end Stillflow.Engine
