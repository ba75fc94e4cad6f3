import Stillflow.Engine.Incremental

/-!
Lowering of logical expressions to the expressions of the dataframe library. The library itself is
outside the repository; only the expressions the engine builds are modelled here.
-/

namespace Stillflow.Engine

open Stillflow.Core Stillflow.Plan Lib.Fallible List

inductive PolarsType where
  | null
  | boolean
  | int8
  | int16
  | int32
  | int64
  | uint8
  | uint16
  | uint32
  | uint64
  | float32
  | float64
  | string
  | binary
  | date
  | datetime (unit : TimeUnit) (timezone : Option String)
  deriving DecidableEq

inductive PolarsExpr where
  | col (name : String)
  | lit (value : ScalarValue)
  | not (e : PolarsExpr)
  | binary (left : PolarsExpr) (operator : BinaryOperator) (right : PolarsExpr)
  | containsLiteral (text part : PolarsExpr)
  | isNull (e : PolarsExpr)
  | isNotNull (e : PolarsExpr)
  | cast (e : PolarsExpr) (dtype : PolarsType) (strict : Bool)
  | slice (e : PolarsExpr) (offset length : Nat)
  | whenThen (predicate thenBranch otherwise : PolarsExpr)
  | add (left right : PolarsExpr)
  | stripChars (e : PolarsExpr)
  | normalizeText (e : PolarsExpr) (operation : TextOperation)
  | fillNull (e value : PolarsExpr)
  | strptime (e : PolarsExpr) (dtype : PolarsType) (format : String) (strict : Bool)

def PolarsExpr.columns : PolarsExpr → List String
  | .col name => [name]
  | .lit _ => []
  | .not e | .isNull e | .isNotNull e | .cast e _ _ | .slice e _ _ | .stripChars e
  | .normalizeText e _ | .strptime e _ _ _ => e.columns
  | .binary l _ r | .containsLiteral l r | .add l r | .fillNull l r => l.columns ++ r.columns
  | .whenThen p t o => p.columns ++ t.columns ++ o.columns

/-- Whether a zone name is in the library's time zone table. -/
abbrev TimeZones := String → Bool

variable {schema : LogicalSchema} {zones : TimeZones}

def polarsDataType (zones : TimeZones) : LogicalType → Except EngineError PolarsType
  | .null => .ok .null
  | .boolean => .ok .boolean
  | .int8 => .ok .int8
  | .int16 => .ok .int16
  | .int32 => .ok .int32
  | .int64 => .ok .int64
  | .uint8 => .ok .uint8
  | .uint16 => .ok .uint16
  | .uint32 => .ok .uint32
  | .uint64 => .ok .uint64
  | .float32 => .ok .float32
  | .float64 => .ok .float64
  | .utf8 => .ok .string
  | .binary => .ok .binary
  | .date32 => .ok .date
  | .timestamp .second _ => .error (.typeError "timestamp second unit is paused")
  | .timestamp unit timezone => do
    require (timezone.all zones = true) (EngineError.typeError "timestamp timezone is invalid")
    return .datetime unit timezone
  | .list _ | .struct _ => .error (.typeError
      "nested list and struct lowering is limited to passthrough projection")

def typeCheckExpr (expr : Expr) (schema : LogicalSchema) : Except EngineError LogicalType := do
  let analysis ← lift (analyzeExpr expr schema.field)
  return analysis.1

def fieldName (schema : LogicalSchema) (id : ColumnId) : Except EngineError String :=
  match schema.field id with
  | some field => .ok field.name
  | none => .error (.unknownColumn id)

def arithmeticPaused : EngineError :=
  .typeError "checked arithmetic is paused until overflow semantics are implemented"

/-- Cast an operand to the common type when its own type differs. -/
def castOperand (zones : TimeZones) (own target : LogicalType) (e : PolarsExpr) :
    Except EngineError PolarsExpr :=
  if own = target then .ok e else do
    return .cast e (← polarsDataType zones target) true

/-- The two operands of a binary operation over one type. -/
def unifyOperands (zones : TimeZones) (leftType rightType : LogicalType)
    (left right : PolarsExpr) : Except EngineError (PolarsExpr × PolarsExpr) :=
  if leftType = rightType then .ok (left, right) else do
    let lub ← (leftType.leastUpperBound rightType).mapError fun _ =>
      EngineError.typeError "incompatible binary operand types"
    let left ← castOperand zones leftType lub left
    let right ← castOperand zones rightType lub right
    return (left, right)

def lowerBinary (left : PolarsExpr) (operator : BinaryOperator) (right : PolarsExpr) :
    Except EngineError PolarsExpr :=
  match operator with
  | .add | .subtract | .multiply | .divide | .modulo => .error arithmeticPaused
  | .contains => .ok (.containsLiteral left right)
  | _ => .ok (.binary left operator right)

/-- The nested conditionals of `coalesce_exprs`: the first arm that is not null, else the last. -/
def coalesceExprs : List PolarsExpr → PolarsExpr
  | [] => .lit .null
  | [last] => last
  | head :: next :: rest => .whenThen (.isNotNull head) head (coalesceExprs (next :: rest))

mutual

def lowerExpr (zones : TimeZones) (schema : LogicalSchema) :
    Expr → Except EngineError PolarsExpr
  | .column id => do return .col (← fieldName schema id)
  | .literal value => .ok (.lit value)
  | .unary .not e => do return .not (← lowerExpr zones schema e)
  | .unary .negate _ => .error arithmeticPaused
  | .binary left operator right => do
    let leftType ← typeCheckExpr left schema
    let rightType ← typeCheckExpr right schema
    let leftExpr ← lowerExpr zones schema left
    let rightExpr ← lowerExpr zones schema right
    let operands ← unifyOperands zones leftType rightType leftExpr rightExpr
    lowerBinary operands.1 operator operands.2
  | .isNull e negated => do
    let inner ← lowerExpr zones schema e
    return if negated then .isNotNull inner else .isNull inner
  | .cast e dataType => do
    let inner ← lowerExpr zones schema e
    return .cast inner (← polarsDataType zones dataType) true
  | .substring e start length => do
    return .slice (← lowerExpr zones schema e) (start - 1).toNat length.toNat
  | .conditional predicate thenBranch otherwise => do
    let p ← lowerExpr zones schema predicate
    let t ← lowerExpr zones schema thenBranch
    let o ← lowerExpr zones schema otherwise
    return .whenThen p t o
  | .concat [] => .error (.invalidPlan "concat requires operands")
  | .concat (first :: rest) => do
    let first ← lowerExpr zones schema first
    lowerConcat zones schema first rest
  | .coalesce [] => .ok (.lit .null)
  | .coalesce (first :: rest) => do
    let target ← typeCheckExpr (.coalesce (first :: rest)) schema
    let _ ← polarsDataType zones target
    let arms ← lowerArms zones schema target (first :: rest)
    return coalesceExprs arms

/-- The operand loop of `Concat`. -/
def lowerConcat (zones : TimeZones) (schema : LogicalSchema) (concatenated : PolarsExpr) :
    List Expr → Except EngineError PolarsExpr
  | [] => .ok concatenated
  | e :: es => do
    let next ← lowerExpr zones schema e
    lowerConcat zones schema (.add concatenated next) es

/-- The arm loop of `Coalesce`. -/
def lowerArms (zones : TimeZones) (schema : LogicalSchema) (target : LogicalType) :
    List Expr → Except EngineError (List PolarsExpr)
  | [] => .ok []
  | e :: es => do
    let armType ← typeCheckExpr e schema
    let arm ← lowerExpr zones schema e
    let arm ← castOperand zones armType target arm
    let arms ← lowerArms zones schema target es
    return arm :: arms

end

theorem castOperand_columns {own target : LogicalType} {e e' : PolarsExpr}
    (h : castOperand zones own target e = .ok e') : e'.columns = e.columns := by
  unfold castOperand at h
  split_ifs at h
  · cases h
    rfl
  · obtain ⟨dtype, -, h⟩ := of_bind h
    cases h
    rfl

theorem unifyOperands_columns {lt rt : LogicalType} {l r : PolarsExpr} {p : PolarsExpr × PolarsExpr}
    (h : unifyOperands zones lt rt l r = .ok p) :
    p.1.columns = l.columns ∧ p.2.columns = r.columns := by
  unfold unifyOperands at h
  split_ifs at h
  · cases h
    exact ⟨rfl, rfl⟩
  · obtain ⟨lub, -, h⟩ := of_bind h
    obtain ⟨l', hl, h⟩ := of_bind h
    obtain ⟨r', hr, h⟩ := of_bind h
    cases h
    exact ⟨castOperand_columns hl, castOperand_columns hr⟩

theorem lowerBinary_columns {l r e : PolarsExpr} {operator : BinaryOperator}
    (h : lowerBinary l operator r = .ok e) : e.columns = l.columns ++ r.columns := by
  cases operator <;> cases h <;> rfl

theorem coalesceExprs_columns_eq_nil (arms : List PolarsExpr) :
    (coalesceExprs arms).columns = [] ↔ ∀ arm ∈ arms, arm.columns = [] := by
  induction arms with
  | nil => simp [coalesceExprs, PolarsExpr.columns]
  | cons head rest ih =>
    cases rest with
    | nil => simp [coalesceExprs]
    | cons next rest =>
      simp only [coalesceExprs, PolarsExpr.columns, append_eq_nil_iff, ih,
        forall_mem_cons, and_self]

mutual

/-- An expression without column nodes is lowered to one without column references, and only
such an expression is. -/
theorem lowerExpr_columns :
    ∀ {e : Expr} {lowered : PolarsExpr}, lowerExpr zones schema e = .ok lowered →
      (lowered.columns = [] ↔ countExprColumnRefs e = 0)
  | .column id, lowered, h => by
    rw [lowerExpr] at h
    obtain ⟨name, -, h⟩ := of_bind h
    cases h
    simp [PolarsExpr.columns, countExprColumnRefs]
  | .literal value, lowered, h => by
    rw [lowerExpr] at h
    cases h
    simp [PolarsExpr.columns, countExprColumnRefs]
  | .unary .not e, lowered, h => by
    rw [lowerExpr] at h
    obtain ⟨inner, hinner, h⟩ := of_bind h
    cases h
    simpa [PolarsExpr.columns, countExprColumnRefs] using lowerExpr_columns hinner
  | .unary .negate e, lowered, h => by
    rw [lowerExpr] at h
    cases h
  | .binary left operator right, lowered, h => by
    rw [lowerExpr] at h
    obtain ⟨lt, -, h⟩ := of_bind h
    obtain ⟨rt, -, h⟩ := of_bind h
    obtain ⟨l, hl, h⟩ := of_bind h
    obtain ⟨r, hr, h⟩ := of_bind h
    obtain ⟨p, hp, h⟩ := of_bind h
    have hcols := unifyOperands_columns hp
    have hleft := lowerExpr_columns hl
    have hright := lowerExpr_columns hr
    rw [lowerBinary_columns h, hcols.1, hcols.2, append_eq_nil_iff, hleft, hright,
      countExprColumnRefs]
    omega
  | .isNull e negated, lowered, h => by
    rw [lowerExpr] at h
    obtain ⟨inner, hinner, h⟩ := of_bind h
    cases h
    have ih := lowerExpr_columns hinner
    cases negated <;> simpa [PolarsExpr.columns, countExprColumnRefs] using ih
  | .cast e dataType, lowered, h => by
    rw [lowerExpr] at h
    obtain ⟨inner, hinner, h⟩ := of_bind h
    obtain ⟨dtype, -, h⟩ := of_bind h
    cases h
    simpa [PolarsExpr.columns, countExprColumnRefs] using lowerExpr_columns hinner
  | .substring e start length, lowered, h => by
    rw [lowerExpr] at h
    obtain ⟨inner, hinner, h⟩ := of_bind h
    cases h
    simpa [PolarsExpr.columns, countExprColumnRefs] using lowerExpr_columns hinner
  | .conditional predicate thenBranch otherwise, lowered, h => by
    rw [lowerExpr] at h
    obtain ⟨p, hp, h⟩ := of_bind h
    obtain ⟨t, ht, h⟩ := of_bind h
    obtain ⟨o, ho, h⟩ := of_bind h
    cases h
    have hpred := lowerExpr_columns hp
    have hthen := lowerExpr_columns ht
    have hother := lowerExpr_columns ho
    simp only [PolarsExpr.columns, append_eq_nil_iff, hpred, hthen, hother,
      countExprColumnRefs]
    omega
  | .concat [], lowered, h => by
    rw [lowerExpr] at h
    cases h
  | .concat (first :: rest), lowered, h => by
    rw [lowerExpr] at h
    obtain ⟨f, hf, h⟩ := of_bind h
    have hfirst := lowerExpr_columns hf
    have hrest := lowerConcat_columns h
    rw [hrest, hfirst, countExprColumnRefs, countExprsColumnRefs]
    omega
  | .coalesce [], lowered, h => by
    rw [lowerExpr] at h
    cases h
    simp [PolarsExpr.columns, countExprColumnRefs, countExprsColumnRefs]
  | .coalesce (first :: rest), lowered, h => by
    rw [lowerExpr] at h
    obtain ⟨target, -, h⟩ := of_bind h
    obtain ⟨dtype, -, h⟩ := of_bind h
    obtain ⟨arms, harms, h⟩ := of_bind h
    cases h
    rw [coalesceExprs_columns_eq_nil, lowerArms_columns harms, countExprColumnRefs]

theorem lowerConcat_columns :
    ∀ {es : List Expr} {acc lowered : PolarsExpr}, lowerConcat zones schema acc es = .ok lowered →
      (lowered.columns = [] ↔ acc.columns = [] ∧ countExprsColumnRefs es = 0)
  | [], acc, lowered, h => by
    rw [lowerConcat] at h
    cases h
    simp [countExprsColumnRefs]
  | e :: es, acc, lowered, h => by
    rw [lowerConcat] at h
    obtain ⟨next, hnext, h⟩ := of_bind h
    have hhead := lowerExpr_columns hnext
    have hrest := lowerConcat_columns h
    rw [hrest, PolarsExpr.columns, append_eq_nil_iff, hhead, countExprsColumnRefs,
      Nat.add_eq_zero_iff, and_assoc]

theorem lowerArms_columns {target : LogicalType} :
    ∀ {es : List Expr} {arms : List PolarsExpr}, lowerArms zones schema target es = .ok arms →
      ((∀ arm ∈ arms, arm.columns = []) ↔ countExprsColumnRefs es = 0)
  | [], arms, h => by
    rw [lowerArms] at h
    cases h
    simp [countExprsColumnRefs]
  | e :: es, arms, h => by
    rw [lowerArms] at h
    obtain ⟨armType, -, h⟩ := of_bind h
    obtain ⟨arm, harm, h⟩ := of_bind h
    obtain ⟨arm', hcast, h⟩ := of_bind h
    obtain ⟨rest, hrest, h⟩ := of_bind h
    cases h
    have hhead := lowerExpr_columns harm
    have htail := lowerArms_columns hrest
    rw [forall_mem_cons, castOperand_columns hcast, hhead, htail, countExprsColumnRefs]
    omega

end

end Stillflow.Engine
