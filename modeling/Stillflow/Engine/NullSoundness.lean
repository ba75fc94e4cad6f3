import Stillflow.Engine.ExprEval
import Stillflow.Plan.Analysis

/-!
The analyzer's types and nullability hold of every evaluation: the induction is over the
expression, with one lemma for each operation of the lowered form.
-/

namespace Stillflow.Engine

open Stillflow.Core Stillflow.Plan Lib.Fallible List Option

variable {zones : TimeZones} {schema : LogicalSchema} {ops : ScalarOps} {row : Row}
  {dataType : LogicalType} {nullable : Bool} {e : PolarsExpr}

/-- Every field of the schema has a cell of its type, and NULL only if it is nullable. -/
def RowConforms (schema : LogicalSchema) (row : Row) : Prop :=
  ∀ field ∈ schema.fields, ∃ v, row.lookup field.name = some v ∧
    v.Fits field.dataType field.nullable

/-- Every value of the expression on the row is of the type, or NULL where that is allowed. -/
def Yielding (ops : ScalarOps) (row : Row) (e : PolarsExpr) (dataType : LogicalType)
    (nullable : Bool) : Prop :=
  ∀ v, ops.eval row e = some v → v.Fits dataType nullable

theorem AnyValue.Fits.nullable_of_null (h : AnyValue.null.Fits dataType nullable) :
    nullable = true := by
  rcases h with ⟨-, h⟩ | h
  · exact h
  · exact absurd rfl (ne_null_of_hasType h)

theorem scalarValue_fits (value : ScalarValue) :
    (scalarValue value).Fits (literalType value).1 (literalType value).2 := by
  cases value with
  | null => exact fits_null
  | _ => exact .inr trivial

theorem fits_boolean (b : Bool) (nullable : Bool) : (AnyValue.boolean b).Fits .boolean nullable :=
  .inr trivial

theorem fits_string (text : String) (nullable : Bool) :
    (AnyValue.string text).Fits .utf8 nullable :=
  .inr trivial

theorem ofTruth_fits {a : Option Bool} (h : a = none → nullable = true) :
    (ofTruth a).Fits .boolean nullable := by
  cases a with
  | none => exact .inl ⟨rfl, h rfl⟩
  | some b => exact fits_boolean b nullable

theorem asBoolean_eq_none {v : AnyValue} (h : asBoolean v = some none) : v = .null := by
  cases v <;> simp_all [asBoolean]

theorem kleeneAnd_eq_none {a b : Option Bool} (h : kleeneAnd a b = none) : a = none ∨ b = none := by
  rcases a with _ | _ | _ <;> rcases b with _ | _ | _ <;> simp_all [kleeneAnd]

theorem kleeneOr_eq_none {a b : Option Bool} (h : kleeneOr a b = none) : a = none ∨ b = none := by
  rcases a with _ | _ | _ <;> rcases b with _ | _ | _ <;> simp_all [kleeneOr]

theorem onText_fits {v w : AnyValue} (hv : v.Fits dataType nullable) {f : String → AnyValue}
    (hf : ∀ text, ∃ text', f text = .string text') (h : onText v f = some w) :
    w.Fits .utf8 nullable := by
  unfold onText unlessNull at h
  split_ifs at h with hnull
  · cases h
    subst hnull
    exact .inl ⟨rfl, hv.nullable_of_null⟩
  · obtain ⟨text, -, rfl⟩ := map_eq_some_iff.mp h
    obtain ⟨text', htext'⟩ := hf text
    rw [htext']
    exact fits_string text' nullable

theorem castValue_fits (hops : ops.Typed) {v w : AnyValue} {source target : LogicalType}
    {dtype : PolarsType} (hv : v.Fits source nullable)
    (hdtype : polarsDataType zones target = .ok dtype) (h : ops.castValue dtype true v = some w) :
    w.Fits target nullable := by
  unfold ScalarOps.castValue unlessNull at h
  by_cases hnull : v = .null
  · rw [if_pos hnull] at h
    cases h
    subst hnull
    exact .inl ⟨rfl, hv.nullable_of_null⟩
  · rw [if_neg hnull] at h
    exact .inr (hasType_of_dtype hdtype (hops.cast_dtype hnull h))

theorem castOperand_yielding (hops : ops.Typed) {own target : LogicalType} {e' : PolarsExpr}
    (h : castOperand zones own target e = .ok e') (he : Yielding ops row e own nullable) :
    Yielding ops row e' target nullable := by
  unfold castOperand at h
  split_ifs at h with hsame
  · cases h
    subst hsame
    exact he
  · obtain ⟨dtype, hdtype, h⟩ := of_bind h
    cases h
    intro w hw
    obtain ⟨v, hv, hcast⟩ := bind_eq_some_iff.mp hw
    exact castValue_fits hops (he v hv) hdtype hcast

theorem unifyOperands_yielding (hops : ops.Typed) {leftType rightType : LogicalType}
    {left right : PolarsExpr} {operands : PolarsExpr × PolarsExpr} {leftNull rightNull : Bool}
    (h : unifyOperands zones leftType rightType left right = .ok operands)
    (hleft : Yielding ops row left leftType leftNull)
    (hright : Yielding ops row right rightType rightNull) :
    ∃ leftType' rightType', Yielding ops row operands.1 leftType' leftNull ∧
      Yielding ops row operands.2 rightType' rightNull := by
  unfold unifyOperands at h
  split_ifs at h
  · cases h
    exact ⟨leftType, rightType, hleft, hright⟩
  · obtain ⟨lub, -, h⟩ := of_bind h
    obtain ⟨left', hleft', h⟩ := of_bind h
    obtain ⟨right', hright', h⟩ := of_bind h
    cases h
    exact ⟨lub, lub, castOperand_yielding hops hleft' hleft,
      castOperand_yielding hops hright' hright⟩

section Operands

variable {left right : PolarsExpr} {leftType rightType : LogicalType} {leftNull rightNull : Bool}
  (hleft : Yielding ops row left leftType leftNull)
  (hright : Yielding ops row right rightType rightNull)
include hleft hright

theorem unlessNulls_yielding
    {f : AnyValue → AnyValue → Option AnyValue}
    (heval : ops.eval row e = (ops.eval row left).bind fun v =>
      (ops.eval row right).bind fun w => unlessNulls v w f)
    (hf : ∀ {v w u}, f v w = some u → u.HasType dataType) :
    Yielding ops row e dataType (leftNull || rightNull) := by
  intro u hu
  rw [heval] at hu
  obtain ⟨v, hv, hu⟩ := bind_eq_some_iff.mp hu
  obtain ⟨w, hw, hu⟩ := bind_eq_some_iff.mp hu
  unfold unlessNulls at hu
  split_ifs at hu with hnull
  · cases hu
    rcases hnull with rfl | rfl
    · rw [(hleft _ hv).nullable_of_null]
      exact fits_null
    · rw [(hright _ hw).nullable_of_null, Bool.or_true]
      exact fits_null
  · exact .inr (hf hu)

theorem compare_yielding {operator : BinaryOperator} (hand : operator ≠ .and)
    (hor : operator ≠ .or) :
    Yielding ops row (.binary left operator right) .boolean (leftNull || rightNull) := by
  have heval : ops.eval row (.binary left operator right) = (ops.eval row left).bind fun v =>
      (ops.eval row right).bind fun w =>
        unlessNulls v w fun v w => (ops.compare operator v w).map .boolean := by
    cases operator <;> first | rfl | exact absurd rfl hand | exact absurd rfl hor
  refine unlessNulls_yielding hleft hright heval fun hsome => ?_
  obtain ⟨b, -, rfl⟩ := map_eq_some_iff.mp hsome
  trivial

theorem logical_yielding {operator : BinaryOperator} (h : operator = .and ∨ operator = .or) :
    Yielding ops row (.binary left operator right) .boolean (leftNull || rightNull) := by
  intro u hu
  obtain ⟨v, hv, hu⟩ := bind_eq_some_iff.mp hu
  obtain ⟨w, hw, hu⟩ := bind_eq_some_iff.mp hu
  have hnull : ∀ {a b : Option Bool}, asBoolean v = some a → asBoolean w = some b →
      a = none ∨ b = none → (leftNull || rightNull) = true := by
    rintro a b ha hb (rfl | rfl)
    · obtain rfl := asBoolean_eq_none ha
      rw [(hleft _ hv).nullable_of_null, Bool.true_or]
    · obtain rfl := asBoolean_eq_none hb
      rw [(hright _ hw).nullable_of_null, Bool.or_true]
  rcases h with rfl | rfl
  all_goals
    obtain ⟨a, ha, hu⟩ := bind_eq_some_iff.mp hu
    obtain ⟨b, hb, hu⟩ := bind_eq_some_iff.mp hu
    cases hu
    refine ofTruth_fits fun hnone => hnull ha hb ?_
  · exact kleeneAnd_eq_none hnone
  · exact kleeneOr_eq_none hnone

theorem contains_yielding :
    Yielding ops row (.containsLiteral left right) .boolean (leftNull || rightNull) := by
  refine unlessNulls_yielding hleft hright rfl fun hsome => ?_
  obtain ⟨text, -, hsome⟩ := bind_eq_some_iff.mp hsome
  obtain ⟨part, -, hsome⟩ := bind_eq_some_iff.mp hsome
  cases hsome
  trivial

theorem add_yielding : Yielding ops row (.add left right) .utf8 (leftNull || rightNull) := by
  refine unlessNulls_yielding hleft hright rfl fun hsome => ?_
  obtain ⟨text, -, hsome⟩ := bind_eq_some_iff.mp hsome
  obtain ⟨tail, -, hsome⟩ := bind_eq_some_iff.mp hsome
  cases hsome
  trivial

end Operands

/-- The operation the analyzer accepts gives what it says. -/
theorem lowerBinary_yielding {operator : BinaryOperator} {left right : PolarsExpr}
    {l r result : LogicalType × Bool} {leftType rightType : LogicalType}
    (hinfer : inferBinary operator l r = .ok result) (h : lowerBinary left operator right = .ok e)
    (hleft : Yielding ops row left leftType l.2) (hright : Yielding ops row right rightType r.2) :
    Yielding ops row e result.1 result.2 := by
  cases operator with
  | add | subtract | multiply | divide | modulo => cases hinfer
  | and =>
    obtain ⟨_, -, hinfer⟩ := of_bind hinfer
    cases hinfer
    cases h
    exact logical_yielding hleft hright (.inl rfl)
  | or =>
    obtain ⟨_, -, hinfer⟩ := of_bind hinfer
    cases hinfer
    cases h
    exact logical_yielding hleft hright (.inr rfl)
  | contains =>
    obtain ⟨_, -, hinfer⟩ := of_bind hinfer
    cases hinfer
    cases h
    intro v hv
    refine (contains_yielding hleft hright v hv).mono fun hnull => ?_
    rw [hnull, Bool.true_or]
  | equal | notEqual | lessThan | lessThanOrEqual | greaterThan | greaterThanOrEqual =>
    obtain ⟨_, -, hinfer⟩ := of_bind hinfer
    cases hinfer
    cases h
    exact compare_yielding hleft hright (by decide) (by decide)

theorem Yielding.asText {arm : LogicalType × Bool} (h : Yielding ops row e arm.1 arm.2)
    (htext : isTextOperand arm.1 = true) : Yielding ops row e .utf8 (arm.2 || arm.1 == .null) := by
  intro v hv
  have hfits := h v hv
  rcases Bool.or_eq_true_iff.mp htext with hutf8 | hnull
  · rw [beq_iff_eq] at hutf8
    rw [hutf8] at hfits
    exact hfits.mono fun hn => by rw [hn, Bool.true_or]
  · rw [hnull, Bool.or_true]
    rw [beq_iff_eq] at hnull
    rw [hnull] at hfits
    rw [hfits.null_of_nullType.1]
    exact fits_null

theorem branch_yielding {p t o : PolarsExpr} {thenType otherType : LogicalType × Bool}
    {result : LogicalType × Bool} (hbranch : branchType thenType.1 otherType.1 = .ok result)
    (ht : Yielding ops row t thenType.1 thenType.2)
    (ho : Yielding ops row o otherType.1 otherType.2) :
    Yielding ops row (.whenThen p t o) result.1 (thenType.2 || otherType.2 || result.2) := by
  intro u hu
  obtain ⟨_, -, hu⟩ := bind_eq_some_iff.mp hu
  obtain ⟨truth, -, hu⟩ := bind_eq_some_iff.mp hu
  obtain ⟨v, hv, hu⟩ := bind_eq_some_iff.mp hu
  obtain ⟨w, hw, hu⟩ := bind_eq_some_iff.mp hu
  have hthen := ht v hv
  have hother := ho w hw
  have hchoice : u = v ∨ u = w := by
    cases hu
    split_ifs
    · exact .inl rfl
    · exact .inr rfl
  unfold branchType at hbranch
  split_ifs at hbranch with hnull hnull' hsame
  · cases hbranch
    rw [hnull] at hthen
    rcases hchoice with rfl | rfl
    · rw [hthen.null_of_nullType.1, Bool.or_true]
      exact fits_null
    · exact hother.mono fun _ => Bool.or_true _
  · cases hbranch
    rw [hnull'] at hother
    rcases hchoice with rfl | rfl
    · exact hthen.mono fun _ => Bool.or_true _
    · rw [hother.null_of_nullType.1, Bool.or_true]
      exact fits_null
  · cases hbranch
    rw [← hsame] at hother
    rcases hchoice with rfl | rfl
    · exact hthen.mono fun h => by rw [h, Bool.true_or, Bool.true_or]
    · exact hother.mono fun h => by rw [h, Bool.or_true, Bool.true_or]

theorem coalesceExprs_yielding {arms : List PolarsExpr} {flags : List Bool}
    (h : Forall₂ (fun arm flag => Yielding ops row arm dataType flag) arms flags)
    (hne : arms ≠ []) : Yielding ops row (coalesceExprs arms) dataType (flags.all id) := by
  induction h with
  | nil => exact absurd rfl hne
  | @cons head flag rest flags hhead hrest ih =>
    cases hrest with
    | nil =>
      rw [coalesceExprs, all_cons, all_nil, Bool.and_true]
      exact hhead
    | @cons next flag' rest flags' hnext hrest =>
      have htail := ih (cons_ne_nil _ _)
      rw [coalesceExprs, all_cons]
      intro u hu
      obtain ⟨test, htest, hu⟩ := bind_eq_some_iff.mp hu
      obtain ⟨truth, htruth, hu⟩ := bind_eq_some_iff.mp hu
      obtain ⟨v, hv, hu⟩ := bind_eq_some_iff.mp hu
      obtain ⟨w, hw, hu⟩ := bind_eq_some_iff.mp hu
      have htest' : test = .boolean (v != .null) := by
        obtain ⟨v', hv', htest⟩ := bind_eq_some_iff.mp htest
        cases htest
        rw [some.inj (hv'.symm.trans hv)]
      subst htest'
      cases htruth
      cases hu
      by_cases hnull : v = .null
      · subst hnull
        rw [if_neg (by decide)]
        exact (htail w hw).mono fun h => by
          rw [h, Bool.and_true]
          exact (hhead _ hv).nullable_of_null
      · rw [if_pos (by simpa using hnull)]
        rcases hhead v hv with ⟨hv', -⟩ | htype
        · exact absurd hv' hnull
        · exact .inr htype

theorem typeCheckExpr_eq_ok {e : Expr} (h : typeCheckExpr e schema = .ok dataType)
    {r : LogicalType × Bool} (hr : inferExpr schema.field e = .ok r) : r.1 = dataType := by
  obtain ⟨analysis, hanalysis, h⟩ := of_bind h
  cases h
  have hanalysis := mapError_eq_ok.mp hanalysis
  obtain ⟨_, -, hanalysis⟩ := of_bind hanalysis
  obtain ⟨_, -, hanalysis⟩ := of_bind hanalysis
  rw [hr] at hanalysis
  cases hanalysis
  rfl

theorem column_yielding (hrow : RowConforms schema row) {id : ColumnId} {field : LogicalField}
    (hfield : schema.field id = some field) :
    Yielding ops row (.col field.name) field.dataType field.nullable := by
  intro v hv
  obtain ⟨w, hw, hfits⟩ := hrow field (mem_of_find?_eq_some hfield)
  have hsame : w = v := some.inj (hw.symm.trans hv)
  rwa [hsame] at hfits

mutual

theorem lowerExpr_yielding (hops : ops.Typed) (hrow : RowConforms schema row) :
    ∀ {e : Expr} {r : LogicalType × Bool} {lowered : PolarsExpr},
      inferExpr schema.field e = .ok r → lowerExpr zones schema e = .ok lowered →
      Yielding ops row lowered r.1 r.2
  | .column id, r, lowered, hr, h => by
    obtain ⟨field, hfield, hr⟩ := of_bind hr
    obtain ⟨_, -, hr⟩ := of_bind hr
    cases hr
    have hfield := resolver_require_eq_ok.mp hfield
    rw [lowerExpr] at h
    obtain ⟨name, hname, h⟩ := of_bind h
    cases h
    unfold fieldName at hname
    rw [hfield] at hname
    cases hname
    exact column_yielding hrow hfield
  | .literal value, r, lowered, hr, h => by
    cases hr
    rw [lowerExpr] at h
    cases h
    intro v hv
    cases hv
    exact scalarValue_fits value
  | .unary .not e, r, lowered, hr, h => by
    obtain ⟨inner, hinner, hr⟩ := of_bind hr
    obtain ⟨_, -, hr⟩ := of_bind hr
    cases hr
    rw [lowerExpr] at h
    obtain ⟨e', he', h⟩ := of_bind h
    cases h
    have he := lowerExpr_yielding hops hrow hinner he'
    intro u hu
    obtain ⟨v, hv, hu⟩ := bind_eq_some_iff.mp hu
    obtain ⟨a, ha, hu⟩ := bind_eq_some_iff.mp hu
    cases hu
    apply ofTruth_fits
    intro hnone
    obtain rfl : a = none := map_eq_none_iff.mp hnone
    obtain rfl := asBoolean_eq_none ha
    exact (he _ hv).nullable_of_null
  | .unary .negate e, r, lowered, hr, h => by cases hr
  | .isNull e negated, r, lowered, hr, h => by
    obtain ⟨inner, -, hr⟩ := of_bind hr
    cases hr
    rw [lowerExpr] at h
    obtain ⟨e', he', h⟩ := of_bind h
    cases h
    intro u hu
    cases negated with
    | false | true =>
      obtain ⟨v, -, hu⟩ := bind_eq_some_iff.mp hu
      cases hu
      exact fits_boolean _ _
  | .cast e dataType, r, lowered, hr, h => by
    obtain ⟨inner, hinner, hr⟩ := of_bind hr
    obtain ⟨_, -, hr⟩ := of_bind hr
    obtain ⟨_, -, hr⟩ := of_bind hr
    cases hr
    rw [lowerExpr] at h
    obtain ⟨e', he', h⟩ := of_bind h
    obtain ⟨dtype, hdtype, h⟩ := of_bind h
    cases h
    have he := lowerExpr_yielding hops hrow hinner he'
    intro u hu
    obtain ⟨v, hv, hu⟩ := bind_eq_some_iff.mp hu
    exact castValue_fits hops (he v hv) hdtype hu
  | .binary left operator right, r, lowered, hr, h => by
    obtain ⟨l, hl, hr⟩ := of_bind hr
    obtain ⟨r', hr', hr⟩ := of_bind hr
    rw [lowerExpr] at h
    obtain ⟨leftType, hleftType, h⟩ := of_bind h
    obtain ⟨rightType, hrightType, h⟩ := of_bind h
    obtain ⟨left', hleft', h⟩ := of_bind h
    obtain ⟨right', hright', h⟩ := of_bind h
    obtain ⟨operands, hoperands, h⟩ := of_bind h
    have hleft := lowerExpr_yielding hops hrow hl hleft'
    have hright := lowerExpr_yielding hops hrow hr' hright'
    rw [typeCheckExpr_eq_ok hleftType hl] at hleft
    rw [typeCheckExpr_eq_ok hrightType hr'] at hright
    obtain ⟨lt, rt, hlt, hrt⟩ := unifyOperands_yielding hops hoperands hleft hright
    exact lowerBinary_yielding hr h hlt hrt
  | .substring e start length, r, lowered, hr, h => by
    obtain ⟨inner, hinner, hr⟩ := of_bind hr
    obtain ⟨_, htext, hr⟩ := of_bind hr
    cases hr
    rw [lowerExpr] at h
    obtain ⟨e', he', h⟩ := of_bind h
    cases h
    have he := (lowerExpr_yielding hops hrow hinner he').asText (require_eq_ok.mp htext)
    intro u hu
    obtain ⟨v, hv, hu⟩ := bind_eq_some_iff.mp hu
    exact onText_fits (he v hv) (fun text => ⟨_, rfl⟩) hu
  | .conditional predicate thenBranch otherwise, r, lowered, hr, h => by
    obtain ⟨p, -, hr⟩ := of_bind hr
    obtain ⟨_, -, hr⟩ := of_bind hr
    obtain ⟨t, ht, hr⟩ := of_bind hr
    obtain ⟨o, ho, hr⟩ := of_bind hr
    obtain ⟨branch, hbranch, hr⟩ := of_bind hr
    cases hr
    rw [lowerExpr] at h
    obtain ⟨p', -, h⟩ := of_bind h
    obtain ⟨t', ht', h⟩ := of_bind h
    obtain ⟨o', ho', h⟩ := of_bind h
    cases h
    exact branch_yielding hbranch (lowerExpr_yielding hops hrow ht ht')
      (lowerExpr_yielding hops hrow ho ho')
  | .concat [], r, lowered, hr, h => by
    rw [lowerExpr] at h
    cases h
  | .concat (first :: rest), r, lowered, hr, h => by
    obtain ⟨_, -, hr⟩ := of_bind hr
    obtain ⟨nullable, hnullable, hr⟩ := of_bind hr
    cases hr
    obtain ⟨arm, harm, hnullable⟩ := of_bind hnullable
    obtain ⟨_, htext, hnullable⟩ := of_bind hnullable
    rw [lowerExpr] at h
    obtain ⟨first', hfirst', h⟩ := of_bind h
    have hfirst := (lowerExpr_yielding hops hrow harm hfirst').asText (require_eq_ok.mp htext)
    rw [Bool.false_or] at hnullable
    exact lowerConcat_yielding hops hrow hnullable h hfirst
  | .coalesce [], r, lowered, hr, h => by
    obtain ⟨arms, harms, hr⟩ := of_bind hr
    cases harms
    cases hr
  | .coalesce (first :: rest), r, lowered, hr, h => by
    have hinfer := hr
    obtain ⟨seen, hseen, hr⟩ := of_bind hr
    rw [lowerExpr] at h
    obtain ⟨target, htarget, h⟩ := of_bind h
    obtain ⟨_, -, h⟩ := of_bind h
    obtain ⟨arms, harms, h⟩ := of_bind h
    cases h
    have htype := typeCheckExpr_eq_ok htarget hinfer
    obtain ⟨flags, hflags, hnullable, hlength⟩ := lowerArms_yielding hops hrow hseen harms
    have hne : arms ≠ [] := by
      intro hnil
      rw [hnil] at hlength
      cases hlength
    have hall := coalesceExprs_yielding hflags hne
    rw [Bool.true_and] at hnullable
    rw [← hnullable, ← htype] at hall
    obtain ⟨joined, nullable⟩ := seen
    cases joined with
    | none => cases hr
    | some joined =>
      obtain ⟨_, -, hr⟩ := of_bind hr
      cases hr
      exact hall

theorem lowerConcat_yielding (hops : ops.Typed) (hrow : RowConforms schema row) :
    ∀ {es : List Expr} {concatenated lowered : PolarsExpr} {nullable nullable' : Bool},
      inferConcatArms schema.field es nullable = .ok nullable' →
      lowerConcat zones schema concatenated es = .ok lowered →
      Yielding ops row concatenated .utf8 nullable → Yielding ops row lowered .utf8 nullable'
  | [], concatenated, lowered, nullable, nullable', hn, h, hacc => by
    rw [inferConcatArms] at hn
    cases hn
    rw [lowerConcat] at h
    cases h
    exact hacc
  | e :: es, concatenated, lowered, nullable, nullable', hn, h, hacc => by
    rw [inferConcatArms] at hn
    obtain ⟨arm, harm, hn⟩ := of_bind hn
    obtain ⟨_, htext, hn⟩ := of_bind hn
    rw [lowerConcat] at h
    obtain ⟨next, hnext, h⟩ := of_bind h
    have he := (lowerExpr_yielding hops hrow harm hnext).asText (require_eq_ok.mp htext)
    rw [Bool.or_assoc] at hn
    exact lowerConcat_yielding hops hrow hn h (add_yielding hacc he)

theorem lowerArms_yielding (hops : ops.Typed) (hrow : RowConforms schema row) {target : LogicalType} :
    ∀ {es : List Expr} {seen seen' : Option LogicalType × Bool} {arms : List PolarsExpr},
      inferCoalesceArms schema.field es seen = .ok seen' →
      lowerArms zones schema target es = .ok arms →
      ∃ flags, Forall₂ (fun arm flag => Yielding ops row arm target flag) arms flags ∧
        seen'.2 = (seen.2 && flags.all id) ∧ arms.length = es.length
  | [], seen, seen', arms, hs, h => by
    rw [inferCoalesceArms] at hs
    cases hs
    rw [lowerArms] at h
    cases h
    exact ⟨[], .nil, by simp, rfl⟩
  | e :: es, (joined, nullable), seen', arms, hs, h => by
    rw [inferCoalesceArms] at hs
    obtain ⟨arm, harm, hs⟩ := of_bind hs
    obtain ⟨_, -, hs⟩ := of_bind hs
    rw [lowerArms] at h
    obtain ⟨armType, harmType, h⟩ := of_bind h
    obtain ⟨e', he', h⟩ := of_bind h
    obtain ⟨cast, hcast, h⟩ := of_bind h
    obtain ⟨rest, hrest, h⟩ := of_bind h
    cases h
    have he := lowerExpr_yielding hops hrow harm he'
    rw [typeCheckExpr_eq_ok harmType harm] at he
    have hhead := castOperand_yielding hops hcast he
    obtain ⟨flags, hflags, hnullable, hlength⟩ := lowerArms_yielding hops hrow hs hrest
    refine ⟨arm.2 :: flags, .cons hhead hflags, ?_, by rw [length_cons, hlength]; rfl⟩
    rw [hnullable, all_cons, id_eq, Bool.and_assoc]

end

/-- Nullability inference is sound: an expression analyzed as not nullable never evaluates to NULL
on a row that conforms to the schema, and what it evaluates to is of the inferred type. -/
theorem analyzeExpr_sound (hops : ops.Typed) (hrow : RowConforms schema row) {e : Expr}
    {dataType : LogicalType} {nullable : Bool}
    (h : analyzeExpr e schema.field = .ok (dataType, nullable)) {lowered : PolarsExpr}
    (hlowered : lowerExpr zones schema e = .ok lowered) {v : AnyValue}
    (hv : ops.eval row lowered = some v) :
    (nullable = false → v ≠ .null) ∧ (v ≠ .null → v.HasType dataType) := by
  obtain ⟨_, -, h⟩ := of_bind h
  obtain ⟨_, -, h⟩ := of_bind h
  have hfits := lowerExpr_yielding hops hrow h hlowered v hv
  constructor
  · rintro rfl rfl
    exact Bool.false_ne_true hfits.nullable_of_null
  · intro hne
    rcases hfits with ⟨hnull, -⟩ | htype
    · exact absurd hnull hne
    · exact htype

/-- Casts only between equal types, and no comparison. -/
def bareOps : ScalarOps where
  cast dtype v :=
    match dtype, v with
    | .int64, .int64 n => some (.int64 n)
    | _, _ => none
  compare _ _ _ := none
  containsLiteral _ _ := false
  slice text _ _ := text
  stripChars text := text
  normalizeText _ text := text
  strptime _ _ _ := none

theorem bareOps_typed : bareOps.Typed where
  cast_dtype {dtype v w} _ h := by
    unfold bareOps at h
    dsimp only at h
    split at h
    · cases h
      trivial
    · cases h
  strptime_dtype h := by cases h

def countSchema : LogicalSchema := ⟨1, [⟨7, "count", .int64, true, ∅⟩], ∅⟩

def countOrZero : Expr := .coalesce [.column 7, .literal (.int64 0)]

theorem countOrZero_not_null :
    ∃ lowered, analyzeExpr countOrZero countSchema.field = .ok (.int64, false) ∧
      lowerExpr (fun _ => true) countSchema countOrZero = .ok lowered ∧
      bareOps.eval [("count", .null)] lowered = some (.int64 0) ∧
      AnyValue.int64 0 ≠ .null ∧ (AnyValue.int64 0).HasType .int64 := by
  have hrow : RowConforms countSchema [("count", .null)] := by
    intro field hfield
    obtain rfl := mem_singleton.mp hfield
    exact ⟨.null, rfl, fits_null⟩
  have hanalyze : analyzeExpr countOrZero countSchema.field = .ok (.int64, false) := by
    decide +kernel
  have hok : (lowerExpr (fun _ => true) countSchema countOrZero).isOk = true := by decide +kernel
  obtain ⟨lowered, hlowered⟩ := exists_of_isOk hok
  have hvalue : bareOps.eval [("count", .null)] lowered = some (.int64 0) := by
    cases hlowered
    rfl
  have hsound := analyzeExpr_sound bareOps_typed hrow hanalyze hlowered hvalue
  exact ⟨lowered, hanalyze, hlowered, hvalue, hsound.1 rfl, hsound.2 (hsound.1 rfl)⟩

end Stillflow.Engine
