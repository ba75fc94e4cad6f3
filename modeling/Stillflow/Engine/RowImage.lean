import Stillflow.Engine.Verification

/-! What the steps of a verification plan do to one row. -/

namespace Stillflow.Engine

open Stillflow.Core Stillflow.Plan Lib.Fallible Lib.Mask List Option

theorem ofOption_eq_ok {α : Type} {x : Option α} {e : EngineError} {a : α}
    (h : ofOption x e = .ok a) : x = some a := by
  cases x with
  | none => cases h
  | some b =>
    cases h
    rfl

def FrameEdit.isFilter : FrameEdit → Bool
  | .filter _ => true
  | _ => false

variable {polars : Polars}

theorem mapM_keeps {edit : FrameEdit} (he : edit.isFilter = false) (rows : List Row) :
    rows.mapM (edit.keeps polars) = some (List.replicate rows.length true) := by
  have hkeeps : edit.keeps polars = fun _ => some true := by
    funext row
    cases edit with
    | filter predicate => cases he
    | _ => rfl
  rw [hkeeps]
  induction rows with
  | nil => rfl
  | cons row rows ih => rw [mapM_cons, ih]; rfl

theorem edit_rows {edit : FrameEdit} {frame frame' : Frame} (he : edit.isFilter = false)
    (h : frame.edit polars edit = some frame') :
    Forall₂ (fun row row' => edit.row polars row = some row') frame.rows frame'.rows := by
  unfold Frame.edit at h
  obtain ⟨names, -, h⟩ := bind_eq_some_iff.mp h
  obtain ⟨mask, hmask, h⟩ := bind_eq_some_iff.mp h
  obtain ⟨rows, hrows, h⟩ := bind_eq_some_iff.mp h
  cases h
  rw [mapM_keeps he] at hmask
  cases hmask
  rw [keep_replicate_true] at hrows
  exact forall₂_of_mapM_some hrows

theorem lowerRule_isFilter {zones : TimeZones} {schema : LogicalSchema} {rule : Rule}
    {edit : FrameEdit × EngineError} (hrule : rule.isProduct = true)
    (h : lowerRule zones schema rule = .ok edit) : edit.1.isFilter = false := by
  cases rule with
  | filterRows predicate => cases hrule
  | validate predicate severity message => cases hrule
  | deduplicate keys => cases hrule
  | deriveColumn id name dataType nullable expression =>
    obtain ⟨derived, hderived, h⟩ := of_bind h
    cases h
    unfold lowerDerived at hderived
    split at hderived
    · obtain ⟨dtype, -, hderived⟩ := of_bind hderived
      cases hderived
      rfl
    · obtain ⟨dtype, -, hderived⟩ := of_bind hderived
      cases hderived
      rfl
    · cases hderived
      rfl
    · obtain ⟨e, -, hderived⟩ := of_bind hderived
      obtain ⟨dtype, -, hderived⟩ := of_bind hderived
      cases hderived
      rfl
  | cast | parseTemporal =>
    obtain ⟨name, -, h⟩ := of_bind h
    obtain ⟨dtype, -, h⟩ := of_bind h
    cases h
    rfl
  | _ =>
    obtain ⟨name, -, h⟩ := of_bind h
    cases h
    rfl

/-- The image of a row under one rule, lowered against the given schema. -/
def RuleImage (polars : Polars) (schema : LogicalSchema) (rule : Rule) (row row' : Row) : Prop :=
  ∃ edit, lowerRule polars.zones schema rule = .ok edit ∧ edit.1.row polars row = some row'

/-- The image of a row under a group of rules, each lowered against the schema the rules before
it leave. -/
def RulesImage (polars : Polars) : LogicalSchema → List Rule → Row → Row → Prop
  | _, [], row, row' => row' = row
  | schema, rule :: rules, row, row' => ∃ mid schema', RuleImage polars schema rule row mid ∧
      loweredSchema schema rule = .ok schema' ∧ RulesImage polars schema' rules mid row'

theorem rules_rows {rules : List Rule} {working working' : Working}
    (hrules : ∀ rule ∈ rules, rule.isProduct = true)
    (h : rules.foldlM (applyRule polars) working = .ok working') :
    Forall₂ (RulesImage polars working.schema rules) working.frame.rows
      working'.frame.rows := by
  induction rules generalizing working with
  | nil =>
    cases h
    exact forall₂_same.mpr fun _ _ => rfl
  | cons rule rules ih =>
    rw [foldlM_cons] at h
    obtain ⟨mid, hmid, h⟩ := of_bind h
    have hrest := ih (fun r hr => hrules r (mem_cons_of_mem _ hr)) h
    obtain ⟨edit, hedit, hmid⟩ := of_bind hmid
    obtain ⟨frame, hframe, hmid⟩ := of_bind hmid
    obtain ⟨schema, hschema, hmid⟩ := of_bind hmid
    cases hmid
    have hedited := ofOption_eq_ok hframe
    have hfilter := lowerRule_isFilter (hrules rule (by simp)) hedit
    refine forall₂_trans ?_ (edit_rows hfilter hedited) hrest
    intro row mid row' hrow hrest
    exact ⟨mid, schema, ⟨edit, hedit, hrow⟩, hschema, hrest⟩

/-- The image of a row that passes a step. A compaction may take a column named `keep` with it,
since that is the name its mask is stored under. -/
def StepImage (polars : Polars) (schema : LogicalSchema) (step : VStep) (row row' : Row) : Prop :=
  match step with
  | .project columns => ∃ names, namesFor schema columns = .ok names ∧
      (names.mapM fun name => (row.lookup name).map (name, ·)) = some row'
  | .transformRules rules => RulesImage polars schema rules row row'
  | _ => row' = row ∨ row' = dropCell "keep" row

/-- The image of a row that passes a sequence of steps, each with the schema it is lowered
against. -/
inductive RowPath (polars : Polars) : List (VStep × LogicalSchema) → Row → Row → Prop where
  | nil (row : Row) : RowPath polars [] row row
  | snoc {steps : List (VStep × LogicalSchema)} {step : VStep} {schema : LogicalSchema}
    {row mid row' : Row} (hpath : RowPath polars steps row mid)
    (hstep : StepImage polars schema step mid row') :
    RowPath polars (steps ++ [(step, schema)]) row row'

theorem transformWindow_eq_ok {env : VerificationEnv} {window window' : Window}
    {step : CompiledStep} (h : transformWindow env window step = .ok window') :
    ∃ working, transformStep env.polars ⟨window.frame, window.schema, window.deferred⟩ step =
        .ok working ∧
      window' = { window with frame := working.frame, deferred := working.deferred } := by
  obtain ⟨result, hresult, h⟩ := of_bind h
  obtain ⟨working, hworking, hresult⟩ := of_bind hresult
  rw [foldlM_cons] at hworking
  obtain ⟨working', hstep, hworking⟩ := of_bind hworking
  cases hworking
  cases hresult
  cases h
  exact ⟨working, hstep, rfl⟩

theorem project_rows {env : VerificationEnv} {window : Window} {columns : List ColumnId}
    {working : Working} (h : transformStep env.polars
      ⟨window.frame, window.schema, window.deferred⟩ (.project columns) = .ok working) :
    Forall₂ (StepImage env.polars window.schema (.project columns)) window.frame.rows
      working.frame.rows := by
  obtain ⟨names, hnames, h⟩ := of_bind h
  obtain ⟨frame, hframe, h⟩ := of_bind h
  obtain ⟨schema, -, h⟩ := of_bind h
  cases h
  have hselect := ofOption_eq_ok hframe
  unfold Frame.selectColumns at hselect
  obtain ⟨_, -, hselect⟩ := bind_eq_some_iff.mp hselect
  obtain ⟨rows, hrows, hselect⟩ := bind_eq_some_iff.mp hselect
  cases hselect
  exact (forall₂_of_mapM_some hrows).imp fun _ _ hrow => ⟨names, hnames, hrow⟩

end Stillflow.Engine
