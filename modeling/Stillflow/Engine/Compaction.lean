import Stillflow.Engine.Ledger

/-!
Windows whose sidecar and counters have one entry per row: the outcomes of a predicate over such a
window, and its compaction by a mask.
-/

namespace Stillflow.Engine

open Stillflow.Core Stillflow.Plan Lib.Fallible Lib.Mask List Option

variable {env : VerificationEnv} {mask : List Bool} {window window' : Window}

/-- Sidecar and finding counters have one entry per row of the frame. -/
structure Window.Aligned (window : Window) : Prop where
  sidecar : window.sidecar.length = window.frame.height
  counts : window.findingsPerRow.length = window.frame.height

/-- A predicate without a column reference, for which the library yields a single value. -/
def columnFree (predicate : Expr) : Prop := countExprColumnRefs predicate = 0

instance (predicate : Expr) : Decidable (columnFree predicate) :=
  inferInstanceAs (Decidable (_ = 0))

def rowOutcome (env : VerificationEnv) (schema : LogicalSchema) (predicate : Expr) (row : Row) :
    Option Bool :=
  match lowerExpr env.polars.zones schema predicate with
  | .ok lowered => ((env.polars.value lowered row).bind asBoolean).join
  | .error _ => none

theorem value_of_columns_nil (polars : Polars) {e : PolarsExpr} (he : e.columns = [])
    (row : Row) : polars.value e row = polars.eval e [] := by
  rw [Polars.value, he]
  rfl

theorem evaluatePredicate_eq_ok {frame : Frame} {schema : LogicalSchema} {predicate : Expr}
    {outcomes : List (Option Bool)}
    (h : evaluatePredicate env frame schema predicate = .ok outcomes) :
    (columnFree predicate → ∃ outcome, outcomes = [outcome] ∧
      ∀ row, rowOutcome env schema predicate row = outcome) ∧
    (¬ columnFree predicate → outcomes = frame.rows.map (rowOutcome env schema predicate)) := by
  obtain ⟨lowered, hlowered, h⟩ := of_bind h
  obtain ⟨selected, hselected, h⟩ := of_bind h
  have hcolumns := lowerExpr_columns hlowered
  have hselect := ofOption_eq_ok hselected
  have houtcomes := ofOption_eq_ok h
  have houtcome : ∀ row, rowOutcome env schema predicate row =
      ((env.polars.value lowered row).bind asBoolean).join := by
    intro row
    rw [rowOutcome, hlowered]
  unfold Polars.select at hselect
  refine ⟨fun hfree => ?_, fun hfree => ?_⟩
  · have hnil : lowered.columns = [] := hcolumns.mpr hfree
    rw [if_pos hnil] at hselect
    obtain ⟨v, hv, rfl⟩ := map_eq_some_iff.mp hselect
    rw [mapM_cons, mapM_nil] at houtcomes
    obtain ⟨outcome, hoi, houtcomes⟩ := bind_eq_some_iff.mp houtcomes
    cases houtcomes
    refine ⟨outcome, rfl, fun row => ?_⟩
    rw [houtcome, value_of_columns_nil _ hnil, hv, bind_some, hoi, join_some]
  · have hne : lowered.columns ≠ [] := fun hnil => hfree (hcolumns.mp hnil)
    rw [if_neg hne] at hselect
    split_ifs at hselect
    have hvalues := forall₂_of_mapM_some hselect
    have hbooleans := forall₂_of_mapM_some houtcomes
    apply eq_map_of_forall₂
    refine forall₂_trans ?_ hvalues hbooleans
    intro row v outcome hv ho
    rw [houtcome, hv, bind_some, ho, join_some]

theorem evaluatePredicate_rows {frame : Frame} {schema : LogicalSchema} {predicate : Expr}
    {outcomes : List (Option Bool)} (hfits : columnFree predicate → frame.height = 1)
    (h : evaluatePredicate env frame schema predicate = .ok outcomes) :
    outcomes = frame.rows.map (rowOutcome env schema predicate) := by
  obtain ⟨hfree, hcolumns⟩ := evaluatePredicate_eq_ok h
  by_cases hcase : columnFree predicate
  · obtain ⟨outcome, rfl, houtcome⟩ := hfree hcase
    obtain ⟨row, hrow⟩ := length_eq_one_iff.mp (hfits hcase)
    rw [hrow, map_cons, map_nil, houtcome]
  · exact hcolumns hcase

theorem keepIndexed_eq_ok {α : Type} {list kept : List α} (h : keepIndexed mask list = .ok kept) :
    kept = keep mask list := by
  induction mask generalizing list kept with
  | nil =>
    cases h
    simp
  | cons flag mask ih =>
    cases flag with
    | true =>
      cases list with
      | nil => cases h
      | cons a list =>
        obtain ⟨rest, hrest, h⟩ := of_bind h
        cases h
        rw [keep_true, ih hrest]
    | false =>
      have hkept : kept = keep mask list.tail := ih h
      cases list <;> simpa using hkept

theorem keepIndexed_of_le {α : Type} {list : List α} (h : mask.length ≤ list.length) :
    keepIndexed mask list = .ok (keep mask list) := by
  induction mask generalizing list with
  | nil => simp [keepIndexed]
  | cons flag mask ih =>
    cases list with
    | nil => simp at h
    | cons a list =>
      have hrest : keepIndexed mask list = .ok (keep mask list) := ih (by simpa using h)
      cases flag with
      | true => rw [keepIndexed, hrest, ok_bind, keep_true, pure_eq_ok]
      | false => rw [keepIndexed, tail_cons, hrest, keep_false]

/-- A row before and after a compaction. -/
def Compacted (row row' : Row) : Prop := row' = row ∨ row' = dropCell "keep" row

theorem compacted_refl (rows : List Row) : Forall₂ Compacted rows rows :=
  forall₂_same.mpr fun _ _ => .inl rfl

theorem compacted_drop (rows : List Row) :
    Forall₂ Compacted rows (rows.map (dropCell "keep")) :=
  forall₂_map_right_iff.mpr (forall₂_same.mpr fun _ _ => .inr rfl)

theorem lookup_setCell (name : String) (value : AnyValue) (row : Row) :
    (setCell name value row).lookup name = some value := by
  induction row with
  | nil => simp [setCell]
  | cons cell row ih =>
    obtain ⟨other, old⟩ := cell
    by_cases hname : other = name
    · simp [setCell, hname]
    · have hother : (name == other) = false := by simpa using Ne.symm hname
      simpa [setCell, hname, lookup_cons, hother] using ih

theorem dropCell_setCell (name : String) (value : AnyValue) (row : Row) :
    dropCell name (setCell name value row) = dropCell name row := by
  induction row with
  | nil => simp [setCell, dropCell]
  | cons cell row ih =>
    unfold dropCell at ih ⊢
    by_cases hname : cell.1 = name
    · simp [setCell, hname]
    · simpa [setCell, hname] using ih

/-- Setting the column, filtering by it and dropping it leaves the flagged rows. -/
theorem dropMask_filterMask (frame : Frame) (column : List Bool) :
    (frame.withMask column).filterMask.dropMask =
      Frame.dropMask ⟨frame.names, keep column frame.rows⟩ := by
  have hnames : (if "keep" ∈ frame.names then frame.names else frame.names ++ ["keep"]).filter
      (· ≠ "keep") = frame.names.filter (· ≠ "keep") := by
    split_ifs <;> simp
  have hrows : ∀ rows : List Row, ((zipWith (fun flag row => setCell "keep" (.boolean flag) row)
      column rows).filter fun row => row.lookup "keep" == some (.boolean true)).map
        (dropCell "keep") = (keep column rows).map (dropCell "keep") := by
    induction column with
    | nil => simp
    | cons flag column ih =>
      intro rows
      cases rows with
      | nil => simp
      | cons row rows => cases flag <;> simp [lookup_setCell, dropCell_setCell, ih rows]
  unfold Frame.withMask Frame.filterMask Frame.dropMask
  rw [hnames, hrows]

theorem takeSurviving_of_length {frame : Frame} (hlen : mask.length = frame.height) :
    takeSurviving env frame mask = .ok (Frame.dropMask ⟨frame.names, keep mask frame.rows⟩) := by
  rw [← dropMask_filterMask]
  unfold takeSurviving Frame.maskColumn
  rw [if_pos hlen]
  rfl

/-- What a compaction by a mask does to an aligned window. -/
structure CompactsTo (mask : List Bool) (window window' : Window) : Prop where
  rows : List.Forall₂ Compacted (keep mask window.frame.rows) window'.frame.rows
  sidecar : window'.sidecar = keep mask window.sidecar
  counts : window'.findingsPerRow.length = window'.frame.height

theorem CompactsTo.refl (ha : window.Aligned) (hall : mask.all id = true)
    (hlen : mask.length = window.frame.height) :
    CompactsTo mask window window where
  rows := by
    rw [keep_of_all hall hlen]
    exact compacted_refl _
  sidecar := (keep_of_all hall (hlen.trans ha.sidecar.symm)).symm
  counts := ha.counts

theorem CompactsTo.aligned (ha : window.Aligned) (h : CompactsTo mask window window') :
    window'.Aligned where
  sidecar := by
    rw [h.sidecar, Frame.height, ← h.rows.length_eq]
    exact length_keep_eq mask ha.sidecar
  counts := h.counts

theorem compactAlive_eq_ok (ha : window.Aligned) (hlen : mask.length = window.frame.height)
    (h : compactAlive env window mask = .ok window') : CompactsTo mask window window' := by
  unfold compactAlive at h
  split_ifs at h with hall
  · cases h
    exact .refl ha hall hlen
  · obtain ⟨frame, hframe, h⟩ := of_bind h
    obtain ⟨sidecar, hsidecar, h⟩ := of_bind h
    obtain ⟨counts, hcounts, h⟩ := of_bind h
    cases h
    have hframe := checked_eq_ok hframe
    rw [takeSurviving_of_length hlen] at hframe
    cases hframe
    refine ⟨compacted_drop _, keepIndexed_eq_ok hsidecar, ?_⟩
    rw [keepIndexed_eq_ok hcounts]
    simpa [Frame.dropMask, Frame.height] using length_keep_eq mask ha.counts

theorem compactAlive_single (h : compactAlive env window [false] = .ok window') :
    CompactsTo (List.replicate window.frame.height false) window window' := by
  obtain ⟨frame, hframe, h⟩ := of_bind h
  obtain ⟨sidecar, hsidecar, h⟩ := of_bind h
  obtain ⟨counts, hcounts, h⟩ := of_bind h
  cases h
  have hsingle : ∀ {α : Type} (list : List α), keep [false] list = [] := by
    intro α list
    rw [show [false] = List.replicate 1 false from rfl, keep_replicate_false]
  have hempty : frame.rows = [] := by
    obtain ⟨column, hcolumn, hframe⟩ := of_bind (checked_eq_ok hframe)
    cases hframe
    have hcolumn := ofOption_eq_ok hcolumn
    unfold Frame.maskColumn at hcolumn
    rw [dropMask_filterMask, Frame.dropMask, map_eq_nil_iff]
    split_ifs at hcolumn with hone hmany hclear
    · cases hcolumn
      exact hsingle _
    · cases hcolumn
      exact keep_replicate_false _ _
    · cases hcolumn
      exact keep_nil_left window.frame.rows
  refine ⟨?_, ?_, ?_⟩
  · rw [keep_replicate_false, hempty]
    exact .nil
  · rw [keep_replicate_false, keepIndexed_eq_ok hsidecar, hsingle]
  · simp [keepIndexed_eq_ok hcounts, hsingle, Frame.height, hempty]

end Stillflow.Engine
