import Stillflow.Engine.PredictGrowth

/-! The prediction for a longer slice is no smaller. -/

namespace Stillflow.Engine

open Stillflow.Core Stillflow.Plan Lib Lib.Fallible List

variable {live live' w w' : Nat} {p p' : Probe} {s s' : PredictedSchema}

variable {arrays arrays' : List ArrowArray} {offset k k' : Nat}

section Related

variable (arrays arrays' : List ArrowArray)

/-- The same column over the same source array, with values at least as wide. -/
structure Widened (c c' : PredictedColumn) : Prop where
  id_eq : c'.id = c.id
  name_eq : c'.name = c.name
  dataType_eq : c'.dataType = c.dataType
  nullable_eq : c'.nullable = c.nullable
  origin_eq : c'.origin = c.origin
  width_le : c.maxValueBytes ≤ c'.maxValueBytes
  array_eq : ∀ ordinal, c.origin = .source ordinal → arrays'[ordinal]? = arrays[ordinal]?

/-- Column by column, the same schema with values at least as wide. -/
def Grows (s s' : PredictedSchema) : Prop :=
  List.Forall₂ (Widened arrays arrays') s.columns s'.columns

end Related

theorem column_lockstep (h : Grows arrays arrays' s s') (id : ColumnId) :
    Lockstep (Widened arrays arrays') (s.column id) (s'.column id) := by
  unfold PredictedSchema.column
  unfold Grows at h
  generalize s.columns = columns, s'.columns = columns' at h
  induction h with
  | nil => exact .error _
  | @cons c c' columns columns' hc _ ih =>
    rw [find?_cons, find?_cons, hc.id_eq]
    cases c.id == id with
    | true => exact .ok hc
    | false => exact ih

theorem update_lockstep (h : Grows arrays arrays' s s') (id : ColumnId)
    {edit edit' : PredictedColumn → PredictedColumn}
    (hedit : ∀ {c c'}, Widened arrays arrays' c c' → Widened arrays arrays' (edit c) (edit' c')) :
    Lockstep (Grows arrays arrays') (s.update id edit) (s'.update id edit') := by
  unfold PredictedSchema.update
  refine (column_lockstep h id).bind fun _ _ _ => .ok ?_
  unfold Grows at h ⊢
  generalize s.columns = columns, s'.columns = columns' at h
  induction h with
  | nil => exact .nil
  | @cons c c' columns columns' hc hrest ih =>
    unfold PredictedSchema.editFirst
    rw [hc.id_eq]
    split_ifs
    · exact .cons (hedit hc) hrest
    · exact .cons hc ih

theorem toLogicalSchema_eq (h : Grows arrays arrays' s s') :
    s'.toLogicalSchema = s.toLogicalSchema := by
  unfold PredictedSchema.toLogicalSchema
  have hfields : s'.columns.mapM (fun column =>
      (LogicalField.new column.id column.name column.dataType column.nullable).mapError fun _ =>
        Fault.error (.internal "invalid field in predicted schema")) =
      s.columns.mapM (fun column =>
        (LogicalField.new column.id column.name column.dataType column.nullable).mapError fun _ =>
          Fault.error (.internal "invalid field in predicted schema")) := by
    unfold Grows at h
    generalize s.columns = columns, s'.columns = columns' at h
    induction h with
    | nil => rfl
    | cons hc _ ih =>
      rw [mapM_cons, mapM_cons, ih, hc.id_eq, hc.name_eq, hc.dataType_eq, hc.nullable_eq]
  rw [hfields]

theorem Grows.filter (h : Grows arrays arrays' s s') (p : ColumnId → Bool) :
    Grows arrays arrays' ⟨s.columns.filter fun c => p c.id⟩ ⟨s'.columns.filter fun c => p c.id⟩ := by
  unfold Grows at h ⊢
  dsimp only
  generalize s.columns = columns, s'.columns = columns' at h
  induction h with
  | nil => exact .nil
  | @cons c c' columns columns' hc _ ih =>
    rw [filter_cons, filter_cons, hc.id_eq]
    split_ifs
    · exact .cons hc ih
    · exact ih

theorem forall₂_insertionSort {r : ColumnId → ColumnId → Prop} [DecidableRel r]
    {columns columns' : List PredictedColumn}
    (h : Forall₂ (Widened arrays arrays') columns columns') :
    Forall₂ (Widened arrays arrays') (columns.insertionSort fun a b => r a.id b.id)
      (columns'.insertionSort fun a b => r a.id b.id) := by
  have hinsert : ∀ {c c' : PredictedColumn} {l l' : List PredictedColumn},
      Widened arrays arrays' c c' → Forall₂ (Widened arrays arrays') l l' →
      Forall₂ (Widened arrays arrays') (l.orderedInsert (fun a b => r a.id b.id) c)
        (l'.orderedInsert (fun a b => r a.id b.id) c') := by
    intro c c' l l' hc hl
    induction hl with
    | nil => exact .cons hc .nil
    | @cons d d' l l' hd hrest ih =>
      rw [List.orderedInsert, List.orderedInsert, hc.id_eq, hd.id_eq]
      split_ifs
      · exact .cons hc (.cons hd hrest)
      · exact .cons hd ih
  induction h with
  | nil => exact .nil
  | cons hc _ ih => exact hinsert hc ih

theorem Grows.project (h : Grows arrays arrays' s s') (columns : List ColumnId) :
    Grows arrays arrays' (projectPredicted columns s) (projectPredicted columns s') :=
  forall₂_insertionSort (r := fun a b => columns.idxOf a ≤ columns.idxOf b)
    (h.filter fun id => columns.contains id)

theorem sliceValidityBytes_mono (array : Option ArrowArray) (hk : k ≤ k') :
    sliceValidityBytes array offset k ≤ sliceValidityBytes array offset k' := by
  unfold sliceValidityBytes
  have hbits : divCeil k 8 ≤ divCeil k' 8 := divCeil_mono hk
  cases array with
  | none => exact hbits
  | some array =>
    dsimp only
    split_ifs
    · exact le_rfl
    · exact hbits

theorem columnPhysicalBytes_lockstep (hk : k ≤ k') {c c' : PredictedColumn}
    (hc : Widened arrays arrays' c c') :
    Lockstep (· ≤ ·) (columnPhysicalBytes arrays offset k c)
      (columnPhysicalBytes arrays' offset k' c') := by
  unfold columnPhysicalBytes
  rw [hc.origin_eq, hc.dataType_eq]
  cases horigin : c.origin with
  | source ordinal =>
    have harray := hc.array_eq ordinal horigin
    cases fixedSlotBytes c.dataType with
    | some slot =>
      dsimp only
      rw [harray]
      have hfixed := fixedPhysicalBytes_mono hk slot
      have hvalid : sliceValidityBytes arrays[ordinal]? offset k ≤
          sliceValidityBytes arrays[ordinal]? offset k' := sliceValidityBytes_mono _ hk
      exact .ok (max_le_max hfixed hvalid)
    | none =>
      dsimp only
      rw [harray]
      cases arrays[ordinal]? with
      | none => exact .error _
      | some array => exact nestedOrVariableBytes_lockstep hk array offset c.dataType
  | derived =>
    cases fixedSlotBytes c.dataType with
    | some slot => exact .ok (fixedPhysicalBytes_mono hk slot)
    | none => exact .ok (utf8PhysicalBytes_mono hk (saturatingMul_mono hk hc.width_le))

theorem columnPhysicalSum_lockstep (hk : k ≤ k') (h : Grows arrays arrays' s s') :
    Lockstep (· ≤ ·) (columnPhysicalSum arrays offset k s)
      (columnPhysicalSum arrays' offset k' s') := by
  refine Lockstep.foldlM_forall₂ (fun a b c c' hab hc => ?_) h le_rfl
  exact (columnPhysicalBytes_lockstep hk hc).bind fun _ _ hbytes =>
    .ok (saturatingAdd_mono hab hbytes)

theorem refreshSourceWidths_lockstep (hk : k ≤ k') (s : PredictedSchema)
    (harrays : ∀ c ∈ s.columns, ∀ ordinal, c.origin = .source ordinal →
      arrays'[ordinal]? = arrays[ordinal]?) :
    Lockstep (Grows arrays arrays') (refreshSourceWidths arrays offset k s)
      (refreshSourceWidths arrays' offset k' s) := by
  have hcolumn : ∀ c d : PredictedColumn, (c = d ∧ c ∈ s.columns) →
      Lockstep (Widened arrays arrays') (refreshColumn arrays offset k c)
        (refreshColumn arrays' offset k' d) := by
    rintro c _ ⟨rfl, hmem⟩
    unfold refreshColumn
    cases horigin : c.origin with
    | derived => exact .ok ⟨rfl, rfl, rfl, rfl, rfl, le_rfl, harrays c hmem⟩
    | source ordinal =>
      dsimp only
      rw [harrays c hmem ordinal horigin]
      cases arrays[ordinal]? with
      | none => exact .error _
      | some array =>
        have hwidth := maxVariableWidth_mono array offset c.dataType hk
        exact .ok ⟨rfl, rfl, rfl, rfl, rfl, hwidth, horigin ▸ harrays c hmem⟩
  have hsame : Forall₂ (fun c d => c = d ∧ c ∈ s.columns) s.columns s.columns :=
    forall₂_same.mpr fun c hmem => ⟨rfl, hmem⟩
  exact (Lockstep.mapM_forall₂ hcolumn hsame).bind fun _ _ hcolumns => .ok hcolumns

mutual

theorem expressionMaxValueBytes_lockstep (h : Grows arrays arrays' s s') (dataType : LogicalType) :
    ∀ e : Expr, Lockstep (· ≤ ·) (expressionMaxValueBytes s dataType e)
      (expressionMaxValueBytes s' dataType e)
  | .literal (.utf8 value) => by
    unfold expressionMaxValueBytes
    split_ifs <;> exact .ok le_rfl
  | .column id => by
    unfold expressionMaxValueBytes
    split_ifs
    · exact .ok le_rfl
    · exact (column_lockstep h id).bind fun _ _ hc => .ok hc.width_le
  | .cast inner target => by
    unfold expressionMaxValueBytes
    split_ifs
    · exact .ok le_rfl
    · cases target with
      | utf8 =>
        dsimp only
        rw [toLogicalSchema_eq h]
        exact Lockstep.refl (fun n : Nat => le_refl n) _
      | _ => exact .ok le_rfl
  | .coalesce arms => by
    unfold expressionMaxValueBytes
    split_ifs
    · exact .ok le_rfl
    · exact armsMaxValueBytes_lockstep h dataType arms le_rfl
  | .literal .null | .literal (.boolean _) | .literal (.int64 _) | .literal (.uint64 _)
  | .literal (.float64 _) | .unary _ _ | .binary _ _ _ | .isNull _ _ | .concat _
  | .conditional _ _ _ | .substring _ _ _ => by
    unfold expressionMaxValueBytes
    split_ifs <;> exact .ok le_rfl

theorem armsMaxValueBytes_lockstep (h : Grows arrays arrays' s s') (dataType : LogicalType) :
    ∀ (arms : List Expr) {w w' : Nat}, w ≤ w' → Lockstep (· ≤ ·)
      (armsMaxValueBytes s dataType arms w) (armsMaxValueBytes s' dataType arms w')
  | [], w, w', hw => by
    rw [armsMaxValueBytes, armsMaxValueBytes]
    exact .ok hw
  | arm :: arms, w, w', hw => by
    rw [armsMaxValueBytes, armsMaxValueBytes]
    refine (expressionMaxValueBytes_lockstep h dataType arm).bind fun n n' hn => ?_
    exact armsMaxValueBytes_lockstep h dataType arms (max_le_max hw hn)

end

/-- A prediction with no less memory and a schema at least as wide. -/
structure Prediction.Le (arrays arrays' : List ArrowArray) (p p' : Prediction) : Prop where
  temporary_le : p.1 ≤ p'.1
  live_le : p.2.1 ≤ p'.2.1
  grows : Grows arrays arrays' p.2.2 p'.2.2

theorem temporaryBytes_mono (hk : k ≤ k') (dataType : LogicalType) (hw : w ≤ w') :
    temporaryBytes k dataType w ≤ temporaryBytes k' dataType w' := by
  unfold temporaryBytes
  cases fixedSlotBytes dataType with
  | some slot => exact fixedPhysicalBytes_mono hk slot
  | none => exact utf8PhysicalBytes_mono hk (saturatingMul_mono hk hw)

theorem fixedTemporaryBytes_mono (hk : k ≤ k') (dataType : LogicalType) :
    fixedTemporaryBytes k dataType ≤ fixedTemporaryBytes k' dataType := by
  unfold fixedTemporaryBytes
  cases fixedSlotBytes dataType with
  | some slot => exact fixedPhysicalBytes_mono hk slot
  | none => exact le_rfl

theorem castWidth_mono (source target : LogicalType) (hw : w ≤ w') :
    castWidth source target w ≤ castWidth source target w' := by
  unfold castWidth
  split
  · exact max_le_max hw le_rfl
  · exact max_le_max hw le_rfl
  · exact max_le_max hw le_rfl
  · exact hw
  · exact max_le_max hw le_rfl
  · exact le_rfl

theorem remeasured_lockstep (hk : k ≤ k') {temporary temporary' : Nat} (ht : temporary ≤ temporary')
    (h : Grows arrays arrays' s s') :
    Lockstep (Prediction.Le arrays arrays') (remeasured arrays offset k temporary s)
      (remeasured arrays' offset k' temporary' s') := by
  unfold remeasured
  exact (columnPhysicalSum_lockstep hk h).bind fun _ _ hlive => .ok ⟨ht, hlive, h⟩

theorem update_remeasured_lockstep (hk : k ≤ k') {temporary temporary' : Nat}
    (ht : temporary ≤ temporary') (h : Grows arrays arrays' s s') (id : ColumnId)
    {edit edit' : PredictedColumn → PredictedColumn}
    (hedit : ∀ {c c'}, Widened arrays arrays' c c' → Widened arrays arrays' (edit c) (edit' c')) :
    Lockstep (Prediction.Le arrays arrays')
      (do let next ← s.update id edit; remeasured arrays offset k temporary next)
      (do let next ← s'.update id edit'; remeasured arrays' offset k' temporary' next) :=
  (update_lockstep h id hedit).bind fun _ _ hnext => remeasured_lockstep hk ht hnext

theorem utf8Temporary_mono (hk : k ≤ k') (hw : w ≤ w') :
    utf8PhysicalBytes k (saturatingMul k w) ≤ utf8PhysicalBytes k' (saturatingMul k' w') :=
  utf8PhysicalBytes_mono hk (saturatingMul_mono hk hw)

theorem Widened.recast {c c' : PredictedColumn} (hc : Widened arrays arrays' c c')
    (dataType : LogicalType) (onFailure : CastFailurePolicy) {width : Nat → Nat}
    (hwidth : ∀ {w w'}, w ≤ w' → width w ≤ width w') :
    Widened arrays arrays' (recast dataType onFailure width c)
      (recast dataType onFailure width c') where
  id_eq := hc.id_eq
  name_eq := hc.name_eq
  dataType_eq := rfl
  nullable_eq := by
    unfold Engine.recast
    rw [hc.nullable_eq]
  origin_eq := rfl
  width_le := hwidth hc.width_le
  array_eq := nofun

section Rules

variable (hk : k ≤ k') (h : Grows arrays arrays' s s')
include hk h

theorem predictText_lockstep (column : ColumnId) (message : String) :
    Lockstep (Prediction.Le arrays arrays') (predictText arrays offset k s column message)
      (predictText arrays' offset k' s' column message) := by
  unfold predictText
  refine (column_lockstep h column).bind fun c c' hc => ?_
  rw [hc.dataType_eq]
  refine .bind_same _ fun _ => ?_
  refine update_remeasured_lockstep hk (utf8Temporary_mono hk hc.width_le) h column ?_
  intro d d' hd
  exact { hd with origin_eq := rfl, array_eq := nofun }

theorem replaceLiteral_lockstep (column : ColumnId) (source target : ScalarValue) :
    Lockstep (Prediction.Le arrays arrays')
      (predictRule arrays offset k s live (.replaceLiteral column source target))
      (predictRule arrays' offset k' s' live' (.replaceLiteral column source target)) := by
  unfold predictRule
  refine (column_lockstep h column).bind fun c c' hc => ?_
  rw [hc.dataType_eq]
  split
  · refine update_remeasured_lockstep hk (divCeil_mono hk) h column ?_
    intro d d' hd
    exact { hd with origin_eq := rfl, nullable_eq := rfl, array_eq := nofun }
  · have hwidth := fun n => max_le_max hc.width_le (le_refl n)
    refine update_remeasured_lockstep hk (utf8Temporary_mono hk (hwidth _)) h column ?_
    intro d d' hd
    exact { hd with
      origin_eq := rfl, width_le := max_le_max hd.width_le le_rfl, array_eq := nofun }
  · exact .error _
  · exact .error _
  · refine update_remeasured_lockstep hk (fixedTemporaryBytes_mono hk _) h column ?_
    intro d d' hd
    exact { hd with origin_eq := rfl, array_eq := nofun }

theorem fillNull_lockstep (column : ColumnId) (value : ScalarValue) :
    Lockstep (Prediction.Le arrays arrays')
      (predictRule arrays offset k s live (.fillNull column value))
      (predictRule arrays' offset k' s' live' (.fillNull column value)) := by
  unfold predictRule
  refine (column_lockstep h column).bind fun c c' hc => ?_
  rw [hc.dataType_eq]
  split
  · exact .error _
  · exact .error _
  · have hwidth := fun n => max_le_max hc.width_le (le_refl n)
    refine update_remeasured_lockstep hk (utf8Temporary_mono hk (hwidth _)) h column ?_
    intro d d' hd
    exact { hd with
      origin_eq := rfl, nullable_eq := rfl, width_le := max_le_max hd.width_le le_rfl
      array_eq := nofun }
  · refine update_remeasured_lockstep hk (fixedTemporaryBytes_mono hk _) h column ?_
    intro d d' hd
    exact { hd with origin_eq := rfl, nullable_eq := rfl, array_eq := nofun }

theorem deriveColumn_lockstep (hlive : live ≤ live') (id : ColumnId) (name : String)
    (dataType : LogicalType) (nullable : Bool) (expression : Expr) :
    Lockstep (Prediction.Le arrays arrays')
      (predictRule arrays offset k s live (.deriveColumn id name dataType nullable expression))
      (predictRule arrays' offset k' s' live'
        (.deriveColumn id name dataType nullable expression)) := by
  unfold predictRule
  dsimp only
  have hany : (s'.columns.any fun c => c.id == id || c.name == name) =
      s.columns.any fun c => c.id == id || c.name == name := by
    have hcolumns := h
    unfold Grows at hcolumns
    generalize s.columns = columns, s'.columns = columns' at hcolumns
    induction hcolumns with
    | nil => rfl
    | cons hc _ ih => rw [any_cons, any_cons, ih, hc.id_eq, hc.name_eq]
  rw [hany]
  refine .bind_same _ fun _ => ?_
  refine (expressionMaxValueBytes_lockstep h dataType expression).bind fun w w' hw => ?_
  have hcolumn : Widened arrays arrays' ⟨id, name, dataType, nullable, w, .derived⟩
      ⟨id, name, dataType, nullable, w', .derived⟩ := ⟨rfl, rfl, rfl, rfl, rfl, hw, nofun⟩
  refine (columnPhysicalBytes_lockstep hk hcolumn).bind fun t t' ht => .ok ⟨ht, ?_, ?_⟩
  · exact saturatingAdd_mono hlive ht
  · exact rel_append h (.cons hcolumn .nil)

theorem predictRule_lockstep (hlive : live ≤ live') (rule : Rule) :
    Lockstep (Prediction.Le arrays arrays') (predictRule arrays offset k s live rule)
      (predictRule arrays' offset k' s' live' rule) := by
  cases rule with
  | rename column target =>
    refine (update_lockstep h column ?_).bind fun _ _ hnext => .ok ⟨le_rfl, hlive, hnext⟩
    intro c c' hc
    exact { hc with name_eq := rfl }
  | dropColumn column => exact remeasured_lockstep hk le_rfl (h.filter fun id => id != column)
  | trim column | normalizeText column form => exact predictText_lockstep hk h column _
  | deriveColumn id name dataType nullable expression =>
    exact deriveColumn_lockstep hk h hlive id name dataType nullable expression
  | replaceLiteral column source target => exact replaceLiteral_lockstep hk h column source target
  | fillNull column value => exact fillNull_lockstep hk h column value
  | cast column dataType onFailure =>
    unfold predictRule
    refine (column_lockstep h column).bind fun c c' hc => ?_
    rw [hc.dataType_eq]
    refine .bind_same _ fun _ => ?_
    refine .bind_same _ fun _ => ?_
    have hwidth := castWidth_mono c.dataType dataType hc.width_le
    refine update_remeasured_lockstep hk (temporaryBytes_mono hk dataType hwidth) h column ?_
    intro d d' hd
    exact hd.recast dataType onFailure (castWidth_mono c.dataType dataType)
  | parseTemporal column dataType onFailure format =>
    unfold predictRule
    refine (column_lockstep h column).bind fun c c' hc => ?_
    rw [hc.dataType_eq]
    refine .bind_same _ fun _ => ?_
    refine update_remeasured_lockstep hk (temporaryBytes_mono hk dataType le_rfl) h column ?_
    intro d d' hd
    exact hd.recast dataType onFailure fun _ => le_rfl
  | filterRows predicate => exact .ok ⟨hlive, hlive, h⟩
  | validate => exact .error _
  | deduplicate => exact .error _

end Rules

structure Probe.Le (arrays arrays' : List ArrowArray) (p p' : Probe) : Prop where
  peak_le : p.peak ≤ p'.peak
  live_le : p.live ≤ p'.live
  grows : Grows arrays arrays' p.working p'.working

theorem Probe.Le.advance (hp : Probe.Le arrays arrays' p p') {q q' : Prediction}
    (hq : Prediction.Le arrays arrays' q q') :
    Probe.Le arrays arrays' (p.advance q) (p'.advance q') where
  peak_le := by
    have hduring := saturatingAdd_mono hp.live_le hq.temporary_le
    exact max_le_max hp.peak_le (saturatingAdd_mono hduring hq.live_le)
  live_le := hq.live_le
  grows := hq.grows

theorem probeRule_lockstep (hk : k ≤ k') (hp : Probe.Le arrays arrays' p p') (rule : Rule) :
    Lockstep (Probe.Le arrays arrays') (probeRule arrays offset k p rule)
      (probeRule arrays' offset k' p' rule) :=
  (predictRule_lockstep hk hp.grows hp.live_le rule).bind fun _ _ hq => .ok (hp.advance hq)

theorem predictStep_lockstep (hk : k ≤ k') (h : Grows arrays arrays' s s') (hlive : live ≤ live')
    (step : CompiledStep) :
    Lockstep (Prediction.Le arrays arrays') (predictStep arrays offset k s live step)
      (predictStep arrays' offset k' s' live' step) := by
  cases step with
  | project columns => exact remeasured_lockstep hk le_rfl (h.project columns)
  | filter => exact .ok ⟨hlive, hlive, h⟩
  | sort => exact .ok ⟨hlive, hlive, h⟩
  | rules => exact .error _

theorem probeStep_lockstep (hk : k ≤ k') (hp : Probe.Le arrays arrays' p p') (step : CompiledStep) :
    Lockstep (Probe.Le arrays arrays') (probeStep arrays offset k p step)
      (probeStep arrays' offset k' p' step) := by
  have hother : Lockstep (Probe.Le arrays arrays')
      (do let q ← predictStep arrays offset k p.working p.live step; return p.advance q)
      (do let q ← predictStep arrays' offset k' p'.working p'.live step; return p'.advance q) :=
    (predictStep_lockstep hk hp.grows hp.live_le step).bind fun _ _ hq => .ok (hp.advance hq)
  cases step with
  | rules rules => exact Lockstep.foldlM (fun _ _ rule hp => probeRule_lockstep hk hp rule) hp rules
  | project | filter | sort => exact hother

end Stillflow.Engine
