import Stillflow.Engine.Profile
import Stillflow.Lib.HalfEven

/-!
The quality score of a profile: null, duplicate and truncation penalties over one denominator,
rounded once.
-/

namespace Stillflow.Engine

open Stillflow.Core Stillflow.Plan Lib Lib.Fallible List Option

def u128Max : Nat := 2 ^ 128 - 1

def u128SaturatingAdd (a b : Nat) : Nat := min (a + b) u128Max

def u128SaturatingMul (a b : Nat) : Nat := min (a * b) u128Max

def qualityScoreVersion : Nat := 1

structure QualityScore where
  value : Option Nat
  version : Nat
  completeness : Bool
  missingComponents : List String
  reason : Option String
  deriving DecidableEq

namespace DatasetProfile

variable (profile : DatasetProfile)

def contributing : List ColumnProfile := profile.columns.filter fun column =>
  column.status = .profiled

def totalNull : Nat := (profile.contributing.map ColumnProfile.nullCount).sum

def missingComponents : List String :=
  let null := if profile.contributing.length = 0 then ["null"] else []
  let duplicate := if profile.dataset.duplicateRowCount = none then ["duplicate"] else []
  (null ++ duplicate).insertionSort (· ≤ ·)

/-- `S * C` when a column contributes, else `S`. -/
def scoreDenominator : Nat :=
  if 0 < profile.contributing.length then
    u128SaturatingMul profile.dataset.rowCountScanned profile.contributing.length
  else profile.dataset.rowCountScanned

def nullPenalty : Nat :=
  if 0 < profile.contributing.length then u128SaturatingAdd 0 (u128SaturatingMul 40 profile.totalNull)
  else 0

def duplicatePenalty : Nat :=
  match profile.dataset.duplicateRowCount with
  | none => profile.nullPenalty
  | some duplicates =>
    let term :=
      if 0 < profile.contributing.length then
        u128SaturatingMul (u128SaturatingMul 30 duplicates) profile.contributing.length
      else u128SaturatingMul 30 duplicates
    u128SaturatingAdd profile.nullPenalty term

/-- The penalties so far, with the one for truncation. -/
def penaltyNumerator : Nat :=
  if profile.dataset.truncated then
    u128SaturatingAdd profile.duplicatePenalty (u128SaturatingMul 10 profile.scoreDenominator)
  else profile.duplicatePenalty

end DatasetProfile

def roundHalfEven (numerator denominator : Nat) : Nat :=
  let quotient := numerator / denominator
  let doubled := u128SaturatingMul (numerator % denominator) 2
  if doubled > denominator ∨ (doubled = denominator ∧ quotient % 2 = 1) then quotient + 1
  else quotient

def qualityScore (profile : DatasetProfile) : QualityScore :=
  if profile.dataset.rowCountScanned = 0 then
    { value := none, version := qualityScoreVersion, completeness := false
      missingComponents := [], reason := some "no_rows" }
  else if profile.contributing.length = 0 ∧ profile.dataset.duplicateRowCount = none ∧
      profile.dataset.truncated = false then
    { value := none, version := qualityScoreVersion, completeness := false
      missingComponents := profile.missingComponents, reason := some "missing_penalty_evidence" }
  else
    let numerator :=
      u128SaturatingMul 100 profile.scoreDenominator - profile.penaltyNumerator
    { value := some (min (roundHalfEven numerator profile.scoreDenominator) 100)
      version := qualityScoreVersion
      completeness := profile.missingComponents.isEmpty
      missingComponents := profile.missingComponents
      reason := none }

/-- What the scan keeps between its counters. -/
structure ProfileRun.Counted (run : ProfileRun) (width : Nat) : Prop where
  columns : run.columns.length ≤ width
  rows : run.rowCountScanned ≤ profileMaxRows
  nulls : ∀ column ∈ run.columns, column.nullCount ≤ run.rowCountScanned
  keys : run.fullRow.keys.length ≤ run.rowCountScanned

theorem ColumnRuntime.observeCell_nullCount {column next : ColumnRuntime} {cell : AnyValue}
    (h : column.observeCell cell = .ok next) : next.nullCount = column.nullCount := by
  unfold ColumnRuntime.observeCell at h
  split at h
  · cases h
    rfl
  · split at h
    · cases h
      rfl
    · obtain ⟨_, -, hnext⟩ := of_bind h
      cases hnext
      rfl

theorem ColumnRuntime.closeBatch_nullCount (column : ColumnRuntime) :
    column.closeBatch.nullCount = column.nullCount := by
  unfold ColumnRuntime.closeBatch
  split <;> rfl

theorem ColumnRuntime.observe_nullCount_le {column next : ColumnRuntime} {resolved : ResolvedColumn}
    {rows : List (List AnyValue)} (h : column.observe resolved rows = .ok next) :
    next.nullCount ≤ column.nullCount + rows.length := by
  obtain ⟨observed, hfold, hnext⟩ := of_bind h
  cases hnext
  have hkept := foldlM_invariant
    (fun c => c.nullCount = column.nullCount +
      (rows.map resolved.cell).countP (isNullAt resolved.logical))
    (fun _ hc hstep => (observeCell_nullCount hstep).trans hc) rfl hfold
  have hcount := countP_le_length (p := isNullAt resolved.logical)
    (l := rows.map resolved.cell)
  rw [length_map] at hcount
  rw [closeBatch_nullCount, hkept]
  omega

namespace FullRowState

theorem length_insert_le (state : FullRowState) (key : KeyBytes) :
    (state.insert key).keys.length ≤ state.keys.length + 1 := by
  unfold insert
  split
  · omega
  · dsimp only
    split <;> simp [overflowed]

theorem observeRow_length_le {columns : List ResolvedColumn} {state next : FullRowState}
    {row : List AnyValue} (h : observeRow columns state row = .ok next) :
    next.keys.length ≤ state.keys.length + 1 := by
  unfold observeRow at h
  split at h
  · cases h
    omega
  · obtain ⟨key, -, hnext⟩ := of_bind h
    cases key with
    | none =>
      cases hnext
      simp [overflowed]
    | some key =>
      cases hnext
      exact length_insert_le state key

theorem observe_length_le {columns : List ResolvedColumn} {state next : FullRowState}
    {rows : List (List AnyValue)} (h : observe columns state rows = .ok next) :
    next.keys.length ≤ state.keys.length + rows.length := by
  induction rows generalizing state with
  | nil =>
    cases h
    simp
  | cons row rows ih =>
    rw [observe, foldlM_cons] at h
    obtain ⟨mid, hmid, hrest⟩ := of_bind h
    have hrow := observeRow_length_le hmid
    have hlater := ih hrest
    rw [length_cons]
    omega

end FullRowState

namespace ProfileRun

theorem length_view_le (run : ProfileRun) (envelope : ProfileEnvelope)
    (h : run.rowCountScanned ≤ profileMaxRows) :
    run.rowCountScanned + (run.view envelope).length ≤ profileMaxRows := by
  unfold view
  split
  · rw [length_take]
    omega
  · omega

theorem Counted.admitEnvelope {run next : ProfileRun} {width : Nat} {resolved : List ResolvedColumn}
    {envelope : ProfileEnvelope} (hrun : run.Counted width)
    (h : run.admitEnvelope resolved envelope = .ok next) : next.Counted width := by
  obtain ⟨columns, hcolumns, h⟩ := of_bind h
  obtain ⟨fullRow, hfull, hnext⟩ := of_bind h
  cases hnext
  constructor
  · have hlength := length_of_mapM_ok hcolumns
    have hzip : (run.columns.zip resolved).length = min run.columns.length resolved.length :=
      length_zip
    have hwidth := hrun.columns
    dsimp only
    omega
  · exact length_view_le run envelope hrun.rows
  · intro column hcolumn
    have ⟨pair, hpair, hobserve⟩ :=
      exists_of_forall₂_right (forall₂_of_mapM_ok hcolumns) hcolumn
    have hbefore := hrun.nulls pair.1 (of_mem_zip hpair).1
    have hafter := ColumnRuntime.observe_nullCount_le hobserve
    dsimp only
    omega
  · have hbefore := hrun.keys
    have hafter := FullRowState.observe_length_le hfull
    dsimp only
    omega

theorem Counted.scan {schema : LogicalSchema} {resolved : List ResolvedColumn}
    {stream : List ProfileEnvelope} {run last : ProfileRun} {width : Nat}
    (hrun : run.Counted width) (h : run.scan schema resolved stream = .ok last) :
    last.Counted width := by
  induction stream generalizing run with
  | nil =>
    cases h
    exact hrun
  | cons envelope rest ih =>
    unfold ProfileRun.scan at h
    split at h
    · cases h
      exact ⟨hrun.columns, hrun.rows, hrun.nulls, hrun.keys⟩
    · split at h
      · cases h
      · obtain ⟨next, hnext, h⟩ := of_bind h
        have hcounted := hrun.admitEnvelope hnext
        split at h
        · cases h
          exact hcounted
        · exact ih hcounted h

theorem initial_counted (resolved : List ResolvedColumn) :
    (initial resolved).Counted resolved.length := by
  constructor <;> simp [initial]

end ProfileRun

/-- The counts of a profile that the profiler returns. -/
structure DatasetProfile.Bounded (profile : DatasetProfile) : Prop where
  rows : profile.dataset.rowCountScanned ≤ profileMaxRows
  columns : profile.contributing.length ≤ profileMaxColumns
  nulls : profile.totalNull ≤ profile.dataset.rowCountScanned * profile.contributing.length
  duplicates : ∀ d ∈ profile.dataset.duplicateRowCount, d ≤ profile.dataset.rowCountScanned

variable {profile : DatasetProfile}

theorem profileBatches_bounded {schema : LogicalSchema} {columns : ProfileColumns}
    {stream : List ProfileEnvelope} (h : profileBatches schema columns stream = .ok profile) :
    profile.Bounded := by
  obtain ⟨resolved, -, h⟩ := of_bind h
  obtain ⟨_, hwidth, h⟩ := of_bind h
  obtain ⟨run, hrun, hprofile⟩ := of_bind h
  cases hprofile
  have hcounted := (ProfileRun.initial_counted resolved).scan hrun
  rw [require_eq_ok] at hwidth
  constructor
  · exact hcounted.rows
  · have hfilter := length_filter_le (fun c : ColumnProfile => decide (c.status = .profiled))
      (run.finish resolved).columns
    rw [ProfileRun.finish, length_map, length_zip] at hfilter
    exact hfilter.trans ((Nat.min_le_right _ _).trans hwidth)
  · have hsum := sum_le_card_nsmul
      ((run.finish resolved).contributing.map ColumnProfile.nullCount) run.rowCountScanned
    rw [length_map, smul_eq_mul, mul_comm] at hsum
    apply hsum
    intro count hcount
    have ⟨column, hcolumn, hcolumnCount⟩ := mem_map.mp hcount
    have ⟨pair, hpair, hprofile⟩ := mem_map.mp (mem_of_mem_filter hcolumn)
    rw [← hcolumnCount, ← hprofile]
    exact hcounted.nulls pair.1 (of_mem_zip hpair).1
  · intro duplicates hduplicates
    obtain ⟨distinct, -, hsub⟩ := map_eq_some_iff.mp hduplicates
    rw [← hsub]
    exact Nat.sub_le _ _

namespace DatasetProfile

variable (profile : DatasetProfile)

/-- `100 - 40 T / (S C) - 30 D / S - 10 [truncated]`, absent terms omitted. -/
def rawScore : ℚ :=
  let rows : ℚ := profile.dataset.rowCountScanned
  let columns : ℚ := profile.contributing.length
  100 - (if profile.contributing.length = 0 then 0 else 40 * profile.totalNull / (rows * columns))
    - (match profile.dataset.duplicateRowCount with
      | none => 0
      | some duplicates => 30 * duplicates / rows)
    - (if profile.dataset.truncated then 10 else 0)

/-- Some penalty can be computed. -/
def HasEvidence : Prop :=
  profile.contributing ≠ [] ∨ profile.dataset.duplicateRowCount ≠ none ∨
    profile.dataset.truncated = true

/-- The same rows, columns and components, with no fewer nulls or duplicates and at least as
truncated. -/
structure Penalised (profile other : DatasetProfile) : Prop where
  rows : other.dataset.rowCountScanned = profile.dataset.rowCountScanned
  columns : other.contributing.length = profile.contributing.length
  nulls : profile.totalNull ≤ other.totalNull
  duplicates : Option.Rel (· ≤ ·) profile.dataset.duplicateRowCount other.dataset.duplicateRowCount
  truncated : profile.dataset.truncated = true → other.dataset.truncated = true

def weight : Nat := if profile.contributing.length = 0 then 1 else profile.contributing.length

/-- The cells the penalties are shares of. -/
def area : Nat := profile.dataset.rowCountScanned * profile.weight

def exactNull : Nat := if profile.contributing.length = 0 then 0 else 40 * profile.totalNull

def exactDuplicate : Nat := 30 * profile.dataset.duplicateRowCount.getD 0 * profile.weight

def exactTruncation : Nat :=
  if profile.dataset.truncated then 10 * profile.area else 0

namespace Bounded

variable {profile}

theorem area_le (h : profile.Bounded) : profile.area ≤ profileMaxRows * profileMaxColumns := by
  apply Nat.mul_le_mul h.rows
  unfold weight
  split
  · decide
  · exact h.columns

theorem scoreDenominator_eq (h : profile.Bounded) : profile.scoreDenominator = profile.area := by
  have harea := h.area_le
  have hsmall : profileMaxRows * profileMaxColumns ≤ u128Max := by decide
  unfold area weight at harea ⊢
  unfold scoreDenominator u128SaturatingMul
  by_cases hc : profile.contributing.length = 0
  · simp [hc]
  · rw [if_neg hc] at harea
    rw [if_pos (Nat.pos_of_ne_zero hc), if_neg hc]
    exact Nat.min_eq_left (harea.trans hsmall)

theorem exactNull_le (h : profile.Bounded) : profile.exactNull ≤ 40 * profile.area := by
  unfold exactNull area weight
  by_cases hc : profile.contributing.length = 0
  · rw [if_pos hc]
    omega
  · rw [if_neg hc, if_neg hc]
    exact Nat.mul_le_mul_left 40 h.nulls

theorem exactDuplicate_le (h : profile.Bounded) :
    profile.exactDuplicate ≤ 30 * profile.area := by
  have hcount : profile.dataset.duplicateRowCount.getD 0 ≤ profile.dataset.rowCountScanned := by
    cases hd : profile.dataset.duplicateRowCount with
    | none => exact Nat.zero_le _
    | some d => exact h.duplicates d hd
  unfold exactDuplicate area
  rw [← mul_assoc]
  exact Nat.mul_le_mul_right _ (Nat.mul_le_mul_left 30 hcount)

theorem exactTruncation_le (profile : DatasetProfile) :
    profile.exactTruncation ≤ 10 * profile.area := by
  unfold exactTruncation
  split <;> omega

theorem nullPenalty_eq (h : profile.Bounded) : profile.nullPenalty = profile.exactNull := by
  have hnull := h.exactNull_le
  have harea := h.area_le
  have hsmall : 40 * (profileMaxRows * profileMaxColumns) ≤ u128Max := by decide
  unfold exactNull at hnull ⊢
  unfold nullPenalty u128SaturatingAdd u128SaturatingMul
  by_cases hc : profile.contributing.length = 0
  · simp [hc]
  · rw [if_neg hc] at hnull
    rw [if_pos (Nat.pos_of_ne_zero hc), if_neg hc]
    omega

theorem duplicatePenalty_eq (h : profile.Bounded) :
    profile.duplicatePenalty = profile.exactNull + profile.exactDuplicate := by
  have hnull := h.exactNull_le
  have hdup := h.exactDuplicate_le
  have harea := h.area_le
  have hsmall : 70 * (profileMaxRows * profileMaxColumns) ≤ u128Max := by decide
  unfold duplicatePenalty
  rw [h.nullPenalty_eq]
  unfold exactDuplicate at hdup ⊢
  cases hd : profile.dataset.duplicateRowCount with
  | none => simp
  | some d =>
    rw [hd, getD_some] at hdup
    unfold weight u128SaturatingAdd u128SaturatingMul
    unfold weight at hdup
    by_cases hc : profile.contributing.length = 0
    · rw [if_pos hc] at hdup
      simp only [hc, if_pos, lt_irrefl, if_false, getD_some]
      omega
    · have hone : 30 * d ≤ 30 * d * profile.contributing.length :=
        Nat.le_mul_of_pos_right _ (Nat.pos_of_ne_zero hc)
      rw [if_neg hc] at hdup
      simp only [if_pos (Nat.pos_of_ne_zero hc), if_neg hc, getD_some]
      rw [Nat.min_eq_left (b := u128Max) (a := 30 * d) (by omega)]
      omega

theorem penaltyNumerator_eq (h : profile.Bounded) : profile.penaltyNumerator =
    profile.exactNull + profile.exactDuplicate + profile.exactTruncation := by
  have hnull := h.exactNull_le
  have hdup := h.exactDuplicate_le
  have harea := h.area_le
  have hsmall : 80 * (profileMaxRows * profileMaxColumns) ≤ u128Max := by decide
  unfold penaltyNumerator exactTruncation u128SaturatingAdd u128SaturatingMul
  rw [h.duplicatePenalty_eq, h.scoreDenominator_eq]
  split <;> omega

theorem rawScore_eq (h : profile.Bounded) (hrows : profile.dataset.rowCountScanned ≠ 0) :
    profile.rawScore = ((100 * profile.area -
      (profile.exactNull + profile.exactDuplicate + profile.exactTruncation) : Nat) : ℚ) /
        profile.area := by
  have hnull := h.exactNull_le
  have hdup := h.exactDuplicate_le
  have htrunc := exactTruncation_le profile
  have hrows' : (profile.dataset.rowCountScanned : ℚ) ≠ 0 := by exact_mod_cast hrows
  have hweight : (profile.weight : ℚ) ≠ 0 := by
    unfold weight
    split
    · norm_num
    · exact_mod_cast by assumption
  have harea : (profile.area : ℚ) ≠ 0 := by
    rw [area, Nat.cast_mul]
    exact mul_ne_zero hrows' hweight
  have hn : (profile.exactNull : ℚ) / profile.area =
      if profile.contributing.length = 0 then 0 else (40 * profile.totalNull : ℚ) /
        (profile.dataset.rowCountScanned * profile.contributing.length) := by
    unfold exactNull area weight
    split <;> simp
  have hd : (profile.exactDuplicate : ℚ) / profile.area =
      match profile.dataset.duplicateRowCount with
      | none => 0
      | some duplicates => 30 * duplicates / profile.dataset.rowCountScanned := by
    unfold exactDuplicate area
    push_cast
    rw [mul_div_mul_right _ _ hweight]
    cases profile.dataset.duplicateRowCount <;> simp
  have ht : (profile.exactTruncation : ℚ) / profile.area =
      if profile.dataset.truncated then 10 else 0 := by
    unfold exactTruncation
    split
    · push_cast
      field_simp
    · simp
  rw [Nat.cast_sub (by omega)]
  push_cast
  rw [sub_div, add_div, add_div, hn, hd, ht, mul_div_assoc, div_self harea]
  unfold rawScore
  ring

end Bounded

end DatasetProfile

theorem roundHalfEven_eq {numerator denominator : Nat} (hpos : 0 < denominator)
    (h : 2 * denominator ≤ u128Max) :
    roundHalfEven numerator denominator = Lib.roundHalfEven numerator denominator := by
  have hrem := Nat.mod_lt numerator hpos
  unfold roundHalfEven Lib.roundHalfEven u128SaturatingMul
  rw [Nat.min_eq_left (by omega)]

theorem qualityScore_value_eq_none_iff (profile : DatasetProfile) :
    (qualityScore profile).value = none ↔
      profile.dataset.rowCountScanned = 0 ∨ ¬ profile.HasEvidence := by
  unfold qualityScore DatasetProfile.HasEvidence
  by_cases hrows : profile.dataset.rowCountScanned = 0
  · simp [hrows]
  · rw [if_neg hrows]
    split <;> simp_all

theorem qualityScore_rounds (h : profile.Bounded) {v : Nat}
    (hv : (qualityScore profile).value = some v) :
    ∃ k : ℤ, RoundsHalfEven profile.rawScore k ∧ 0 ≤ k ∧ (v : ℤ) = min k 100 := by
  have hrows : profile.dataset.rowCountScanned ≠ 0 := by
    intro hzero
    have hnone := (qualityScore_value_eq_none_iff profile).mpr (.inl hzero)
    rw [hnone] at hv
    cases hv
  have hweight : 0 < profile.weight := by
    unfold DatasetProfile.weight
    split <;> omega
  have hpos : 0 < profile.area :=
    Nat.mul_pos (Nat.pos_of_ne_zero hrows) hweight
  have harea := h.area_le
  have hsmall : 100 * (profileMaxRows * profileMaxColumns) ≤ u128Max := by decide
  have hround := Lib.roundHalfEven_spec (100 * profile.area -
      (profile.exactNull + profile.exactDuplicate + profile.exactTruncation)) hpos
  rw [← h.rawScore_eq hrows] at hround
  have hscaled : u128SaturatingMul 100 profile.area = 100 * profile.area :=
    Nat.min_eq_left (by omega)
  refine ⟨_, hround, Int.natCast_nonneg _, ?_⟩
  unfold qualityScore at hv
  rw [if_neg hrows] at hv
  split at hv
  · cases hv
  · dsimp only at hv
    rw [h.penaltyNumerator_eq, h.scoreDenominator_eq, roundHalfEven_eq hpos (by omega),
      hscaled, some_inj] at hv
    rw [← hv]
    exact Nat.cast_min _ _

theorem qualityScore_missing (hrows : profile.dataset.rowCountScanned ≠ 0) :
    (qualityScore profile).missingComponents =
      (if profile.dataset.duplicateRowCount = none then ["duplicate"] else []) ++
        (if profile.contributing = [] then ["null"] else []) := by
  have hlist : (qualityScore profile).missingComponents = profile.missingComponents := by
    unfold qualityScore
    rw [if_neg hrows]
    split <;> rfl
  rw [hlist]
  unfold DatasetProfile.missingComponents
  simp only [length_eq_zero_iff]
  split <;> split <;> decide

theorem DatasetProfile.Penalised.rawScore_le {other : DatasetProfile}
    (h : profile.Penalised other) : other.rawScore ≤ profile.rawScore := by
  have hnulls : (profile.totalNull : ℚ) ≤ other.totalNull := by exact_mod_cast h.nulls
  unfold DatasetProfile.rawScore
  rw [h.rows, h.columns]
  dsimp only
  apply sub_le_sub
  · apply sub_le_sub
    · apply sub_le_sub_left
      split
      · exact le_refl _
      · gcongr
    · have hduplicates := h.duplicates
      revert hduplicates
      generalize profile.dataset.duplicateRowCount = before
      generalize other.dataset.duplicateRowCount = after
      rintro (hle | _)
      · dsimp only
        gcongr
      · exact le_refl _
  · have := h.truncated
    cases hp : profile.dataset.truncated <;> cases ho : other.dataset.truncated <;> simp_all

/-- The score is absent exactly without rows or evidence, otherwise it is the formula rounded half
to even and clamped, with the omitted terms listed; a profile with the same rows and columns and
no smaller penalties never scores higher. -/
theorem qualityScore_formula {schema : LogicalSchema} {columns : ProfileColumns}
    {stream : List ProfileEnvelope} {profile : DatasetProfile}
    (h : profileBatches schema columns stream = .ok profile) :
    ((qualityScore profile).value = none ↔
      profile.dataset.rowCountScanned = 0 ∨ ¬ profile.HasEvidence) ∧
    (∀ v, (qualityScore profile).value = some v →
      ∃ k : ℤ, RoundsHalfEven profile.rawScore k ∧ (v : ℤ) = max 0 (min k 100)) ∧
    (profile.dataset.rowCountScanned ≠ 0 → (qualityScore profile).missingComponents =
      (if profile.dataset.duplicateRowCount = none then ["duplicate"] else []) ++
        (if profile.contributing = [] then ["null"] else [])) ∧
    (∀ schema' columns' stream' other, profileBatches schema' columns' stream' = .ok other →
      profile.Penalised other → ∀ v w, (qualityScore profile).value = some v →
        (qualityScore other).value = some w → w ≤ v) := by
  have hbounded := profileBatches_bounded h
  refine ⟨qualityScore_value_eq_none_iff profile, ?_, qualityScore_missing, ?_⟩
  · intro v hv
    have ⟨k, hk, hnonneg, hcut⟩ := qualityScore_rounds hbounded hv
    exact ⟨k, hk, by omega⟩
  · intro schema' columns' stream' other hother hpenalised v w hv hw
    have ⟨k, hk, _, hcut⟩ := qualityScore_rounds hbounded hv
    have ⟨l, hl, _, hcut'⟩ := qualityScore_rounds (profileBatches_bounded hother) hw
    have hle := hl.le_of_le hk hpenalised.rawScore_le
    omega

def halfNull : List ProfileEnvelope := [⟨⟨1, [⟨1, "flag", .boolean, true, ∅⟩], ∅⟩, 0, 64,
  [[.boolean true], [.null]]⟩]

def halfNullProfile : DatasetProfile :=
  ⟨⟨2, 64, false, some 2, some 0⟩, [⟨"flag", .profiled, 1, 1, false⟩]⟩

theorem halfNull_scored : (qualityScore halfNullProfile).value = some 80 ∧
    ∃ k : ℤ, RoundsHalfEven halfNullProfile.rawScore k ∧ (80 : ℤ) = max 0 (min k 100) := by
  have hrun : profileBatches ⟨1, [⟨1, "flag", .boolean, true, ∅⟩], ∅⟩ .all halfNull =
      .ok halfNullProfile := by decide +kernel
  have hvalue : (qualityScore halfNullProfile).value = some 80 := by decide
  exact ⟨hvalue, (qualityScore_formula hrun).2.1 80 hvalue⟩

end Stillflow.Engine
