import Stillflow.Engine.PredictMonotone

/-! The chunks an envelope is ingested in. -/

namespace Stillflow.Engine

open Stillflow.Core Stillflow.Plan Lib Lib.Fallible List

variable {arrays arrays' : List ArrowArray} {offset k k' : Nat} {schema : PredictedSchema}
  {steps : List CompiledStep}

/-- The columns of sizes `sizes` converted one by one. -/
def Transition.column (transition : Transition) (bytes : Nat) : Transition :=
  let remaining := transition.remaining - bytes
  let current := saturatingAdd (saturatingAdd remaining transition.finished) (saturatingMul bytes 2)
  ⟨max transition.peak current, saturatingAdd transition.finished bytes, remaining⟩

def exportPeak (sizes : List Nat) : Nat :=
  let total := sizes.foldl saturatingAdd 0
  let transition := sizes.foldl Transition.column ⟨total, 0, total⟩
  max transition.peak transition.finished

theorem predictExportTransition_eq (schema : PredictedSchema) :
    predictExportTransition arrays offset k schema =
      (do let sizes ← schema.columns.mapM (columnPhysicalBytes arrays offset k)
          return exportPeak sizes) := by
  have htotal : columnPhysicalSum arrays offset k schema =
      (do let sizes ← schema.columns.mapM (columnPhysicalBytes arrays offset k)
          return sizes.foldl saturatingAdd 0) := foldlM_eq_mapM saturatingAdd schema.columns 0
  have hcolumns : ∀ start : Transition,
      schema.columns.foldlM (transitionColumn arrays offset k) start =
        (do let sizes ← schema.columns.mapM (columnPhysicalBytes arrays offset k)
            return sizes.foldl Transition.column start) :=
    fun start => foldlM_eq_mapM Transition.column schema.columns start
  unfold predictExportTransition
  rw [htotal]
  cases hsizes : schema.columns.mapM (columnPhysicalBytes arrays offset k) with
  | error e => rfl
  | ok sizes =>
    simp only [ok_bind, pure_bind, hcolumns, hsizes]
    rfl

theorem foldl_saturatingAdd (sizes : List Nat) (n : Nat) (hn : n ≤ usizeMax) :
    sizes.foldl saturatingAdd n = min (n + sizes.sum) usizeMax := by
  induction sizes generalizing n with
  | nil => simp [hn]
  | cons size sizes ih =>
    have hnext : saturatingAdd n size ≤ usizeMax := min_le_right _ _
    rw [foldl_cons, ih _ hnext, sum_cons]
    unfold saturatingAdd
    omega

/-- While the sizes add up to less than the largest `usize`, what is converted and what is left
make the total again, and one column is held twice more than it was. -/
theorem foldl_column_peak (sizes : List Nat) {total : Nat} (htotal : total ≤ usizeMax) :
    ∀ transition : Transition, transition.remaining = sizes.sum →
      transition.finished + transition.remaining = total →
      sizes.foldl Transition.column transition =
        ⟨sizes.foldl (fun peak bytes => max peak (saturatingAdd total bytes)) transition.peak,
          total, 0⟩ := by
  induction sizes with
  | nil =>
    intro transition hremaining hsum
    obtain ⟨peak, finished, remaining⟩ := transition
    have h0 : remaining = 0 := hremaining
    have h1 : finished = total := by
      have : finished + remaining = total := hsum
      omega
    rw [foldl_nil, foldl_nil, h0, h1]
  | cons bytes sizes ih =>
    intro transition hremaining hsum
    rw [sum_cons] at hremaining
    rw [foldl_cons, foldl_cons]
    have hfinished : (transition.column bytes).finished = transition.finished + bytes := by
      change min _ _ = _
      omega
    have hleft : (transition.column bytes).remaining = transition.remaining - bytes := rfl
    have hpeak : (transition.column bytes).peak =
        max transition.peak (saturatingAdd total bytes) := by
      change max _ _ = _
      unfold saturatingAdd saturatingMul
      omega
    rw [ih (transition.column bytes) (by omega) (by omega), hpeak]

theorem foldl_column_le (sizes : List Nat) : ∀ transition : Transition,
    transition.peak = usizeMax → transition.finished ≤ usizeMax →
    (sizes.foldl Transition.column transition).peak = usizeMax ∧
      (sizes.foldl Transition.column transition).finished ≤ usizeMax := by
  induction sizes with
  | nil => exact fun transition hpeak hfinished => ⟨hpeak, hfinished⟩
  | cons bytes sizes ih =>
    intro transition hpeak hfinished
    refine ih _ ?_ (min_le_right _ _)
    have hcurrent : ∀ a b, saturatingAdd a b ≤ usizeMax := fun a b => min_le_right _ _
    change max _ _ = _
    rw [hpeak]
    exact max_eq_left (hcurrent _ _)

theorem foldl_max_eq_self {f : Nat → Nat} {n : Nat} (hf : ∀ bytes, f bytes ≤ n)
    (sizes : List Nat) : sizes.foldl (fun peak bytes => max peak (f bytes)) n = n := by
  induction sizes with
  | nil => rfl
  | cons bytes sizes ih => rw [foldl_cons, max_eq_left (hf bytes), ih]

theorem foldl_max_mono {f f' : Nat → Nat} (hf : ∀ {a b}, a ≤ b → f a ≤ f' b)
    {sizes sizes' : List Nat} (h : Forall₂ (· ≤ ·) sizes sizes') {n n' : Nat} (hn : n ≤ n') :
    sizes.foldl (fun peak bytes => max peak (f bytes)) n ≤
      sizes'.foldl (fun peak bytes => max peak (f' bytes)) n' := by
  induction h generalizing n n' with
  | nil => exact hn
  | cons hbytes _ ih => exact ih (max_le_max hn (hf hbytes))

theorem exportPeak_eq (sizes : List Nat) :
    exportPeak sizes =
      sizes.foldl (fun peak bytes => max peak (saturatingAdd (min sizes.sum usizeMax) bytes))
        (min sizes.sum usizeMax) := by
  unfold exportPeak
  dsimp only
  rw [foldl_saturatingAdd sizes 0 (Nat.zero_le _), Nat.zero_add]
  rcases Nat.le_total sizes.sum usizeMax with hsum | hsum
  · rw [min_eq_left hsum]
    rw [foldl_column_peak sizes hsum ⟨sizes.sum, 0, sizes.sum⟩ rfl (Nat.zero_add _)]
    have hle : ∀ (l : List Nat) (n : Nat),
        n ≤ l.foldl (fun peak bytes => max peak (saturatingAdd sizes.sum bytes)) n :=
      fun l n => le_foldl (fun peak bytes => le_max_left peak _) l n
    exact max_eq_left (hle sizes sizes.sum)
  · rw [min_eq_right hsum]
    have hpeak := foldl_column_le sizes ⟨usizeMax, 0, usizeMax⟩ rfl (Nat.zero_le _)
    have hbytes : ∀ bytes, saturatingAdd usizeMax bytes ≤ usizeMax := fun bytes => min_le_right _ _
    rw [hpeak.1, max_eq_left hpeak.2, foldl_max_eq_self hbytes]

theorem exportPeak_mono {sizes sizes' : List Nat} (h : Forall₂ (· ≤ ·) sizes sizes') :
    exportPeak sizes ≤ exportPeak sizes' := by
  have htotal : min sizes.sum usizeMax ≤ min sizes'.sum usizeMax :=
    min_le_min h.sum_le_sum le_rfl
  rw [exportPeak_eq, exportPeak_eq]
  exact foldl_max_mono (fun hbytes => saturatingAdd_mono htotal hbytes) h htotal

theorem predictExportTransition_lockstep (hk : k ≤ k') {s s' : PredictedSchema}
    (h : Grows arrays arrays' s s') :
    Lockstep (· ≤ ·) (predictExportTransition arrays offset k s)
      (predictExportTransition arrays' offset k' s') := by
  rw [predictExportTransition_eq, predictExportTransition_eq]
  have hsizes : Lockstep (Forall₂ (· ≤ ·))
      (s.columns.mapM (columnPhysicalBytes arrays offset k))
      (s'.columns.mapM (columnPhysicalBytes arrays' offset k')) :=
    Lockstep.mapM_forall₂ (fun c c' hc => columnPhysicalBytes_lockstep hk hc) h
  exact hsizes.bind fun _ _ hsizes => .ok (exportPeak_mono hsizes)

theorem predict_lockstep (schema : PredictedSchema) (steps : List CompiledStep)
    (harrays : ∀ c ∈ schema.columns, ∀ ordinal, c.origin = .source ordinal →
      arrays'[ordinal]? = arrays[ordinal]?) (hpos : 0 < k) (hk : k ≤ k') :
    Lockstep (· ≤ ·) (predict k offset arrays schema steps)
      (predict k' offset arrays' schema steps) := by
  unfold predict
  rw [if_neg (by omega), if_neg (by omega)]
  refine (refreshSourceWidths_lockstep hk schema harrays).bind fun s s' hs => ?_
  refine (columnPhysicalSum_lockstep hk hs).bind fun live live' hlive => ?_
  have hstart : Probe.Le arrays arrays' ⟨live, live, s⟩ ⟨live', live', s'⟩ := ⟨hlive, hlive, hs⟩
  refine (Lockstep.foldlM (fun _ _ step hp => probeStep_lockstep hk hp step) hstart steps).bind
    fun p p' hp => ?_
  exact (predictExportTransition_lockstep hk hp.grows).bind fun _ _ hpeak =>
    .ok (max_le_max hp.peak_le hpeak)

theorem predict_mono (hk : k ≤ k') {bytes bytes' : Nat}
    (h : predict k offset arrays schema steps = .ok bytes)
    (h' : predict k' offset arrays schema steps = .ok bytes') : bytes ≤ bytes' := by
  rcases Nat.eq_zero_or_pos k with rfl | hpos
  · cases h
    exact Nat.zero_le _
  · exact (predict_lockstep schema steps (fun _ _ _ _ => rfl) hpos hk).of_eq_ok h h'

theorem predict_congr
    (harrays : ∀ c ∈ schema.columns, ∀ ordinal, c.origin = .source ordinal →
      arrays'[ordinal]? = arrays[ordinal]?) (steps : List CompiledStep) :
    predict k offset arrays' schema steps = predict k offset arrays schema steps := by
  rcases Nat.eq_zero_or_pos k with rfl | hpos
  · rfl
  · have hforth : Lockstep (· ≤ ·) (predict k offset arrays schema steps)
        (predict k offset arrays' schema steps) := predict_lockstep schema steps harrays hpos le_rfl
    have hback : Lockstep (· ≤ ·) (predict k offset arrays' schema steps)
        (predict k offset arrays schema steps) :=
      predict_lockstep schema steps (fun c hc o ho => (harrays c hc o ho).symm) hpos le_rfl
    exact (hforth.antisymm hback).symm

theorem feasible_eq_ok {fits : Bool} :
    feasible offset arrays schema steps k = .ok fits ↔
      ∃ bytes, predict k offset arrays schema steps = .ok bytes ∧
        fits = decide (bytes ≤ maxBatchBytes) := by
  unfold feasible
  constructor
  · intro h
    obtain ⟨bytes, hbytes, h⟩ := of_bind h
    cases h
    exact ⟨bytes, hbytes, rfl⟩
  · rintro ⟨bytes, hbytes, rfl⟩
    rw [hbytes]
    rfl

/-- A slice found by the search: it fits, and no longer one does. -/
structure Longest (arrays : List ArrowArray) (schema : PredictedSchema) (steps : List CompiledStep)
    (offset remaining k : Nat) : Prop where
  pos : 1 ≤ k
  le_remaining : k ≤ remaining
  fits : ∃ bytes, predict k offset arrays schema steps = .ok bytes ∧ bytes ≤ maxBatchBytes
  next : k = remaining ∨
    ∃ bytes, predict (k + 1) offset arrays schema steps = .ok bytes ∧ maxBatchBytes < bytes

theorem Longest.not_fits {remaining : Nat} (h : Longest arrays schema steps offset remaining k)
    (hlt : k < k') (hle : k' ≤ remaining) {bytes : Nat}
    (hbytes : predict k' offset arrays schema steps = .ok bytes) : maxBatchBytes < bytes := by
  rcases h.next with hlast | ⟨next, hnext, hexceeds⟩
  · omega
  · have := predict_mono hlt hnext hbytes
    omega

theorem largestFeasibleK_longest {rowCount : Nat} (hrest : offset < rowCount)
    (h : largestFeasibleK rowCount offset arrays schema steps = .ok k) :
    Longest arrays schema steps offset (rowCount - offset) k := by
  unfold largestFeasibleK at h
  rw [if_neg (by omega)] at h
  obtain ⟨single, hsingle, h⟩ := of_bind h
  obtain ⟨_, hrequire, h⟩ := of_bind h
  have hfits : single = true := require_eq_ok.mp hrequire
  subst hfits
  obtain ⟨hpos, hle, hk, hnext⟩ := bisect_eq_ok (by omega) hsingle h
  obtain ⟨bytes, hbytes, hdecide⟩ := feasible_eq_ok.mp hk
  refine ⟨hpos, hle, ⟨bytes, hbytes, of_decide_eq_true hdecide.symm⟩, ?_⟩
  rcases hnext with hlast | hnext
  · exact .inl hlast
  · obtain ⟨bytes, hbytes, hdecide⟩ := feasible_eq_ok.mp hnext
    have hexceeds := of_decide_eq_false hdecide.symm
    exact .inr ⟨bytes, hbytes, by omega⟩

/-- The rows consumed so far, the slices they were consumed in, and the state of the run. -/
structure Ingest (σ : Type) where
  offset : Nat
  slices : List (Nat × Nat)
  state : σ

section Consume

variable {σ : Type} (rowCount : Nat) (arrays : List ArrowArray) (schema : PredictedSchema)
  (steps : List CompiledStep) (process : σ → Nat → Nat → Except Fault σ)

/-- One chunk: `process` transforms the slice, packs it and appends what is full. -/
def consumeChunk (ingest : Ingest σ) : Except Fault (Ingest σ) := do
  let k ← largestFeasibleK rowCount ingest.offset arrays schema steps
  let state ← process ingest.state ingest.offset k
  return ⟨ingest.offset + k, ingest.slices ++ [(ingest.offset, k)], state⟩

variable {rowCount arrays schema steps process}

theorem consumeChunk_eq_ok {ingest next : Ingest σ} (hlt : ingest.offset < rowCount)
    (h : consumeChunk rowCount arrays schema steps process ingest = .ok next) :
    ∃ k state, Longest arrays schema steps ingest.offset (rowCount - ingest.offset) k ∧
      next = ⟨ingest.offset + k, ingest.slices ++ [(ingest.offset, k)], state⟩ := by
  obtain ⟨k, hk, h⟩ := of_bind h
  obtain ⟨state, -, h⟩ := of_bind h
  cases h
  exact ⟨k, state, largestFeasibleK_longest hlt hk, rfl⟩

variable (rowCount arrays schema steps process)

def consumeLoop : Loop (Ingest σ) (Ingest σ) Fault where
  step ingest :=
    if ingest.offset < rowCount then do
      let next ← consumeChunk rowCount arrays schema steps process ingest
      return .inl next
    else .ok (.inr ingest)
  size ingest := rowCount - ingest.offset
  size_lt {ingest next} h := by
    split_ifs at h with hlt
    · obtain ⟨chunk, hchunk, h⟩ := of_bind h
      cases h
      obtain ⟨k, state, hlongest, rfl⟩ := consumeChunk_eq_ok hlt hchunk
      have := hlongest.pos
      dsimp only
      omega
    · cases h

def consumeEnvelope (state : σ) : Except Fault (Ingest σ) :=
  (consumeLoop rowCount arrays schema steps process).run ⟨0, [], state⟩

def sliceRowsOf (slices : List (Nat × Nat)) : List Nat :=
  slices.flatMap fun slice => range' slice.1 slice.2

/-- The slices so far cover the rows up to the offset. -/
structure Covers (ingest : Ingest σ) : Prop where
  rows : sliceRowsOf ingest.slices = range ingest.offset
  le : ingest.offset ≤ rowCount

variable {rowCount arrays schema steps process}

theorem Covers.chunk {ingest next : Ingest σ} (h : Covers rowCount ingest)
    (hlt : ingest.offset < rowCount)
    (hchunk : consumeChunk rowCount arrays schema steps process ingest = .ok next) :
    Covers rowCount next := by
  obtain ⟨k, state, hlongest, rfl⟩ := consumeChunk_eq_ok hlt hchunk
  have hle := hlongest.le_remaining
  refine ⟨?_, by dsimp only; omega⟩
  have hrows := h.rows
  unfold sliceRowsOf at hrows ⊢
  have happend : range' 0 ingest.offset ++ range' ingest.offset k =
      range' 0 (ingest.offset + k) := by
    have := @range'_append_1 0 ingest.offset k
    rwa [Nat.zero_add] at this
  rw [flatMap_append, hrows, flatMap_cons, flatMap_nil, append_nil,
    range_eq_range', range_eq_range', happend]

theorem consumeEnvelope_covers {state : σ} {final : Ingest σ}
    (h : consumeEnvelope rowCount arrays schema steps process state = .ok final) :
    sliceRowsOf final.slices = range rowCount := by
  refine (consumeLoop rowCount arrays schema steps process).run_invariant (Covers rowCount)
    (fun final => sliceRowsOf final.slices = range rowCount)
    (fun {ingest next} hcovers hstep => ?_) (fun {ingest final} hcovers hbreak => ?_)
    ⟨rfl, Nat.zero_le _⟩ h
  · unfold consumeLoop at hstep
    dsimp only at hstep
    split_ifs at hstep with hlt
    · obtain ⟨chunk, hchunk, hstep⟩ := of_bind hstep
      cases hstep
      exact hcovers.chunk hlt hchunk
    · cases hstep
  · unfold consumeLoop at hbreak
    dsimp only at hbreak
    split_ifs at hbreak with hlt
    · obtain ⟨chunk, -, hbreak⟩ := of_bind hbreak
      cases hbreak
    · cases hbreak
      have hall : ingest.offset = rowCount := by
        have := hcovers.le
        omega
      rw [hcovers.rows, hall]

theorem consumeEnvelope_returns
    (hsearch : ∀ offset < rowCount, ∃ k, largestFeasibleK rowCount offset arrays schema steps = .ok k)
    (hprocess : ∀ state offset k, ∃ next, process state offset k = .ok next) (state : σ) :
    ∃ final, consumeEnvelope rowCount arrays schema steps process state = .ok final := by
  refine (consumeLoop rowCount arrays schema steps process).run_progress (fun _ => True)
    (fun {ingest} _ => ?_) trivial
  unfold consumeLoop
  dsimp only
  by_cases hlt : ingest.offset < rowCount
  · obtain ⟨k, hk⟩ := hsearch ingest.offset hlt
    obtain ⟨next, hnext⟩ := hprocess ingest.state ingest.offset k
    refine .inl ⟨⟨ingest.offset + k, ingest.slices ++ [(ingest.offset, k)], next⟩, ?_, trivial⟩
    rw [if_pos hlt]
    unfold consumeChunk
    rw [hk, ok_bind, hnext]
    rfl
  · refine .inr ⟨ingest, ?_⟩
    rw [if_neg hlt]

end Consume

/-- The prediction is monotone in the length of the slice, the search returns the longest slice
that fits, and the ingest loop consumes every row of an envelope once and ends. -/
theorem largestFeasibleK_maximal (arrays : List ArrowArray) (schema : PredictedSchema)
    (steps : List CompiledStep) :
    (∀ offset k k' bytes bytes', k ≤ k' → predict k offset arrays schema steps = .ok bytes →
      predict k' offset arrays schema steps = .ok bytes' → bytes ≤ bytes') ∧
    (∀ rowCount offset k, offset < rowCount →
      largestFeasibleK rowCount offset arrays schema steps = .ok k →
      Longest arrays schema steps offset (rowCount - offset) k ∧
      ∀ k' bytes, k < k' → k' ≤ rowCount - offset →
        predict k' offset arrays schema steps = .ok bytes → maxBatchBytes < bytes) ∧
    ∀ (σ : Type) (process : σ → Nat → Nat → Except Fault σ) (rowCount : Nat) (state : σ),
      (∀ final, consumeEnvelope rowCount arrays schema steps process state = .ok final →
        sliceRowsOf final.slices = range rowCount) ∧
      ((∀ offset < rowCount, ∃ k, largestFeasibleK rowCount offset arrays schema steps = .ok k) →
        (∀ state offset k, ∃ next, process state offset k = .ok next) →
        ∃ final, consumeEnvelope rowCount arrays schema steps process state = .ok final) := by
  refine ⟨fun _ _ _ _ _ hk h h' => predict_mono hk h h', fun rowCount offset k hrest h => ?_,
    fun σ process rowCount state => ⟨fun final h => consumeEnvelope_covers h, ?_⟩⟩
  · have hlongest := largestFeasibleK_longest hrest h
    exact ⟨hlongest, fun k' bytes hlt hle hbytes => hlongest.not_fits hlt hle hbytes⟩
  · intro hsearch hprocess
    exact consumeEnvelope_returns hsearch hprocess state

/-- Two texts of thirty million bytes, too long for one batch. -/
def longTexts : List ArrowArray := [.bytes .utf8 [⟨30000000, true⟩, ⟨30000000, true⟩]]

def longTextSchema : PredictedSchema := ⟨[⟨⟨1⟩, "text", .utf8, false, 0, .source 0⟩]⟩

theorem longTexts_ingested_apart :
    largestFeasibleK 2 0 longTexts longTextSchema [] = .ok 1 ∧
      Longest longTexts longTextSchema [] 0 2 1 ∧
      ∃ final, consumeEnvelope 2 longTexts longTextSchema [] (fun _ _ _ => .ok ()) () = .ok final ∧
        final.slices = [(0, 1), (1, 1)] ∧ sliceRowsOf final.slices = range 2 := by
  have hsearch : largestFeasibleK 2 0 longTexts longTextSchema [] = .ok 1 := by decide +kernel
  have hall := largestFeasibleK_maximal longTexts longTextSchema []
  have hconsume : consumeEnvelope 2 longTexts longTextSchema [] (fun _ _ _ => .ok ()) () =
      .ok ⟨2, [(0, 1), (1, 1)], ()⟩ := rfl
  exact ⟨hsearch, (hall.2.1 2 0 1 (by decide) hsearch).1, _, hconsume, rfl,
    (hall.2.2 Unit _ 2 ()).1 _ hconsume⟩

end Stillflow.Engine
