import Stillflow.Lib.Table

/-! The in-memory telemetry sink. -/

namespace Stillflow.Core

open Lib List Option

inductive MetricKind where
  | counter
  | gauge
  deriving DecidableEq

inductive MetricName where
  | apiRequestsTotal
  | apiErrorsTotal
  | queueDepth
  | jobOperationsTotal
  | runOperationsTotal
  | engineOperationsTotal
  | connectorCallsTotal
  | storageOperationsTotal
  deriving DecidableEq

def maxTelemetryEvents : Nat := 4096

def maxTelemetryMetrics : Nat := 1024

def u64Max : Nat := 2 ^ 64 - 1

structure MetricPoint (Labels : Type) where
  name : MetricName
  kind : MetricKind
  value : Nat
  labels : Labels
  bounded : value ≤ u64Max

/-- What a snapshot aggregates by. -/
abbrev MetricKey (Labels : Type) := MetricName × MetricKind × Labels

/-- The payloads of logs and spans are left out. -/
inductive TelemetryEvent (Labels : Type) where
  | metric (point : MetricPoint Labels)
  | structuredLog
  | spanStarted
  | spanFinished

structure InMemoryTelemetry (Labels : Type) where
  events : List (TelemetryEvent Labels) := []
  droppedEvents : Nat := 0

variable {Labels : Type}

instance : HasKey (MetricPoint Labels) (MetricKey Labels) where
  key point := (point.name, point.kind, point.labels)

structure TelemetrySnapshot (Labels : Type) where
  metrics : Table (MetricPoint Labels)
  retainedEvents : Nat
  droppedEvents : Nat

open HasKey

def MetricPoint.add (point existing : MetricPoint Labels) : MetricPoint Labels :=
  match point.kind with
  | .counter =>
    { existing with
      value := min (existing.value + point.value) u64Max, bounded := min_le_right _ _ }
  | .gauge => { existing with value := point.value, bounded := point.bounded }

theorem MetricPoint.key_add (point existing : MetricPoint Labels) :
    key (point.add existing) = key existing := by
  unfold add
  split <;> rfl

namespace InMemoryTelemetry

def emit (sink : InMemoryTelemetry Labels) (event : TelemetryEvent Labels) :
    InMemoryTelemetry Labels :=
  if maxTelemetryEvents ≤ sink.events.length then
    ⟨sink.events.tail ++ [event], min (sink.droppedEvents + 1) u64Max⟩
  else { sink with events := sink.events ++ [event] }

def emitAll (events : List (TelemetryEvent Labels)) : InMemoryTelemetry Labels :=
  events.foldl emit {}

def keysOf (events : List (TelemetryEvent Labels)) : List (MetricKey Labels) :=
  events.filterMap fun
    | .metric point => some (key point)
    | _ => none

variable {events pre more : List (TelemetryEvent Labels)} {metrics : Table (MetricPoint Labels)}
  {point : MetricPoint Labels} {event : TelemetryEvent Labels} {metric : MetricKey Labels}

theorem emitAll_of_fits (h : events.length ≤ maxTelemetryEvents) :
    emitAll events = ⟨events, 0⟩ := by
  induction events using List.reverseRecOn with
  | nil => rfl
  | append_singleton events event ih =>
    rw [length_append, length_singleton] at h
    rw [emitAll, foldl_concat, ← emitAll, ih (by omega), emit, if_neg]
    exact Nat.not_le.mpr h

/-- The events a log still holds: the most recent ones. -/
def retained (events : List (TelemetryEvent Labels)) : List (TelemetryEvent Labels) :=
  events.drop (events.length - maxTelemetryEvents)

theorem length_retained (events : List (TelemetryEvent Labels)) :
    (retained events).length = min events.length maxTelemetryEvents := by
  rw [retained, length_drop]
  omega

theorem emitAll_eq (events : List (TelemetryEvent Labels)) :
    emitAll events = ⟨retained events, min (events.length - maxTelemetryEvents) u64Max⟩ := by
  induction events using List.reverseRecOn with
  | nil => simp [emitAll, retained]
  | append_singleton events event ih =>
    have hnext : retained (events ++ [event]) =
        events.drop (events.length + 1 - maxTelemetryEvents) ++ [event] := by
      rw [retained, length_append, length_singleton]
      exact drop_append_of_le_length (by simp only [maxTelemetryEvents]; omega)
    rw [emitAll, foldl_concat, ← emitAll, ih, emit, hnext, length_append, length_singleton]
    dsimp only
    rw [length_retained]
    by_cases hfull : maxTelemetryEvents ≤ events.length
    · have hcount : events.length + 1 - maxTelemetryEvents =
          events.length - maxTelemetryEvents + 1 := by omega
      have hdropped : min (min (events.length - maxTelemetryEvents) u64Max + 1) u64Max =
          min (events.length - maxTelemetryEvents + 1) u64Max := by omega
      rw [if_pos (by omega), hcount, retained, tail_drop, hdropped]
    · have hroom : events.length + 1 - maxTelemetryEvents = 0 := by omega
      have hbefore : events.length - maxTelemetryEvents = 0 := by omega
      rw [if_neg (by omega), hroom, retained, hbefore, drop_zero]

variable [DecidableEq Labels]

/-- A metric that is there takes the point up; another one is pushed while there is room. -/
def aggregate (metrics : Table (MetricPoint Labels)) :
    TelemetryEvent Labels → Table (MetricPoint Labels)
  | .metric point =>
    match metrics.find? (key point) with
    | some _ => metrics.modify (key point) point.add point.key_add
    | none =>
      if metrics.rows.length < maxTelemetryMetrics then (metrics.insert? point).getD metrics
      else metrics
  | _ => metrics

def snapshot (sink : InMemoryTelemetry Labels) : TelemetrySnapshot Labels where
  metrics := sink.events.foldl aggregate .empty
  retainedEvents := sink.events.length
  droppedEvents := sink.droppedEvents

def valuesOf (events : List (TelemetryEvent Labels)) (metric : MetricKey Labels) : List Nat :=
  events.filterMap fun
    | .metric point => if key point = metric then some point.value else none
    | _ => none

/-- The saturated sum of a counter, the last value of a gauge. -/
def totalOf (events : List (TelemetryEvent Labels)) (metric : MetricKey Labels) : Option Nat :=
  (valuesOf events metric).getLast?.map fun last =>
    match metric.2.1 with
    | .counter => min (valuesOf events metric).sum u64Max
    | .gauge => last

def reported (events : List (TelemetryEvent Labels)) (metric : MetricKey Labels) : Option Nat :=
  ((emitAll events).snapshot.metrics.find? metric).map (·.value)

structure RunningTotals (events : List (TelemetryEvent Labels)) : Prop where
  totals : ∀ metric, reported events metric = totalOf events metric
  counted : (emitAll events).snapshot.droppedEvents + (emitAll events).snapshot.retainedEvents =
    events.length
  monotone : ∀ earlier, earlier <+: events → ∀ name labels value,
    reported earlier (name, .counter, labels) = some value →
      ∃ value' ≥ value, reported events (name, .counter, labels) = some value'

theorem valuesOf_append (pre more : List (TelemetryEvent Labels)) (metric : MetricKey Labels) :
    valuesOf (pre ++ more) metric = valuesOf pre metric ++ valuesOf more metric :=
  filterMap_append

theorem totalOf_append_of_nil (h : valuesOf more metric = []) :
    totalOf (pre ++ more) metric = totalOf pre metric := by
  rw [totalOf, valuesOf_append, h, append_nil, totalOf]

/-- What one more point does to the total of its metric. -/
theorem totalOf_metric (pre : List (TelemetryEvent Labels)) (point : MetricPoint Labels) :
    totalOf (pre ++ [.metric point]) (key point) =
      some (match totalOf pre (key point), point.kind with
        | some total, .counter => min (total + point.value) u64Max
        | _, _ => point.value) := by
  have hvalues : valuesOf [.metric point] (key point) = [point.value] := by simp [valuesOf]
  have hkind : (key point).2.1 = point.kind := rfl
  rw [totalOf, totalOf, valuesOf_append, hvalues, getLast?_concat, hkind]
  cases hlast : (valuesOf pre (key point)).getLast? with
  | none =>
    rw [getLast?_eq_none_iff] at hlast
    cases point.kind <;> simp [hlast, point.bounded]
  | some last =>
    cases point.kind with
    | gauge => rfl
    | counter =>
      rw [map_some, map_some, sum_append, sum_singleton]
      refine congrArg some ?_
      change min (_ + _) u64Max = min (min _ u64Max + _) u64Max
      omega

theorem mem_keysOf_of_totalOf {total : Nat} (h : totalOf pre metric = some total) :
    metric ∈ keysOf pre := by
  obtain ⟨last, hlast, -⟩ := map_eq_some_iff.mp h
  obtain ⟨event, hevent, hvalue⟩ := mem_filterMap.mp (mem_of_getLast? hlast)
  refine mem_filterMap.mpr ⟨event, hevent, ?_⟩
  cases event with
  | metric point =>
    simp only [ite_none_right_eq_some] at hvalue
    exact congrArg some hvalue.1
  | structuredLog | spanStarted | spanFinished => cases hvalue

/-- The metrics are the totals of the events. -/
def Totals (pre : List (TelemetryEvent Labels)) (metrics : Table (MetricPoint Labels)) : Prop :=
  ∀ metric, (metrics.find? metric).map (·.value) = totalOf pre metric

/-- There are no more metrics than distinct keys, so a new one finds room. -/
theorem Totals.room (h : Totals pre metrics)
    (hkeys : (keysOf events).dedup.length ≤ maxTelemetryMetrics)
    (hpre : pre ++ [.metric point] <+: events) (hnew : metrics.find? (key point) = none) :
    metrics.rows.length < maxTelemetryMetrics := by
  have hmem : ∀ k ∈ keysOf pre ++ [key point], k ∈ (keysOf events).dedup := by
    intro k hk
    have hsplit : keysOf (pre ++ [.metric point]) = keysOf pre ++ [key point] := filterMap_append
    rw [← hsplit] at hk
    exact mem_dedup.mpr ((hpre.filterMap _).subset hk)
  have hnodup : (key point :: metrics.rows.map key).Nodup := by
    refine nodup_cons.mpr ⟨fun hrow => ?_, metrics.nodup⟩
    obtain ⟨row, hrow, hkey⟩ := mem_map.mp hrow
    exact Table.find?_eq_none.mp hnew row hrow hkey
  have hsubset : key point :: metrics.rows.map key ⊆ (keysOf events).dedup := by
    intro k hk
    apply hmem
    rcases mem_cons.mp hk with rfl | hk
    · simp
    · obtain ⟨row, hrow, rfl⟩ := mem_map.mp hk
      have htotal := h (key row)
      rw [Table.find?_eq_some.mpr ⟨hrow, rfl⟩] at htotal
      exact mem_append_left _ (mem_keysOf_of_totalOf htotal.symm)
  have hlength := (hnodup.subperm hsubset).length_le
  rw [length_cons, length_map] at hlength
  omega

theorem Totals.step (h : Totals pre metrics)
    (hkeys : (keysOf events).dedup.length ≤ maxTelemetryMetrics)
    (hpre : pre ++ [event] <+: events) : Totals (pre ++ [event]) (aggregate metrics event) := by
  intro metric
  cases event with
  | structuredLog | spanStarted | spanFinished =>
    exact (h metric).trans (totalOf_append_of_nil rfl).symm
  | metric point =>
    have hother : metric ≠ key point →
        totalOf (pre ++ [.metric point]) metric = totalOf pre metric :=
      fun hne => totalOf_append_of_nil (by simp [valuesOf, Ne.symm hne])
    have hown := totalOf_metric pre point
    rw [← h] at hown
    unfold aggregate
    dsimp only
    cases hfind : metrics.find? (key point) with
    | some existing =>
      rw [hfind] at hown
      rw [Table.find?_modify]
      split_ifs with hmetric
      · rw [hmetric, hown, hfind]
        unfold MetricPoint.add
        cases point.kind <;> rfl
      · rw [hother hmetric, h]
    | none =>
      rw [hfind] at hown
      obtain ⟨table, htable⟩ : ∃ table, metrics.insert? point = some table := by
        simp [Table.insert?, hfind]
      rw [if_pos (h.room hkeys hpre hfind), htable, getD_some,
        Table.find?_insert? htable]
      split_ifs with hmetric
      · rw [hmetric, hown]
        rfl
      · rw [hother hmetric, h]

theorem totals_of_fits (hkeys : (keysOf events).dedup.length ≤ maxTelemetryMetrics)
    (hpre : pre <+: events) : Totals pre (pre.foldl aggregate .empty) := by
  induction pre using List.reverseRecOn with
  | nil => exact fun _ => rfl
  | append_singleton pre event ih =>
    rw [foldl_concat]
    exact (ih ((prefix_append _ _).trans hpre)).step hkeys hpre

/-- Every run that stays within the log and the metric cap. -/
theorem running_totals (hevents : events.length ≤ maxTelemetryEvents)
    (hkeys : (keysOf events).dedup.length ≤ maxTelemetryMetrics) : RunningTotals events := by
  have hreported : ∀ {earlier}, earlier <+: events → ∀ metric,
      reported earlier metric = totalOf earlier metric := by
    intro earlier hpre metric
    rw [reported, emitAll_of_fits (hpre.length_le.trans hevents)]
    exact totals_of_fits hkeys hpre metric
  refine ⟨hreported prefix_rfl, ?_, ?_⟩
  · rw [emitAll_of_fits hevents]
    exact Nat.zero_add _
  · intro earlier hpre name labels value hvalue
    rw [hreported hpre] at hvalue
    rw [hreported prefix_rfl]
    obtain ⟨more, rfl⟩ := hpre
    obtain ⟨last, hlast, rfl⟩ := map_eq_some_iff.mp hvalue
    have hsum := Nat.le_add_right (valuesOf earlier (name, .counter, labels)).sum
      (valuesOf more (name, .counter, labels)).sum
    refine ⟨_, min_le_min_right u64Max hsum, ?_⟩
    rw [totalOf, valuesOf_append, getLast?_append, hlast, sum_append]
    cases (valuesOf more (name, .counter, labels)).getLast? <;> rfl

def oneRequest : MetricPoint Unit := ⟨.apiRequestsTotal, .counter, 1, (), by decide⟩

def queued (depth : Nat) (h : depth ≤ u64Max) : MetricPoint Unit := ⟨.queueDepth, .gauge, depth, (), h⟩

/-- Two requests, a queue that grows and drains, a log record and a span. -/
def mixedRun : List (TelemetryEvent Unit) :=
  [.spanStarted, .metric (queued 7 (by decide)), .metric oneRequest, .structuredLog,
    .metric oneRequest, .metric (queued 3 (by decide)), .spanFinished]

theorem mixedRun_counted : RunningTotals mixedRun ∧
    reported mixedRun (key oneRequest) = some 2 ∧
    reported mixedRun (.queueDepth, .gauge, ()) = some 3 := by
  have hrun : RunningTotals mixedRun := running_totals (by decide) (by decide)
  exact ⟨hrun, hrun.totals _, hrun.totals _⟩

/-- A request and as many log records as fill the log. -/
def fullLog : List (TelemetryEvent Unit) := .metric oneRequest :: replicate 4095 .structuredLog

theorem counter_disappears : reported fullLog (key oneRequest) = some 1 ∧
    reported (fullLog ++ [.structuredLog]) (key oneRequest) = none := by
  have hlength : fullLog.length = maxTelemetryEvents := by decide +kernel
  have hfull : emitAll fullLog = ⟨fullLog, 0⟩ := emitAll_of_fits hlength.le
  have hnext : emitAll (fullLog ++ [.structuredLog]) = ⟨fullLog.tail ++ [.structuredLog], 1⟩ := by
    rw [emitAll, foldl_concat, ← emitAll, hfull, emit, if_pos hlength.ge]
    rfl
  rw [reported, reported, hfull, hnext]
  decide +kernel

/-- However long the run, a snapshot reports the totals of the most recent events and counts the
events that were dropped. -/
theorem snapshot_of_retained (events : List (TelemetryEvent Labels))
    (hkeys : (keysOf (retained events)).dedup.length ≤ maxTelemetryMetrics) :
    (∀ metric, reported events metric = totalOf (retained events) metric) ∧
      (emitAll events).snapshot.retainedEvents = min events.length maxTelemetryEvents ∧
      (emitAll events).snapshot.droppedEvents =
        min (events.length - maxTelemetryEvents) u64Max := by
  simp only [reported, emitAll_eq, snapshot, length_retained, and_true]
  exact totals_of_fits hkeys prefix_rfl

theorem snapshot_of_fullLog :
    reported (fullLog ++ [.metric oneRequest]) (key oneRequest) = some 1 := by
  have hkeys : (keysOf (retained (fullLog ++ [.metric oneRequest]))).dedup.length ≤
      maxTelemetryMetrics := by decide +kernel
  rw [(snapshot_of_retained _ hkeys).1]
  decide +kernel

end InMemoryTelemetry

end Stillflow.Core
