import Stillflow.Engine.StableSort

/-! The memory accounting of a sorted preview, tracker call by tracker call. -/

namespace Stillflow.Engine.Sort

open Stillflow.Core Lib.Fallible MemoryTracker

def previewPeakEngineBytes : Nat :=
  maxBatchBytes + maxBatchBytes + 50 * 1024 * 1024 + maxOperatorStateBytes

namespace MemoryTracker

def newPreview : MemoryTracker :=
  ⟨0, 0, 0, maxOperatorStateBytes, previewPeakEngineBytes, false, false, false, false⟩

def holdEnvelope (tracker : MemoryTracker) (bytes : Nat) : Except EngineError MemoryTracker :=
  refresh { tracker with envelopeLive := true, envelopeBytes := bytes }

def dropEnvelope (tracker : MemoryTracker) : Except EngineError MemoryTracker :=
  refresh { tracker with envelopeLive := false, envelopeBytes := 0 }

def holdIncoming (tracker : MemoryTracker) (bytes : Nat) : Except EngineError MemoryTracker := do
  require (bytes ≤ maxBatchBytes)
    (.boundExceeded "incoming canonical chunk exceeds MAX_BATCH_BYTES")
  refresh { tracker with
    incomingLive := decide (bytes > 0), polarsLive := false, workingBytes := bytes }

def dropIncoming (tracker : MemoryTracker) : Except EngineError MemoryTracker :=
  refresh { tracker with incomingLive := false, workingBytes := 0 }

def holdRemainder (tracker : MemoryTracker) (bytes : Nat) : Except EngineError MemoryTracker := do
  require (bytes ≤ maxBatchBytes) (.boundExceeded "canonical remainder exceeded MAX_BATCH_BYTES")
  refresh { tracker with remainderLive := decide (bytes > 0), remainderBytes := bytes }

end MemoryTracker

/-- What is being lowered. An exported batch is charged with its admission only. -/
inductive Lowering where
  | idle
  | frame (bytes : Nat)
  | exported (batch : RecordBatch)
  | admitted (batch : RecordBatch)

def Lowering.bytes : Lowering → Nat
  | idle => 0
  | frame bytes => bytes
  | exported batch | admitted batch => batch.memorySize

/-- The tracker calls of the loop, with what they charge. -/
inductive Action where
  | holdEnvelope (bytes : Nat)
  | dropEnvelope
  | holdFrame (bytes : Nat)
  | export (batch : RecordBatch)
  | admission
  | push

/-- What the loop holds beside the remainder: the current envelope, what is being lowered and the
buffer; and the tracker that accounts for it. -/
structure SortRun where
  envelope : Nat
  lowering : Lowering
  buffer : SortBuffer
  tracker : MemoryTracker

namespace SortRun

def call (run : SortRun) (envelope : Nat) (lowering : Lowering)
    (held : Except EngineError MemoryTracker) : Except Halt SortRun := do
  let tracker ← held.mapError .error
  return { run with envelope, lowering, tracker }

/-- A frame is held before and after it is transformed, and again when its export was too large.
Calls in an order that the loop does not have are errors. -/
def step (run : SortRun) (action : Action) : Except Halt SortRun :=
  match action, run.lowering with
  | .holdEnvelope bytes, .idle => run.call bytes .idle (run.tracker.holdEnvelope bytes)
  | .dropEnvelope, .idle => run.call 0 .idle run.tracker.dropEnvelope
  | .holdFrame bytes, .idle | .holdFrame bytes, .frame _ | .holdFrame bytes, .exported _ =>
    run.call run.envelope (.frame bytes) (run.tracker.holdPolars bytes)
  | .export batch, .frame _ => run.call run.envelope (.exported batch) run.tracker.dropPolars
  | .admission, .exported batch =>
    run.call run.envelope (.admitted batch) (run.tracker.holdIncoming batch.memorySize)
  | .push, .admitted batch => do
    let (buffer, tracker) ← SortBuffer.push (run.buffer, run.tracker) batch
    return ⟨run.envelope, .idle, buffer, tracker⟩
  | _, _ => .error .panic

/-- The run after these calls; `remainder` is what the new accumulator holds. -/
def reach (lanes : List SortLane) (remainder : Nat) (actions : List Action) :
    Except Halt SortRun := do
  let tracker ← (MemoryTracker.newPreview.holdRemainder remainder).mapError .error
  actions.foldlM step ⟨0, .idle, .new lanes, tracker⟩

def retained (run : SortRun) : Nat := (run.buffer.chunks.map (·.memorySize)).sum

def slotBytes (run : SortRun) : Nat :=
  run.tracker.workingBytes + run.tracker.remainderBytes + run.tracker.envelopeBytes

def lastCharge (run : SortRun) : Nat := (run.buffer.chunks.getLast?.map SortBuffer.charge).getD 0

/-- What is retained stays within the remainder and the current envelope, and between two chunks
within the charge of the last one too; an exported batch that is not yet admitted counts with it. -/
def Within (run : SortRun) (remainder : Nat) : Prop :=
  match run.lowering with
  | .idle => run.retained ≤ run.lastCharge + remainder + run.envelope
  | .frame _ | .admitted _ => run.retained ≤ remainder + run.envelope
  | .exported batch => run.retained + batch.memorySize ≤ remainder + run.envelope

/-- A call of the accumulator: the remainder is held, or a row is appended under holds of the
remainder (`inl`) and of what is left of the row (`inr`). -/
inductive DrainCall where
  | remainder (bytes : Nat)
  | row (holds : List (Nat ⊕ Nat))

def drainCall (tracker : MemoryTracker) : DrainCall → Except EngineError MemoryTracker
  | .remainder bytes => tracker.holdRemainder bytes
  | .row holds => do
    let held ← holds.foldlM (fun tracker => Sum.elim tracker.holdRemainder tracker.holdIncoming)
      tracker
    held.dropIncoming

/-- The tracker after the buffer is released and its ordered rows are handed on. -/
def drain (run : SortRun) (calls : List DrainCall) : Except EngineError MemoryTracker := do
  let released ← run.tracker.dropPolars
  if run.buffer.chunks.isEmpty then return released
  let payload := (run.buffer.chunks.map (·.memorySize)).foldl saturatingAdd 0
  require (payload ≤ maxSortInputBytes) (.boundExceeded "sort output exceeds MAX_SORT_INPUT_BYTES")
  let held ← released.holdPolars payload
  let drained ← calls.foldlM drainCall held
  drained.dropPolars

/-- What the working slot holds. -/
def Slot (run : SortRun) : Prop :=
  match run.lowering with
  | .idle => run.tracker.workingBytes = run.lastCharge ∧ run.tracker.incomingLive = false
  | .frame bytes => run.tracker.workingBytes = bytes ∧ run.tracker.incomingLive = false
  | .exported _ => run.tracker.workingBytes = 0 ∧ run.tracker.incomingLive = false
  | .admitted batch => run.tracker.workingBytes = batch.memorySize

structure Inv (remainder : Nat) (run : SortRun) : Prop where
  reservation : run.tracker.operatorStateBytes = maxOperatorStateBytes
  remainder : run.tracker.remainderBytes = remainder
  envelope : run.tracker.envelopeBytes = run.envelope
  peak : run.tracker.engineBytes ≤ run.tracker.peakLimit
  buffered : run.retained ≤ run.buffer.bytes
  bounded : run.buffer.bytes ≤ maxSortInputBytes
  slot : run.Slot

end SortRun

namespace MemoryTracker

variable {tracker tracker' : MemoryTracker}

theorem refresh_eq_ok (h : tracker.refresh = .ok tracker') :
    tracker' = tracker ∧ tracker'.engineBytes ≤ tracker'.peakLimit := by
  obtain ⟨_, -, h⟩ := of_bind h
  obtain ⟨_, -, h⟩ := of_bind h
  obtain ⟨_, hpeak, h⟩ := of_bind h
  cases h
  exact ⟨rfl, require_eq_ok.mp hpeak⟩

theorem checked_refresh_eq_ok {p : Prop} [Decidable p] {e : EngineError}
    (h : (do require p e; tracker.refresh) = .ok tracker') :
    tracker' = tracker ∧ tracker'.engineBytes ≤ tracker'.peakLimit := by
  obtain ⟨_, -, h⟩ := of_bind h
  exact refresh_eq_ok h

theorem dropPolars_empties (hlive : tracker.incomingLive = false)
    (h : tracker.dropPolars = .ok tracker') : tracker'.workingBytes = 0 := by
  obtain ⟨rfl, -⟩ := refresh_eq_ok h
  exact if_neg (by simp [hlive])

end MemoryTracker

namespace SortRun

variable {run run' : SortRun} {remainder : Nat}

theorem Inv.call {envelope : Nat} {lowering : Lowering} {held : Except EngineError MemoryTracker}
    {next : MemoryTracker} (hinv : run.Inv remainder)
    (h : run.call envelope lowering held = .ok run')
    (hheld : ∀ {tracker}, held = .ok tracker →
      tracker = next ∧ tracker.engineBytes ≤ tracker.peakLimit)
    (hreservation : next.operatorStateBytes = run.tracker.operatorStateBytes)
    (hremainder : next.remainderBytes = run.tracker.remainderBytes)
    (henvelope : next.envelopeBytes = envelope)
    (hslot : Slot ⟨envelope, lowering, run.buffer, next⟩) : run'.Inv remainder := by
  obtain ⟨tracker, htracker, h⟩ := of_bind h
  cases h
  obtain ⟨rfl, hpeak⟩ := hheld (mapError_eq_ok.mp htracker)
  exact ⟨hreservation.trans hinv.reservation, hremainder.trans hinv.remainder, henvelope, hpeak,
    hinv.buffered, hinv.bounded, hslot⟩

theorem Inv.push {batch : RecordBatch} {state : SortBuffer × MemoryTracker}
    (hinv : run.Inv remainder)
    (h : SortBuffer.push (run.buffer, run.tracker) batch = .ok state) :
    Inv remainder ⟨run.envelope, .idle, state.1, state.2⟩ := by
  obtain ⟨buffer, tracker⟩ := state
  obtain ⟨rfl, hbound, hheld⟩ := push_eq_ok h
  obtain ⟨rfl, hpeak⟩ := checked_refresh_eq_ok hheld
  have hlast : lastCharge ⟨run.envelope, .idle, ⟨run.buffer.lanes, run.buffer.chunks ++ [batch],
      saturatingAdd run.buffer.bytes (SortBuffer.charge batch), true⟩, run.tracker⟩ =
      SortBuffer.charge batch := by
    simp [lastCharge]
  refine ⟨hinv.reservation, hinv.remainder, hinv.envelope, hpeak, ?_, hbound, hlast.symm, rfl⟩
  -- Below its bound the sum is not saturated, and the charge is no less than the batch.
  have hsum : (run.buffer.chunks.map (·.memorySize)).sum ≤ run.buffer.bytes := hinv.buffered
  have hmax : maxSortInputBytes < usizeMax := by decide
  simp only [SortBuffer.charge, saturatingAdd] at hbound ⊢
  simp only [retained, List.map_append, List.sum_append, List.map_singleton, List.sum_singleton]
  omega

theorem Inv.step {action : Action} (hinv : run.Inv remainder) (h : run.step action = .ok run') :
    run'.Inv remainder := by
  obtain ⟨envelope, lowering, buffer, tracker⟩ := run
  have hslot := hinv.slot
  have henvelope := hinv.envelope
  cases action with
  | holdEnvelope bytes | dropEnvelope =>
    cases lowering with
    | idle => exact hinv.call h refresh_eq_ok rfl rfl rfl hslot
    | _ => cases h
  | holdFrame bytes =>
    cases lowering with
    | admitted batch => cases h
    | _ => exact hinv.call h checked_refresh_eq_ok rfl rfl henvelope ⟨rfl, rfl⟩
  | «export» batch =>
    cases lowering with
    | frame bytes =>
      have hlive : tracker.incomingLive = false := hslot.2
      exact hinv.call h refresh_eq_ok rfl rfl henvelope ⟨if_neg (by simp [hlive]), hlive⟩
    | _ => cases h
  | admission =>
    cases lowering with
    | exported batch => exact hinv.call h checked_refresh_eq_ok rfl rfl henvelope rfl
    | _ => cases h
  | push =>
    cases lowering with
    | admitted batch =>
      obtain ⟨state, hpush, h⟩ := of_bind h
      cases h
      exact hinv.push hpush
    | _ => cases h

theorem inv_of_reach {lanes : List SortLane} {actions : List Action}
    (h : reach lanes remainder actions = .ok run) : run.Inv remainder := by
  obtain ⟨tracker, htracker, h⟩ := of_bind h
  obtain ⟨heq, hpeak⟩ := checked_refresh_eq_ok (mapError_eq_ok.mp htracker)
  refine foldlM_invariant (Inv remainder) (fun _ => Inv.step) ?_ h
  refine ⟨?_, ?_, ?_, hpeak, le_rfl, Nat.zero_le _, ?_⟩
  · rw [heq, newPreview]
  · rw [heq]
  · rw [heq, newPreview]
  · rw [Slot, heq]
    exact ⟨rfl, rfl⟩

/-- The slots hold the last thing charged, the remainder and the envelope. -/
theorem Inv.covered_iff (hinv : run.Inv remainder) :
    run.retained + run.lowering.bytes ≤ run.slotBytes ↔ run.Within remainder := by
  have hslot := hinv.slot
  have hremainder := hinv.remainder
  have henvelope := hinv.envelope
  unfold Slot at hslot
  unfold Within slotBytes Lowering.bytes
  cases hlowering : run.lowering with
  | idle | frame bytes | exported batch =>
    rw [hlowering] at hslot
    simp only
    rw [hslot.1]
    omega
  | admitted batch =>
    rw [hlowering] at hslot
    simp only
    rw [hslot]
    omega

theorem drain_empties {calls : List DrainCall} {tracker : MemoryTracker}
    (hlive : run.tracker.incomingLive = false) (h : run.drain calls = .ok tracker) :
    tracker.workingBytes = 0 := by
  obtain ⟨released, hreleased, h⟩ := of_bind h
  split at h
  · cases h
    exact dropPolars_empties hlive hreleased
  · obtain ⟨_, -, h⟩ := of_bind h
    obtain ⟨held, hheld, h⟩ := of_bind h
    obtain ⟨rfl, -⟩ := checked_refresh_eq_ok hheld
    obtain ⟨drained, hdrained, h⟩ := of_bind h
    refine dropPolars_empties ?_ h
    -- A row ends with `drop_incoming`, so no row is live between two calls.
    refine foldlM_invariant (fun tracker => tracker.incomingLive = false) ?_ rfl hdrained
    intro before call after _ hbefore hcall
    cases call with
    | remainder bytes =>
      obtain ⟨rfl, -⟩ := checked_refresh_eq_ok hcall
      exact hbefore
    | row holds =>
      obtain ⟨_, -, hcall⟩ := of_bind hcall
      obtain ⟨rfl, -⟩ := refresh_eq_ok hcall
      rfl

/-- At every point of the loop the working, remainder and envelope slots cover what is retained and
what is being lowered exactly when it is within the remainder, the envelope and the last charge.
What is retained stays below the peak limit, and a drained run keeps no working bytes. -/
theorem retained_accounted_iff (lanes : List SortLane) (remainder : Nat) (actions : List Action)
    (run : SortRun) (h : reach lanes remainder actions = .ok run) :
    (run.retained + run.lowering.bytes ≤ run.slotBytes ↔ run.Within remainder) ∧
      run.retained ≤ run.tracker.peakLimit ∧
      (run.lowering = .idle → ∀ calls tracker, run.drain calls = .ok tracker →
        tracker.workingBytes = 0) := by
  have hinv := inv_of_reach h
  refine ⟨hinv.covered_iff, ?_, fun hidle calls tracker hdrain => ?_⟩
  · have hkept := hinv.buffered.trans hinv.bounded
    have hpeak := hinv.peak
    have hreservation := hinv.reservation
    have hsame : maxSortInputBytes = maxOperatorStateBytes := rfl
    have hmax : maxOperatorStateBytes < usizeMax := by decide
    simp only [engineBytes, saturatingAdd] at hpeak
    omega
  · have hslot := hinv.slot
    rw [Slot, hidle] at hslot
    exact drain_empties hslot.2 hdrain

def chunkCalls : List Action :=
  [.holdFrame 8, .holdFrame 8, .export (integerBatch .int64 [some 7]), .admission, .push]

def twoRows (envelope : Nat) : SortRun where
  envelope := envelope
  lowering := .idle
  buffer := ⟨[keyLane], List.replicate 2 (integerBatch .int64 [some 7]), 272, true⟩
  tracker := { MemoryTracker.newPreview with
    envelopeLive := decide (0 < envelope), envelopeBytes := envelope, workingBytes := 136
    polarsLive := true }

/-- Two chunks of one envelope, which is still held. -/
theorem twoRows_accounted :
    reach [keyLane] 0 ([.holdEnvelope 128] ++ chunkCalls ++ chunkCalls) = .ok (twoRows 128) ∧
    (twoRows 128).retained + (twoRows 128).lowering.bytes ≤ (twoRows 128).slotBytes :=
  ⟨rfl, (retained_accounted_iff [keyLane] 0 ([.holdEnvelope 128] ++ chunkCalls ++ chunkCalls) _
    rfl).1.mpr (show (twoRows 128).retained ≤ (twoRows 128).lastCharge + 0 + 128 by decide)⟩

/-- Once the envelope is dropped the slots hold the second chunk only. -/
theorem twoRows_uncovered :
    reach [keyLane] 0 ([.holdEnvelope 128] ++ chunkCalls ++ chunkCalls ++ [.dropEnvelope]) =
      .ok (twoRows 0) ∧
    (twoRows 0).slotBytes < (twoRows 0).retained + (twoRows 0).lowering.bytes :=
  ⟨rfl, by decide⟩

end SortRun

end Stillflow.Engine.Sort
