import Stillflow.Engine.Error

/-!
The six-slot memory law of the verification path: a slot becomes live with its first byte, dies
when it is emptied, and has a cap of its own; the sum of the slots has a cap as well.
-/

namespace Stillflow.Engine

open Stillflow.Core Stillflow.Plan Lib.Fallible List Function

inductive Slot where
  | envelope
  | polars
  | accepted
  | rejected
  | validation
  | dedup
  deriving DecidableEq

def Slot.all : List Slot := [.envelope, .polars, .accepted, .rejected, .validation, .dedup]

def maxLivePayloads : Nat := 6

def maxBatchBytes : Nat := 64 * 1024 * 1024

def reportPackBytes : Nat := 2 * 1024 * 1024

def maxOperatorStateBytes : Nat := 5 * 1024 * 1024

/-- The caps of the slots and of their sum. -/
structure MemoryLaw where
  cap : Slot → Nat
  peak : Nat
  cap_lt : ∀ slot, cap slot < usizeMax
  sum_le : (Slot.all.map cap).sum ≤ peak

/-- Four columnar slots and two report slots of the given size. -/
def slotCap (reportBytes : Nat) : Slot → Nat
  | .envelope | .polars | .accepted | .rejected => maxBatchBytes
  | .validation | .dedup => reportBytes

/-- `VERIFICATION_MAX_ENGINE_PEAK_BYTES` over report slots of the given size. -/
def enginePeakBytes (reportBytes : Nat) : Nat :=
  4 * maxBatchBytes + 2 * reportBytes + maxOperatorStateBytes

theorem slotCap_sum_le (reportBytes : Nat) :
    (Slot.all.map (slotCap reportBytes)).sum ≤ enginePeakBytes reportBytes := by
  simp only [Slot.all, map_cons, map_nil, sum_cons, sum_nil, slotCap,
    enginePeakBytes]
  omega

/-- The law of the source for report slots of `reportBytes`. -/
def memoryLaw (reportBytes : Nat) (h : reportBytes < usizeMax) : MemoryLaw where
  cap := slotCap reportBytes
  peak := enginePeakBytes reportBytes
  cap_lt slot := by
    have hbatch : maxBatchBytes < usizeMax := by decide
    cases slot <;> first | exact h | exact hbatch
  sum_le := slotCap_sum_le reportBytes

/-- The law with the source's report slots of `REPORT_PACK_BYTES`. -/
def verificationLaw : MemoryLaw := memoryLaw reportPackBytes (by decide)

structure VerificationMemory where
  bytes : Slot → Nat
  live : Slot → Bool
  livePayloads : Nat

namespace VerificationMemory

def default : VerificationMemory := ⟨fun _ => 0, fun _ => false, 0⟩

def fiveSlotPeakExcluding (memory : VerificationMemory) (excluded : Slot) : Nat :=
  ((Slot.all.filter (· ≠ excluded)).map memory.bytes).sum

def slotExceeded : EngineError := .boundExceeded "verification payload exceeds its bounded slot"

/-- `admit`: the hold of every slot. -/
def hold (law : MemoryLaw) (slot : Slot) (memory : VerificationMemory) (incoming : Nat) :
    Except EngineError VerificationMemory := do
  let livePayloads := if memory.live slot then memory.livePayloads else memory.livePayloads + 1
  require (memory.live slot = true ∨ livePayloads ≤ maxLivePayloads)
    (EngineError.internal "verification path exceeded six live payloads")
  let total := saturatingAdd (memory.bytes slot) incoming
  require (total ≤ law.cap slot) slotExceeded
  require (memory.fiveSlotPeakExcluding slot + total ≤ law.peak)
    (EngineError.boundExceeded "verification engine peak exceeds 265 MiB")
  return ⟨update memory.bytes slot total, update memory.live slot true,
    livePayloads⟩

/-- Give back bytes; the slot dies when none is left. -/
def release (slot : Slot) (memory : VerificationMemory) (bytes : Nat) : VerificationMemory :=
  if memory.bytes slot - bytes = 0 ∧ memory.live slot = true then
    ⟨update memory.bytes slot 0, update memory.live slot false,
      memory.livePayloads - 1⟩
  else { memory with bytes := update memory.bytes slot (memory.bytes slot - bytes) }

def drop (slot : Slot) (memory : VerificationMemory) : VerificationMemory :=
  memory.release slot (memory.bytes slot)

def swapEnvelope (law : MemoryLaw) (memory : VerificationMemory) (incoming : Nat) :
    Except EngineError VerificationMemory :=
  (memory.drop .envelope).hold law .envelope incoming

end VerificationMemory

/-- Every slot is within its cap and the live counter counts the live slots. -/
structure VerificationMemory.WithinLaw (law : MemoryLaw) (memory : VerificationMemory) : Prop where
  bytes_le : ∀ slot, memory.bytes slot ≤ law.cap slot
  live_eq : memory.livePayloads = (Slot.all.filter memory.live).length

namespace VerificationMemory

variable {law : MemoryLaw} {memory : VerificationMemory}

theorem withinLaw_default (law : MemoryLaw) : default.WithinLaw law where
  bytes_le _ := Nat.zero_le _
  live_eq := rfl

theorem live_update (live : Slot → Bool) (slot : Slot) (value : Bool) :
    (Slot.all.filter (update live slot value)).length + (live slot).toNat =
      (Slot.all.filter live).length + value.toNat := by
  simp only [← countP_eq_length_filter, Slot.all, countP_cons, countP_nil,
    Bool.toNat, Bool.cond_eq_ite]
  cases slot <;> simp only [update_apply, reduceCtorEq, if_true, if_false] <;> omega

theorem live_length_le (live : Slot → Bool) : (Slot.all.filter live).length ≤ 6 :=
  (length_filter_le _ _).trans (by decide)

theorem fiveSlotPeak_add_le (h : ∀ slot, memory.bytes slot ≤ law.cap slot) (slot : Slot)
    {total : Nat} (ht : total ≤ law.cap slot) :
    memory.fiveSlotPeakExcluding slot + total ≤ law.peak := by
  have hsum := law.sum_le
  have hcaps := And.intro (h .envelope) (And.intro (h .polars) (And.intro (h .accepted)
    (And.intro (h .rejected) (And.intro (h .validation) (h .dedup)))))
  cases slot <;>
    simp only [Slot.all, map_cons, map_nil, sum_cons, sum_nil] at hsum <;>
    simp [fiveSlotPeakExcluding, Slot.all] <;> omega

theorem saturatingAdd_le_iff {a b cap : Nat} (hcap : cap < usizeMax) :
    saturatingAdd a b ≤ cap ↔ a + b ≤ cap := by
  unfold saturatingAdd
  omega

def held (memory : VerificationMemory) (slot : Slot) (incoming : Nat) : VerificationMemory :=
  ⟨update memory.bytes slot (memory.bytes slot + incoming),
    update memory.live slot true,
    if memory.live slot then memory.livePayloads else memory.livePayloads + 1⟩

/-- Neither the live counter nor the peak ever refuses a hold: the slot's own cap does. -/
theorem hold_eq (hm : memory.WithinLaw law) (slot : Slot) (incoming : Nat) :
    memory.hold law slot incoming =
      if memory.bytes slot + incoming ≤ law.cap slot then .ok (memory.held slot incoming)
      else .error slotExceeded := by
  have hlive : memory.live slot = true ∨
      (if memory.live slot then memory.livePayloads else memory.livePayloads + 1) ≤
        maxLivePayloads := by
    cases hslot : memory.live slot with
    | true => exact .inl rfl
    | false =>
      right
      have hupdate := live_update memory.live slot true
      have hle := live_length_le (update memory.live slot true)
      rw [hslot] at hupdate
      rw [hm.live_eq]
      simp only [Bool.toNat_true, Bool.toNat_false, maxLivePayloads] at hupdate ⊢
      simp only [Bool.false_eq_true, if_false]
      omega
  have hcap := law.cap_lt slot
  unfold hold
  by_cases hfits : memory.bytes slot + incoming ≤ law.cap slot
  · have hsat : saturatingAdd (memory.bytes slot) incoming = memory.bytes slot + incoming := by
      unfold saturatingAdd
      omega
    have hpeak := fiveSlotPeak_add_le hm.bytes_le slot hfits
    simp only [hsat, require, if_pos hlive, if_pos hfits, if_pos hpeak, ok_bind]
    rfl
  · have hover : ¬ saturatingAdd (memory.bytes slot) incoming ≤ law.cap slot := by
      rw [saturatingAdd_le_iff hcap]
      exact hfits
    simp only [require, if_pos hlive, if_neg hover, if_neg hfits, ok_bind, error_bind]

theorem withinLaw_held (hm : memory.WithinLaw law) {slot : Slot} {incoming : Nat}
    (h : memory.bytes slot + incoming ≤ law.cap slot) :
    (memory.held slot incoming).WithinLaw law where
  bytes_le other := by
    by_cases hother : other = slot
    · subst hother
      simpa [held] using h
    · simpa [held, update_of_ne hother] using hm.bytes_le other
  live_eq := by
    have hupdate := live_update memory.live slot true
    have hlive := hm.live_eq
    cases hslot : memory.live slot <;>
      simp only [held, hslot, Bool.toNat_true, Bool.toNat_false, if_true, Bool.false_eq_true,
        if_false] at hupdate ⊢ <;> omega

theorem withinLaw_of_hold (hm : memory.WithinLaw law) {slot : Slot} {incoming : Nat}
    {memory' : VerificationMemory} (h : memory.hold law slot incoming = .ok memory') :
    memory'.WithinLaw law ∧ memory' = memory.held slot incoming := by
  rw [hold_eq hm] at h
  split_ifs at h with hfits
  cases h
  exact ⟨withinLaw_held hm hfits, rfl⟩

theorem withinLaw_release (hm : memory.WithinLaw law) (slot : Slot) (bytes : Nat) :
    (memory.release slot bytes).WithinLaw law := by
  have hle := hm.bytes_le
  unfold release
  split_ifs with h
  · refine ⟨fun other => ?_, ?_⟩
    · by_cases hother : other = slot
      · subst hother
        simp
      · simpa [update_of_ne hother] using hle other
    · have hupdate := live_update memory.live slot false
      have hlive := hm.live_eq
      rw [h.2] at hupdate
      simp only [Bool.toNat_true, Bool.toNat_false] at hupdate ⊢
      omega
  · refine ⟨fun other => ?_, hm.live_eq⟩
    by_cases hother : other = slot
    · subst hother
      have := hle other
      simp only [update_self]
      omega
    · simpa [update_of_ne hother] using hle other

@[simp] theorem bytes_held (slot other : Slot) (incoming : Nat) :
    (memory.held slot incoming).bytes other =
      if other = slot then memory.bytes slot + incoming else memory.bytes other := by
  simp [held, update_apply]

@[simp] theorem bytes_release (slot other : Slot) (bytes : Nat) :
    (memory.release slot bytes).bytes other =
      if other = slot then memory.bytes slot - bytes else memory.bytes other := by
  unfold release
  by_cases hempty : memory.bytes slot - bytes = 0 ∧ memory.live slot = true
  · rw [if_pos hempty, hempty.1]
    exact update_apply _ _ _ _
  · rw [if_neg hempty]
    exact update_apply _ _ _ _

end VerificationMemory

end Stillflow.Engine
