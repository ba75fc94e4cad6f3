import Stillflow.Engine.Envelope
import Stillflow.Lib.Metered

/-! The charge of the report slots. -/

namespace Stillflow.Engine

open Stillflow.Core Stillflow.Plan Lib Lib.Fallible Lib.Mask List VerificationMemory

def maxSnapshotPartitions : Nat := 16384

def maxReportRows : Nat := maxSnapshotPartitions * reportPackRows

/-- The law with report slots for `MAX_REPORT_ROWS` rows. -/
def ampleLaw : MemoryLaw := memoryLaw (maxReportRows * reportRowEstimateBytes) (by decide)

def VerificationEnv.ample (env : VerificationEnv) : VerificationEnv := { env with law := ampleLaw }

def Pack.valFindingRows : Pack → List ValFindingRow
  | .validationFindings _ _ rows => rows
  | _ => []

def Pack.dupFindingRows : Pack → List DupFindingRow
  | .duplicateFindings _ _ rows => rows
  | _ => []

/-- No finding was handed to the writer. -/
def Unsent (packs : List Pack) : Prop :=
  ∀ pack ∈ packs, pack.valFindingRows = [] ∧ pack.dupFindingRows = []

inductive Report where
  | validation
  | duplicate
  deriving DecidableEq

def Report.slot : Report → Slot
  | .validation => .validation
  | .duplicate => .dedup

def Report.waiting (run : VerificationRun) : Report → Nat
  | .validation => run.valFindings.length
  | .duplicate => run.dupFindings.length

/-- The report slots hold one estimate per finding that waits. -/
structure Charged (run : VerificationRun) : Prop where
  within : run.memory.WithinLaw ampleLaw
  bytes : ∀ report : Report,
    run.memory.bytes report.slot = reportRowEstimateBytes * report.waiting run
  unsent : Unsent run.packs

def FitsPack (run : VerificationRun) : Prop := ∀ report : Report, report.waiting run ≤ reportPackRows

def reportMeter : Meter VerificationRun Fault where
  inv := Charged
  fits := FitsPack
  fault := .error VerificationMemory.slotExceeded

/-- The findings and their charge are as before. -/
structure Untouched (before after : VerificationRun) : Prop where
  within : before.memory.WithinLaw ampleLaw → after.memory.WithinLaw ampleLaw
  bytes : ∀ report : Report, after.memory.bytes report.slot = before.memory.bytes report.slot
  valFindings : after.valFindings = before.valFindings
  dupFindings : after.dupFindings = before.dupFindings
  packs : ∃ more, after.packs = before.packs ++ more ∧ Unsent more

theorem Unsent.append {packs more : List Pack} (h : Unsent packs) (hmore : Unsent more) :
    Unsent (packs ++ more) :=
  forall_mem_append.mpr ⟨h, hmore⟩

theorem unsent_nil : Unsent [] := forall_mem_nil _

namespace Untouched

variable {after : VerificationRun}

theorem of_eq {before : VerificationRun} (hmemory : after.memory = before.memory)
    (hval : after.valFindings = before.valFindings) (hdup : after.dupFindings = before.dupFindings)
    (hpacks : after.packs = before.packs) : Untouched before after where
  within := by
    rw [hmemory]
    exact id
  bytes _ := by rw [hmemory]
  valFindings := hval
  dupFindings := hdup
  packs := ⟨[], by rw [hpacks, append_nil], unsent_nil⟩

theorem refl (run : VerificationRun) : Untouched run run :=
  of_eq rfl rfl rfl rfl

theorem trans {a b c : VerificationRun} (hab : Untouched a b) (hbc : Untouched b c) :
    Untouched a c where
  within h := hbc.within (hab.within h)
  bytes report := (hbc.bytes report).trans (hab.bytes report)
  valFindings := hbc.valFindings.trans hab.valFindings
  dupFindings := hbc.dupFindings.trans hab.dupFindings
  packs := by
    obtain ⟨more, hb, hmore⟩ := hab.packs
    obtain ⟨last, hc, hlast⟩ := hbc.packs
    exact ⟨more ++ last, by rw [hc, hb, append_assoc], hmore.append hlast⟩

theorem waiting {before : VerificationRun} (h : Untouched before after) (report : Report) :
    report.waiting after = report.waiting before := by
  cases report with
  | validation => exact congrArg List.length h.valFindings
  | duplicate => exact congrArg List.length h.dupFindings

theorem charged {before : VerificationRun} (h : Untouched before after) (hc : Charged before) :
    Charged after where
  within := h.within hc.within
  bytes report := by rw [h.bytes, hc.bytes, h.waiting]
  unsent := by
    obtain ⟨more, hpacks, hmore⟩ := h.packs
    rw [hpacks]
    exact hc.unsent.append hmore

theorem fits_iff {before : VerificationRun} (h : Untouched before after) :
    FitsPack after ↔ FitsPack before := by
  simp only [FitsPack, h.waiting]

theorem metered {α : Type} {runOf : α → VerificationRun} {before : VerificationRun}
    {x : Except Fault α} (h : ∀ a, x = .ok a → Untouched before (runOf a)) :
    reportMeter.Metered runOf before x x :=
  .same fun a ha hc => ⟨(h a ha).charged hc, (h a ha).fits_iff⟩

theorem before {α : Type} {runOf : α → VerificationRun} {before before' : VerificationRun}
    {tight ample : Except Fault α} (h : Untouched before before')
    (hm : reportMeter.Metered runOf before' tight ample) :
    reportMeter.Metered runOf before tight ample := by
  intro hc a ha
  have hresult := hm (h.charged hc) a ha
  exact ⟨hresult.inv, fun hfits => h.fits_iff.mp (hresult.fits_before hfits), hresult.ok,
    fun hfits => hresult.fault (h.fits_iff.mpr hfits)⟩

end Untouched

/-- A slot that is not a report slot. -/
def Slot.IsPayload (slot : Slot) : Prop := ∀ report : Report, report.slot ≠ slot

variable {slot : Slot} {run : VerificationRun} {report : Report}
  {record : VerificationRun → VerificationRun}

theorem isPayload_of_cap (hval : slot ≠ .validation) (hdedup : slot ≠ .dedup) :
    slot.IsPayload := by
  intro report
  cases report with
  | validation => exact hval.symm
  | duplicate => exact hdedup.symm

theorem untouched_release (run : VerificationRun) (hslot : slot.IsPayload) (bytes : Nat) :
    Untouched run (run.release slot bytes) where
  within h := withinLaw_release h slot bytes
  bytes report := by
    show (run.memory.release slot bytes).bytes report.slot = _
    rw [bytes_release, if_neg (hslot report)]
  valFindings := rfl
  dupFindings := rfl
  packs := ⟨[], (append_nil _).symm, unsent_nil⟩

theorem untouched_emit {env : VerificationEnv} {run' : VerificationRun} {pack : Pack}
    {message : String} (hval : pack.valFindingRows = []) (hdup : pack.dupFindingRows = [])
    (h : run.emit env pack message = .ok run') : Untouched run run' := by
  rw [emit_eq_ok h]
  refine ⟨id, fun _ => rfl, rfl, rfl, [pack], rfl, ?_⟩
  intro other hother
  rw [mem_singleton.mp hother]
  exact ⟨hval, hdup⟩

theorem cap_report (report : Report) :
    verificationLaw.cap report.slot = reportRowEstimateBytes * reportPackRows := by
  cases report <;> decide

theorem cap_payload (hslot : slot.IsPayload) :
    verificationLaw.cap slot = ampleLaw.cap slot := by
  cases slot with
  | validation => exact absurd rfl (hslot .validation)
  | dedup => exact absurd rfl (hslot .duplicate)
  | _ => rfl

/-- A run whose findings fit is within the law of the source as well. -/
theorem Charged.within_tight (hc : Charged run) (hfits : FitsPack run) :
    run.memory.WithinLaw verificationLaw where
  bytes_le slot := by
    have hreport : ∀ report : Report,
        run.memory.bytes report.slot ≤ verificationLaw.cap report.slot := by
      intro report
      rw [cap_report, hc.bytes]
      exact Nat.mul_le_mul_left _ (hfits report)
    cases slot with
    | validation => exact hreport .validation
    | dedup => exact hreport .duplicate
    | _ => exact hc.within.bytes_le _
  live_eq := hc.within.live_eq

theorem metered_hold (run : VerificationRun) (hslot : slot.IsPayload) (bytes : Nat) :
    reportMeter.Metered id run (checked (run.hold verificationLaw slot bytes))
      (checked (run.hold ampleLaw slot bytes)) := by
  intro hc run' hrun'
  obtain ⟨memory, hmemory, rfl⟩ := hold_eq_ok (checked_eq_ok hrun')
  obtain ⟨hwithin, rfl⟩ := withinLaw_of_hold hc.within hmemory
  have huntouched : Untouched run { run with memory := run.memory.held slot bytes } := by
    refine ⟨fun _ => hwithin, fun report => ?_, rfl, rfl, [], (append_nil _).symm, unsent_nil⟩
    show (run.memory.held slot bytes).bytes report.slot = _
    rw [bytes_held, if_neg (hslot report)]
  refine ⟨huntouched.charged hc, huntouched.fits_iff.mp, fun hfits => ?_, fun hb hn =>
    absurd (huntouched.fits_iff.mpr hb) hn⟩
  have htight := hc.within_tight (huntouched.fits_iff.mp hfits)
  rw [hold_eq hc.within] at hmemory
  split_ifs at hmemory with hcap
  rw [← cap_payload hslot] at hcap
  rw [VerificationRun.hold, hold_eq htight, if_pos hcap]
  rfl

theorem checked_hold_report (hc : Charged run) (hfits : FitsPack run) (report : Report) :
    checked (run.hold verificationLaw report.slot reportRowEstimateBytes) =
      if report.waiting run + 1 ≤ reportPackRows then
        .ok { run with memory := run.memory.held report.slot reportRowEstimateBytes }
      else .error (.error slotExceeded) := by
  have hiff : run.memory.bytes report.slot + reportRowEstimateBytes ≤
      verificationLaw.cap report.slot ↔ report.waiting run + 1 ≤ reportPackRows := by
    rw [hc.bytes, cap_report]
    simp only [reportRowEstimateBytes]
    omega
  rw [VerificationRun.hold, hold_eq (hc.within_tight hfits)]
  by_cases hle : report.waiting run + 1 ≤ reportPackRows
  · rw [if_pos hle, if_pos (hiff.mpr hle)]
    rfl
  · rw [if_neg hle, if_neg (fun h => hle (hiff.mp h))]
    rfl

/-- Recording a finding of one kind. -/
structure Records (report : Report) (record : VerificationRun → VerificationRun) : Prop where
  memory : ∀ run, (record run).memory = run.memory
  packs : ∀ run, (record run).packs = run.packs
  waiting : ∀ run (other : Report),
    other.waiting (record run) = other.waiting run + if other = report then 1 else 0

theorem Records.waiting_held (hrecord : Records report record) (run : VerificationRun)
    (other : Report) :
    other.waiting (record { run with
      memory := run.memory.held report.slot reportRowEstimateBytes }) =
      other.waiting run + if other = report then 1 else 0 := by
  rw [hrecord.waiting]
  cases other <;> rfl

theorem Records.charged (hrecord : Records report record) (hc : Charged run)
    (hcap : run.memory.bytes report.slot + reportRowEstimateBytes ≤ ampleLaw.cap report.slot) :
    Charged (record { run with
      memory := run.memory.held report.slot reportRowEstimateBytes }) where
  within := by
    rw [hrecord.memory]
    exact withinLaw_held hc.within hcap
  bytes other := by
    have hinjective : other.slot = report.slot ↔ other = report := by
      cases other <;> cases report <;> decide
    rw [hrecord.memory, hrecord.waiting_held, bytes_held]
    have hold := hc.bytes other
    by_cases hother : other = report
    · subst hother
      rw [if_pos rfl, if_pos rfl, hold, Nat.mul_succ]
    · rw [if_neg (fun h => hother (hinjective.mp h)), if_neg hother, hold, Nat.add_zero]
  unsent := by
    rw [hrecord.packs]
    exact hc.unsent

theorem Records.fits_iff (hrecord : Records report record) (run : VerificationRun) :
    FitsPack (record { run with
      memory := run.memory.held report.slot reportRowEstimateBytes }) ↔
      FitsPack run ∧ report.waiting run + 1 ≤ reportPackRows := by
  simp only [FitsPack, hrecord.waiting_held]
  refine ⟨fun h => ⟨fun other => ?_, ?_⟩, fun h other => ?_⟩
  · have hother := h other
    omega
  · have hreport := h report
    rw [if_pos rfl] at hreport
    exact hreport
  · have hother := h.1 other
    by_cases heq : other = report
    · subst heq
      rw [if_pos rfl]
      exact h.2
    · rw [if_neg heq]
      exact hother

theorem metered_finding (run : VerificationRun) (hrecord : Records report record) :
    reportMeter.Metered id run
      (checked (run.hold verificationLaw report.slot reportRowEstimateBytes) >>= fun held =>
        .ok (record held))
      (checked (run.hold ampleLaw report.slot reportRowEstimateBytes) >>= fun held =>
        .ok (record held)) := by
  intro hc run' hrun'
  obtain ⟨held, hheld, hrun'⟩ := of_bind hrun'
  obtain ⟨memory, hmemory, rfl⟩ := hold_eq_ok (checked_eq_ok hheld)
  rw [hold_eq hc.within] at hmemory
  split_ifs at hmemory with hcap
  cases hmemory
  cases hrun'
  refine ⟨hrecord.charged hc hcap, fun hfits => ((hrecord.fits_iff run).mp hfits).1,
    fun hfits => ?_, fun hbefore hnot => ?_⟩
  · obtain ⟨hbefore, hroom⟩ := (hrecord.fits_iff run).mp hfits
    rw [checked_hold_report hc hbefore, if_pos hroom]
    rfl
  · have hfull : ¬ report.waiting run + 1 ≤ reportPackRows := fun hroom =>
      hnot ((hrecord.fits_iff run).mpr ⟨hbefore, hroom⟩)
    rw [checked_hold_report hc hbefore, if_neg hfull]
    rfl

theorem records_addFinding (finding : ValFindingRow) :
    Records .validation fun run => run.addFinding finding where
  memory _ := rfl
  packs _ := rfl
  waiting run other := by
    cases other <;> simp [Report.waiting, VerificationRun.addFinding]

theorem records_addDuplicate (finding : DupFindingRow) :
    Records .duplicate fun run => run.addDuplicate finding where
  memory _ := rfl
  packs _ := rfl
  waiting run other := by
    cases other <;> simp [Report.waiting, VerificationRun.addDuplicate]

end Stillflow.Engine
