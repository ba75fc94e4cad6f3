import Stillflow.Engine.Envelope
import Stillflow.Lib.Visits

/-! Conservation of rows. -/

namespace Stillflow.Engine

open Stillflow.Core Stillflow.Plan Lib.Fallible Lib.Mask Lib.Visits List

variable {alive dropped rejected : List Nat} {batch : RecordBatch} {entries : List RejectedEntry}
  {env : VerificationEnv} {run : VerificationRun} {scan : List Row} {start : Nat} {state : Routing}

structure Visit where
  origin : Origin
  state : Routing
  step : VStep

def Visit.Fits (v : Visit) : Prop := v.step.Fits v.state.window

/-- The visit drops the row with this ordinal. -/
def Visit.Drops (v : Visit) (env : VerificationEnv) (ordinal : Nat) : Prop :=
  ∃ row position, (row, position, ordinal) ∈ v.state.window.frame.rows.zip v.state.window.sidecar ∧
    FailsFilter env v.state.window.schema v.step row

/-- The visits of the routing steps over one window. -/
def windowVisits (env : VerificationEnv) (origin : Origin) (state : Routing) : List Visit :=
  (visits (runStep env origin) env.routingSteps state).map fun v => ⟨origin, v.1, v.2⟩

def envelopeVisits (env : VerificationEnv) (run : VerificationRun) (envelope : BatchEnvelope) :
    List Visit :=
  match openEnvelope env run envelope with
  | .error _ => []
  | .ok opened =>
    if 0 < opened.batch.height then
      match opened.run.hold env.law .polars
          (env.polars.estimatedSize (onlyWindow env opened).frame) with
      | .error _ => []
      | .ok held => windowVisits env ⟨opened.batch, 0⟩ ⟨held, onlyWindow env opened⟩
    else []

/-- The scan output rows of one envelope. -/
def envelopeScan (env : VerificationEnv) (run : VerificationRun) (envelope : BatchEnvelope) :
    List Row :=
  match openEnvelope env run envelope with
  | .error _ => []
  | .ok opened => opened.batch.rows

/-- All visits of the routing steps in a run. -/
def VerificationEnv.runVisits (env : VerificationEnv) (envelopes : List BatchEnvelope) :
    List Visit :=
  (visits (processEnvelope env) envelopes env.start).flatMap fun v => envelopeVisits env v.1 v.2

/-- The scan output of a run; a row's ordinal is its position. -/
def VerificationEnv.scanRows (env : VerificationEnv) (envelopes : List BatchEnvelope) :
    List Row :=
  (visits (processEnvelope env) envelopes env.start).flatMap fun v => envelopeScan env v.1 v.2

theorem mem_envelopeVisits {envelope : BatchEnvelope} {opened : OpenedEnvelope}
    {held : VerificationRun} (hopened : openEnvelope env run envelope = .ok opened)
    (hheight : 0 < opened.batch.height)
    (hheld : opened.run.hold env.law .polars
      (env.polars.estimatedSize (onlyWindow env opened).frame) = .ok held) :
    envelopeVisits env run envelope =
      windowVisits env ⟨opened.batch, 0⟩ ⟨held, onlyWindow env opened⟩ := by
  unfold envelopeVisits
  rw [hopened]
  simp only [hheight, if_true, hheld]

/-- An invariant over the visits of a run: it does not speak about accepted rows and the next
ordinal, and each visited step extends it. -/
theorem streamVerification_history (Inv : List Visit → Ledger → Prop) (P : Visit → Prop)
    (hledger : ∀ {past : List Visit} {ledger : Ledger} (n : Nat) (rows : List Row),
      Inv past ledger → Inv past { ledger with nextOrdinal := n, accepted := rows })
    (hstep : ∀ {past : List Visit} {origin : Origin} {state state' : Routing} {step : VStep},
      step ∈ env.routingSteps → P ⟨origin, state, step⟩ → state.window.Aligned →
      Inv past state.run.ledger → runStep env origin state step = .ok state' →
      state'.window.Aligned ∧ Inv (past ++ [⟨origin, state, step⟩]) state'.run.ledger)
    {envelopes : List BatchEnvelope} (hstart : Inv [] env.start.ledger)
    (hvisits : ∀ v ∈ env.runVisits envelopes, P v)
    (h : streamVerification env envelopes env.start = .ok run) :
    Inv (env.runVisits envelopes) run.ledger := by
  refine foldlM_history
    (fun (past : List (VerificationRun × BatchEnvelope)) current =>
      Inv (past.flatMap fun v => envelopeVisits env v.1 v.2) current.ledger)
    (fun v => ∀ visit ∈ envelopeVisits env v.1 v.2, P visit) hstart ?_
    (fun v hv visit hvisit => hvisits visit (mem_flatMap.mpr ⟨v, hv, hvisit⟩)) h
  intro past current envelope next hcurrent hP hnext
  rw [flatMap_append, flatMap_singleton]
  generalize (past.flatMap fun v => envelopeVisits env v.1 v.2) = past at hcurrent ⊢
  obtain ⟨opened, hopened, hcase⟩ := processEnvelope_eq_ok hnext
  have ho := openEnvelope_eq_ok hopened
  have hopening : Inv past opened.run.ledger := by
    rw [ho.ledger]
    exact hledger _ current.ledger.accepted hcurrent
  rcases hcase with ⟨hheight, rfl⟩ | ⟨hheight, held, state, routed, hheld, hsteps, haccept, rfl⟩
  · have hnone : envelopeVisits env current envelope = [] := by
      unfold envelopeVisits
      rw [hopened]
      simp [hheight]
    rw [hnone, append_nil, drop_ledger]
    exact hopening
  · rw [mem_envelopeVisits hopened hheight hheld] at hP ⊢
    -- the window's visits, on top of those of the envelopes before it
    have hwindow := foldlM_history
      (fun (wpast : List (Routing × VStep)) (current : Routing) => current.window.Aligned ∧
        Inv (past ++ wpast.map fun v => ⟨⟨opened.batch, 0⟩, v.1, v.2⟩) current.run.ledger)
      (fun v => v.2 ∈ env.routingSteps ∧ P ⟨⟨opened.batch, 0⟩, v.1, v.2⟩)
      ⟨onlyWindow_aligned ho, by simpa [hold_ledger hheld] using hopening⟩ ?_
      (fun v hv => ⟨mem_of_visits hv, hP _ (mem_map_of_mem hv)⟩) hsteps
    · obtain ⟨_, _, -, -, htail⟩ := acceptSurvivors_eq_ok haccept
      have hinv := hledger state.run.ledger.nextOrdinal routed.ledger.accepted hwindow.2
      rw [drop_ledger, htail.others]
      exact hinv
    · intro wpast state step state' hinv hvisit hrun
      rw [map_append, ← append_assoc]
      exact hstep hvisit.1 hvisit.2 hinv.1 hinv.2 hrun

/-- The row is what the visited steps make of the scan output row at a position. -/
def ScanImage (env : VerificationEnv) (batch : RecordBatch) (past : List (Routing × VStep))
    (i : Nat) (row : Row) : Prop :=
  ∃ scanRow, batch.rows[i]? = some scanRow ∧
    RowPath env.polars (past.map fun v => (v.2, v.1.window.schema)) scanRow row

theorem ScanImage.snoc {past : List (Routing × VStep)} {step : VStep} {i : Nat} {row row' : Row}
    (h : ScanImage env batch past i row)
    (hstep : StepImage env.polars state.window.schema step row row') :
    ScanImage env batch (past ++ [(state, step)]) i row' := by
  obtain ⟨scanRow, hscan, hpath⟩ := h
  refine ⟨scanRow, hscan, ?_⟩
  rw [map_append, map_singleton]
  exact hpath.snoc hstep

/-- Where the rows of the scan output are while their window is routed. -/
structure Routed (env : VerificationEnv) (batch : RecordBatch) (start : Nat) (base : Ledger)
    (past : List (Routing × VStep)) (state : Routing) (alive rejected dropped : List Nat)
    (entries : List RejectedEntry) : Prop where
  aligned : state.window.Aligned
  sidecar : state.window.sidecar = alive.map fun i => (i, start + i)
  ordered : alive.Sublist (range batch.height)
  perm : (alive ++ rejected ++ dropped).Perm (range batch.height)
  rows : Forall₂ (ScanImage env batch past) alive state.window.frame.rows
  ledger : state.run.ledger.rejected = base.rejected ++ entries
  entries : Forall₂ (fun i entry => entry.ordinal = start + i ∧
    entry.payload.rows = (batch.rows[i]?).toList) rejected entries
  dropped : ∀ i ∈ dropped, ∃ v ∈ past,
    Visit.Drops ⟨⟨batch, 0⟩, v.1, v.2⟩ env (start + i)
  nextOrdinal : state.run.ledger.nextOrdinal = base.nextOrdinal
  accepted : state.run.ledger.accepted = base.accepted

theorem routed_open (env : VerificationEnv) (ha : state.window.Aligned)
    (hrows : state.window.frame.rows = batch.rows)
    (hsidecar : state.window.sidecar = (range batch.height).map fun i => (i, start + i)) :
    Routed env batch start state.run.ledger [] state (range batch.height) [] [] [] where
  aligned := ha
  sidecar := hsidecar
  ordered := Sublist.refl _
  perm := by simp
  rows := by
    rw [hrows, forall₂_iff_get]
    refine ⟨by simp [Frame.height], fun i h₁ h₂ => ⟨batch.rows[i], ?_, ?_⟩⟩
    · simp
    · exact .nil _
  ledger := by simp
  entries := .nil
  dropped := by simp
  nextOrdinal := rfl
  accepted := rfl

theorem exists_mem_zip {α β : Type} {xs : List α} {ys : List β} (h : xs.length = ys.length)
    {b : β} (hb : b ∈ ys) : ∃ a, (a, b) ∈ xs.zip ys := by
  obtain ⟨i, hi, rfl⟩ := mem_iff_getElem.mp hb
  have hx : i < xs.length := h ▸ hi
  refine ⟨xs[i], mem_iff_getElem.mpr ⟨i, by simpa using ⟨hx, hi⟩, by simp⟩⟩

theorem exists_ended {window : Window} (ha : window.Aligned) (ended : List Bool)
    {entry : Nat × Nat} (hentry : entry ∈ keep ended window.sidecar) :
    ∃ row, row ∈ keep ended window.frame.rows ∧
      (row, entry) ∈ window.frame.rows.zip window.sidecar := by
  have hlen : window.frame.rows.length = window.sidecar.length := ha.sidecar.symm
  obtain ⟨row, hrow⟩ := exists_mem_zip (length_keep_eq ended hlen) hentry
  refine ⟨row, (of_mem_zip hrow).1, ?_⟩
  rw [← keep_zip ended _ _ hlen] at hrow
  exact (keep_sublist ended _).subset hrow

theorem perm_ended {mask : List Bool} {alive rejected dropped all : List Nat}
    (hlen : mask.length = alive.length) (h : (alive ++ rejected ++ dropped).Perm all) :
    (keep mask alive ++ rejected ++ dropped ++ keep (mask.map not) alive).Perm all := by
  refine Perm.trans ?_ h
  have hsplit := (keep_append_perm hlen).symm
  have hmoved := (hsplit.append_right rejected).append_right dropped
  refine Perm.trans ?_ hmoved.symm
  rw [perm_iff_count]
  intro i
  simp only [count_append]
  omega

theorem Routed.step {base : Ledger} {past : List (Routing × VStep)} {state state' : Routing}
    {step : VStep} {mask : List Bool}
    (hr : Routed env batch start base past state alive rejected dropped entries)
    (he : StepEffect env ⟨batch, 0⟩ step mask state state') :
    ∃ rejected' dropped' entries', Routed env batch start base (past ++ [(state, step)]) state'
      (keep mask alive) rejected' dropped' entries' := by
  have hsidecar := hr.aligned.sidecar
  rw [hr.sidecar, length_map] at hsidecar
  have hperm := perm_ended (he.length.trans hsidecar.symm) hr.perm
  have hsidecar' : state'.window.sidecar = (keep mask alive).map fun i => (i, start + i) := by
    rw [he.sidecar, hr.sidecar, keep_map]
  have haligned : state'.window.Aligned := by
    refine ⟨?_, he.counts⟩
    rw [he.sidecar, Frame.height, ← he.rows.length_eq]
    exact length_keep_eq mask hr.aligned.sidecar
  have hordered := (keep_sublist mask alive).trans hr.ordered
  have hrows : Forall₂ (ScanImage env batch (past ++ [(state, step)])) (keep mask alive)
      state'.window.frame.rows :=
    forall₂_trans (fun _ _ _ hmid hstep => hmid.snoc hstep) (keep_forall₂ hr.rows mask) he.rows
  have hnext := he.nextOrdinal.trans hr.nextOrdinal
  have haccepted := he.accepted.trans hr.accepted
  have hended : keep (mask.map not) state.window.sidecar =
      (keep (mask.map not) alive).map fun i => (i, start + i) := by rw [hr.sidecar, keep_map]
  have hdropped : ∀ i ∈ dropped, ∃ v ∈ past ++ [(state, step)],
      Visit.Drops ⟨⟨batch, 0⟩, v.1, v.2⟩ env (start + i) := by
    intro i hi
    obtain ⟨v, hv, hdrops⟩ := hr.dropped i hi
    exact ⟨v, mem_append_left _ hv, hdrops⟩
  rcases he.ends with ⟨hledger, hfails⟩ | ⟨cause, hledger⟩
  · refine ⟨rejected, dropped ++ keep (mask.map not) alive, entries, haligned, hsidecar', hordered,
      ?_, hrows, hledger.trans hr.ledger, hr.entries, ?_, hnext, haccepted⟩
    · rw [← append_assoc]
      exact hperm
    · intro i hi
      rcases mem_append.mp hi with hi | hi
      · exact hdropped i hi
      · have hentry : (i, start + i) ∈ keep (mask.map not) state.window.sidecar := by
          rw [hended]
          exact mem_map_of_mem hi
        obtain ⟨row, hrow, hzip⟩ := exists_ended hr.aligned _ hentry
        exact ⟨(state, step), by simp, row, i, hzip, hfails row hrow⟩
  · refine ⟨rejected ++ keep (mask.map not) alive, dropped, entries ++
      (keep (mask.map not) state.window.sidecar).map (rejectionEntry env ⟨batch, 0⟩ cause),
      haligned, hsidecar', hordered, ?_, hrows, ?_, ?_, hdropped, hnext, haccepted⟩
    · refine Perm.trans ?_ hperm
      rw [perm_iff_count]
      intro i
      simp only [count_append]
      omega
    · rw [hledger, hr.ledger, append_assoc]
    · refine rel_append hr.entries ?_
      rw [hended, map_map, forall₂_map_right_iff]
      refine forall₂_same.mpr fun i _ => ⟨rfl, ?_⟩
      simp [rejectionEntry, rejectedEntry]

theorem routed_steps {state state' : Routing} (hproduct : ∀ step ∈ env.routingSteps, step.IsProduct)
    (ha : state.window.Aligned) (hrows : state.window.frame.rows = batch.rows)
    (hsidecar : state.window.sidecar = (range batch.height).map fun i => (i, start + i))
    (hfits : ∀ v ∈ windowVisits env ⟨batch, 0⟩ state, v.Fits)
    (h : env.routingSteps.foldlM (runStep env ⟨batch, 0⟩) state = .ok state') :
    ∃ alive rejected dropped entries, Routed env batch start state.run.ledger
      (visits (runStep env ⟨batch, 0⟩) env.routingSteps state) state'
      alive rejected dropped entries := by
  refine foldlM_history
    (fun past current => ∃ alive rejected dropped entries,
      Routed env batch start state.run.ledger past current alive rejected dropped entries)
    (fun v => v.2.IsProduct ∧ v.2.Fits v.1.window)
    ⟨_, _, _, _, routed_open env ha hrows hsidecar⟩ ?_ ?_ h
  · intro past current step next hcurrent hvisit hstep
    obtain ⟨alive, rejected, dropped, entries, hr⟩ := hcurrent
    obtain ⟨mask, he⟩ := runStep_effect hvisit.1 hr.aligned hvisit.2 hstep
    exact ⟨_, hr.step he⟩
  · intro v hv
    refine ⟨hproduct _ (mem_of_visits hv), ?_⟩
    exact hfits ⟨⟨batch, 0⟩, v.1, v.2⟩ (mem_map_of_mem hv)

/-- The accepted row is exported from what the routing steps make of the scan output row with
this ordinal. -/
def AcceptedAs (env : VerificationEnv) (scan : List Row) (ordinal : Nat) (row : Row) : Prop :=
  ∃ scanRow path mid frame deferred columns, scan[ordinal]? = some scanRow ∧
    path.map Prod.fst = env.routingSteps ∧ RowPath env.polars path scanRow mid ∧
    mid ∈ frame.rows ∧
    env.prepared.materializeSchema.fields.mapM (exportColumn frame deferred) = .ok columns ∧
    exportRow columns mid = .ok row

/-- Every ordinal of the scan output is accepted, rejected or dropped, and only once. -/
structure Conserved (env : VerificationEnv) (past : List Visit) (scan : List Row)
    (ledger : Ledger) (accepted dropped : List Nat) (rows : List Row) : Prop where
  count : ledger.nextOrdinal = scan.length
  routed : (accepted ++ ledger.rejected.map (·.ordinal) ++ dropped).Perm (range scan.length)
  ordered : accepted.Pairwise (· < ·)
  images : Forall₂ (AcceptedAs env scan) accepted rows
  kept : ledger.accepted.Sublist rows
  written : env.reuseAcceptedSnapshot = false → ledger.accepted = rows
  rejected : ∀ entry ∈ ledger.rejected, ∃ row, scan[entry.ordinal]? = some row ∧
    entry.payload.rows = [row]
  dropped : ∀ ordinal ∈ dropped, ∃ v ∈ past, v.Drops env ordinal

theorem conserved_start (env : VerificationEnv) :
    Conserved env [] [] env.start.ledger [] [] [] where
  count := rfl
  routed := by simp [VerificationRun.ledger, VerificationEnv.start]
  ordered := .nil
  images := .nil
  kept := by simp [VerificationRun.ledger, VerificationEnv.start]
  written := by simp [VerificationRun.ledger, VerificationEnv.start]
  rejected := by simp [VerificationRun.ledger, VerificationEnv.start]
  dropped := by simp

theorem AcceptedAs.append {ordinal : Nat} {row : Row} (h : AcceptedAs env scan ordinal row)
    (more : List Row) : AcceptedAs env (scan ++ more) ordinal row := by
  obtain ⟨scanRow, path, mid, frame, deferred, columns, hscan, hrest⟩ := h
  refine ⟨scanRow, path, mid, frame, deferred, columns, ?_, hrest⟩
  rw [List.getElem?_append_left (List.getElem?_eq_some_iff.mp hscan).1, hscan]

/-- The rows of one more window. -/
structure WindowRouted (env : VerificationEnv) (past : List Visit) (scan : List Row)
    (batch : RecordBatch) (ledger ledger' : Ledger) (alive rejected dropped : List Nat)
    (entries : List RejectedEntry) (exported : List Row) : Prop where
  count : ledger'.nextOrdinal = scan.length + batch.height
  ordered : alive.Sublist (range batch.height)
  perm : (alive ++ rejected ++ dropped).Perm (range batch.height)
  images : Forall₂ (fun i row => AcceptedAs env (scan ++ batch.rows) (scan.length + i) row)
    alive exported
  kept : ledger'.accepted.Sublist (ledger.accepted ++ exported)
  written : env.reuseAcceptedSnapshot = false → ledger'.accepted = ledger.accepted ++ exported
  ledger : ledger'.rejected = ledger.rejected ++ entries
  entries : Forall₂ (fun i entry => entry.ordinal = scan.length + i ∧
    entry.payload.rows = (batch.rows[i]?).toList) rejected entries
  dropped : ∀ i ∈ dropped, ∃ v ∈ past, v.Drops env (scan.length + i)

theorem forall₂_mem_left {α β : Type} {R : α → β → Prop} {xs : List α} {ys : List β}
    (h : Forall₂ R xs ys) : Forall₂ (fun x y => x ∈ xs ∧ R x y) xs ys := by
  rw [forall₂_iff_get] at h ⊢
  exact ⟨h.1, fun i h₁ h₂ => ⟨get_mem xs ⟨i, h₁⟩, h.2 i h₁ h₂⟩⟩

theorem perm_shift {accepted rejected dropped alive rejected' dropped' : List Nat} {n k : Nat}
    (hold : (accepted ++ rejected ++ dropped).Perm (range n))
    (hnew : (alive ++ rejected' ++ dropped').Perm (range k)) :
    ((accepted ++ alive.map (n + ·)) ++ (rejected ++ rejected'.map (n + ·)) ++
      (dropped ++ dropped'.map (n + ·))).Perm (range (n + k)) := by
  have hboth := hold.append (hnew.map (n + ·))
  rw [range_add]
  refine Perm.trans ?_ hboth
  rw [perm_iff_count]
  intro i
  simp only [count_append, map_append]
  omega

theorem Conserved.extend {past more : List Visit} {ledger ledger' : Ledger}
    {accepted dropped alive rejected ended : List Nat} {rows exported : List Row}
    (hc : Conserved env past scan ledger accepted dropped rows)
    (hw : WindowRouted env more scan batch ledger ledger' alive rejected ended entries exported) :
    Conserved env (past ++ more) (scan ++ batch.rows) ledger'
      (accepted ++ alive.map (scan.length + ·)) (dropped ++ ended.map (scan.length + ·))
      (rows ++ exported) := by
  have hentries : entries.map (·.ordinal) = rejected.map (scan.length + ·) := by
    have hmap := hw.entries
    clear hw
    induction hmap with
    | nil => rfl
    | cons hentry _ ih => rw [map_cons, map_cons, ih, hentry.1]
  have hlength : (scan ++ batch.rows).length = scan.length + batch.height := length_append
  have hbelow : ∀ ordinal ∈ accepted, ordinal < scan.length := by
    intro ordinal hordinal
    have hmem := hc.routed.subset
      (mem_append_left _ (mem_append_left _ hordinal))
    exact mem_range.mp hmem
  refine ⟨hw.count.trans hlength.symm, ?_, ?_, ?_, ?_, ?_, ?_, ?_⟩
  · rw [hw.ledger, map_append, hentries, hlength]
    exact perm_shift hc.routed hw.perm
  · rw [pairwise_append]
    refine ⟨hc.ordered, ?_, ?_⟩
    · rw [pairwise_map]
      have hrange := pairwise_lt_range.sublist hw.ordered
      exact hrange.imp fun hlt => by omega
    · intro a ha b hb
      obtain ⟨i, -, rfl⟩ := mem_map.mp hb
      have hlt := hbelow a ha
      omega
  · refine rel_append (hc.images.imp fun _ _ h => h.append _) ?_
    rw [forall₂_map_left_iff]
    exact hw.images
  · exact hw.kept.trans (hc.kept.append (Sublist.refl _))
  · intro hreuse
    rw [hw.written hreuse, hc.written hreuse]
  · intro entry hentry
    rw [hw.ledger] at hentry
    rcases mem_append.mp hentry with hold | hnew
    · obtain ⟨row, hrow, hpayload⟩ := hc.rejected entry hold
      refine ⟨row, ?_, hpayload⟩
      rw [List.getElem?_append_left (List.getElem?_eq_some_iff.mp hrow).1, hrow]
    · obtain ⟨i, hi, hordinal, hpayload⟩ := exists_of_forall₂_right hw.entries hnew
      have hrange := hw.perm.subset (mem_append_left _ (mem_append_right _ hi))
      have hin : i < batch.rows.length := mem_range.mp hrange
      refine ⟨batch.rows[i], ?_, ?_⟩
      · rw [hordinal, getElem?_append_right (Nat.le_add_right _ _), Nat.add_sub_cancel_left,
          getElem?_eq_getElem hin]
      · rw [hpayload, getElem?_eq_getElem hin, Option.toList_some]
  · intro ordinal hordinal
    rcases mem_append.mp hordinal with hold | hnew
    · obtain ⟨v, hv, hdrops⟩ := hc.dropped ordinal hold
      exact ⟨v, mem_append_left _ hv, hdrops⟩
    · obtain ⟨i, hi, rfl⟩ := mem_map.mp hnew
      obtain ⟨v, hv, hdrops⟩ := hw.dropped i hi
      exact ⟨v, mem_append_right _ hv, hdrops⟩

theorem acceptedAs_of_routed {base : Ledger} {opening state : Routing} {columns : List ExportColumn}
    {exported : List Row}
    (hr : Routed env batch scan.length base
      (visits (runStep env ⟨batch, 0⟩) env.routingSteps opening) state alive rejected dropped
      entries)
    (hsteps : env.routingSteps.foldlM (runStep env ⟨batch, 0⟩) opening = .ok state)
    (hcolumns : 0 < state.window.frame.height → env.prepared.materializeSchema.fields.mapM
      (exportColumn state.window.frame state.window.deferred) = .ok columns)
    (hexported : Forall₂ (fun row row' => exportRow columns row = .ok row')
      state.window.frame.rows exported) :
    Forall₂ (fun i row => AcceptedAs env (scan ++ batch.rows) (scan.length + i) row) alive
      exported := by
  refine forall₂_trans ?_ hr.rows (forall₂_mem_left hexported)
  intro i mid row himage hrow
  obtain ⟨scanRow, hscan, hpath⟩ := himage
  refine ⟨scanRow, _, mid, state.window.frame, state.window.deferred, columns, ?_, ?_, hpath,
    hrow.1, hcolumns (length_pos_of_mem hrow.1), hrow.2⟩
  · rw [getElem?_append_right (Nat.le_add_right _ _), Nat.add_sub_cancel_left, hscan]
  · rw [map_map]
    exact visits_map_snd hsteps

theorem processEnvelope_routed {run run' : VerificationRun} {envelope : BatchEnvelope}
    (hproduct : ∀ step ∈ env.routingSteps, step.IsProduct)
    (hcount : run.ledger.nextOrdinal = scan.length)
    (hfits : ∀ v ∈ envelopeVisits env run envelope, v.Fits)
    (h : processEnvelope env run envelope = .ok run') :
    ∃ batch alive rejected dropped entries exported,
      envelopeScan env run envelope = batch.rows ∧
      WindowRouted env (envelopeVisits env run envelope) scan batch run.ledger run'.ledger
        alive rejected dropped entries exported := by
  obtain ⟨opened, hopened, hcase⟩ := processEnvelope_eq_ok h
  have ho := openEnvelope_eq_ok hopened
  have hscan : envelopeScan env run envelope = opened.batch.rows := by
    rw [envelopeScan, hopened]
  have hstart : run.nextOrdinal = scan.length := hcount
  rcases hcase with ⟨hheight, rfl⟩ | ⟨hheight, held, state, routed, hheld, hsteps, haccept, rfl⟩
  · refine ⟨opened.batch, [], [], [], [], [], hscan, ?_, nil_sublist _, ?_, .nil, ?_, ?_, ?_,
      .nil, by simp⟩
    · rw [drop_ledger, ho.ledger, hstart]
    · rw [hheight]
      exact Perm.refl _
    · rw [drop_ledger, ho.ledger, append_nil]
    · intro _
      rw [drop_ledger, ho.ledger, append_nil]
    · rw [drop_ledger, ho.ledger, append_nil]
  · have hvisits := mem_envelopeVisits hopened hheight hheld
    have hwindow : onlyWindow env opened = _ := onlyWindow_eq ho
    have hheldLedger := hold_ledger hheld
    rw [hvisits] at hfits
    have hsidecar : (onlyWindow env opened).sidecar =
        (range opened.batch.height).map fun i => (i, scan.length + i) := by
      rw [hwindow, ho.sidecar, hstart]
    obtain ⟨alive, rejected, dropped, entries, hr⟩ := routed_steps hproduct
      (onlyWindow_aligned ho) (by rw [hwindow]) hsidecar hfits hsteps
    obtain ⟨columns, exported, hcolumns, hexported, htail⟩ := acceptSurvivors_eq_ok haccept
    have hothers := htail.others
    have hpast : ∀ i ∈ dropped, ∃ v ∈ envelopeVisits env run envelope,
        v.Drops env (scan.length + i) := by
      intro i hi
      obtain ⟨v, hv, hdrops⟩ := hr.dropped i hi
      rw [hvisits]
      exact ⟨_, mem_map_of_mem hv, hdrops⟩
    have haccepted : state.run.ledger.accepted = run.ledger.accepted := by
      rw [hr.accepted, hheldLedger, ho.ledger]
    refine ⟨opened.batch, alive, rejected, dropped, entries, exported, hscan, ?_, hr.ordered,
      hr.perm, ?_, ?_, ?_, ?_, hr.entries, hpast⟩
    · rw [drop_ledger, hothers, hr.nextOrdinal, hheldLedger, ho.ledger, hstart]
    · exact acceptedAs_of_routed hr hsteps hcolumns hexported
    · rw [drop_ledger, ← haccepted]
      exact htail.sublist
    · intro hreuse
      rw [drop_ledger, htail.written hreuse, haccepted]
    · rw [drop_ledger, hothers, hr.ledger, hheldLedger, ho.ledger]

/-- Every ordinal is routed exactly once in a run whose visited steps all fit. -/
theorem streamVerification_conserved {envelopes : List BatchEnvelope}
    (hproduct : ∀ step ∈ env.routingSteps, step.IsProduct)
    (hfits : ∀ v ∈ env.runVisits envelopes, v.Fits)
    (h : streamVerification env envelopes env.start = .ok run) :
    ∃ accepted dropped rows, Conserved env (env.runVisits envelopes) (env.scanRows envelopes)
      run.ledger accepted dropped rows := by
  refine foldlM_history
    (fun (past : List (VerificationRun × BatchEnvelope)) current => ∃ accepted dropped rows,
      Conserved env (past.flatMap fun v => envelopeVisits env v.1 v.2)
        (past.flatMap fun v => envelopeScan env v.1 v.2) current.ledger accepted dropped rows)
    (fun v => ∀ visit ∈ envelopeVisits env v.1 v.2, visit.Fits)
    ⟨_, _, _, conserved_start env⟩ ?_ ?_ h
  · intro past current envelope next hcurrent hvisit hnext
    obtain ⟨accepted, dropped, rows, hc⟩ := hcurrent
    obtain ⟨batch, alive, rejected, ended, entries, exported, hscan, hw⟩ :=
      processEnvelope_routed hproduct hc.count hvisit hnext
    rw [flatMap_append, flatMap_append, flatMap_singleton, flatMap_singleton,
      hscan]
    exact ⟨_, _, _, hc.extend hw⟩
  · intro v hv visit hvisit
    exact hfits visit (mem_flatMap.mpr ⟨v, hv, hvisit⟩)

end Stillflow.Engine
