import Stillflow.Engine.RowRouting

/-! The columns of a compacted frame. -/

namespace Stillflow.Engine

open Stillflow.Core Stillflow.Plan Lib.Fallible Lib.Mask List

/-- Every row has exactly the frame's columns, in their order. -/
def Frame.Rectangular (frame : Frame) : Prop := ∀ row ∈ frame.rows, row.map Prod.fst = frame.names

/-- The same columns over the rows a mask keeps. -/
def Frame.kept (mask : List Bool) (frame : Frame) : Frame := ⟨frame.names, keep mask frame.rows⟩

/-- What a compaction owes: the frame's columns over the kept rows, and sidecars with one entry per
remaining row, each the entry its row had before. -/
structure KeepsColumns (mask : List Bool) (window window' : Window) : Prop where
  frame : window'.frame = window.frame.kept mask
  aligned : window'.Aligned
  entries : window'.frame.rows.zip window'.sidecar =
    keep mask (window.frame.rows.zip window.sidecar)
  counters : window'.frame.rows.zip window'.findingsPerRow =
    keep mask (window.frame.rows.zip window.findingsPerRow)

theorem dropCell_of_notMem {name : String} {row : Row} (h : name ∉ row.map Prod.fst) :
    dropCell name row = row := by
  unfold dropCell
  rw [filter_eq_self]
  intro cell hcell
  have hne : cell.1 ≠ name := fun heq => h (mem_map.mpr ⟨cell, hcell, heq⟩)
  simpa using hne

theorem dropMask_kept_iff {frame : Frame} (hrect : frame.Rectangular) (mask : List Bool) :
    (frame.kept mask).dropMask = frame.kept mask ↔ "keep" ∉ frame.names := by
  constructor
  · intro h hmem
    have hnames : frame.names.filter (· ≠ "keep") = frame.names := congrArg Frame.names h
    have hne := filter_eq_self.mp hnames "keep" hmem
    simp at hne
  · intro hnot
    have hnames : frame.names.filter (· ≠ "keep") = frame.names := by
      rw [filter_eq_self]
      intro name hname
      have hne : name ≠ "keep" := fun heq => hnot (heq ▸ hname)
      simpa using hne
    have hrows : (keep mask frame.rows).map (dropCell "keep") = keep mask frame.rows := by
      rw [map_congr_left fun row hrow => dropCell_of_notMem ?_, map_id']
      have hmem : row ∈ frame.rows := (keep_sublist mask frame.rows).subset hrow
      rwa [hrect row hmem]
    unfold Frame.dropMask Frame.kept
    rw [hnames, hrows]

variable {mask : List Bool} {window : Window}

theorem compactAlive_of_length {env : VerificationEnv} (ha : window.Aligned)
    (hlen : mask.length = window.frame.height) (hsome : mask.all id = false) :
    compactAlive env window mask = .ok { window with
      frame := (window.frame.kept mask).dropMask
      sidecar := keep mask window.sidecar
      findingsPerRow := keep mask window.findingsPerRow } := by
  have hsidecar : keepIndexed mask window.sidecar = .ok (keep mask window.sidecar) :=
    keepIndexed_of_le (by rw [hlen, ha.sidecar])
  have hcounts : keepIndexed mask window.findingsPerRow = .ok (keep mask window.findingsPerRow) :=
    keepIndexed_of_le (by rw [hlen, ha.counts])
  unfold compactAlive
  rw [if_neg (by simp [hsome]), takeSurviving_of_length hlen, hsidecar, hcounts]
  rfl

theorem keepsColumns_of_all (ha : window.Aligned) (hlen : mask.length = window.frame.height)
    (hall : mask.all id = true) :
    KeepsColumns mask window window where
  frame := by
    have hrows : keep mask window.frame.rows = window.frame.rows := keep_of_all hall hlen
    unfold Frame.kept
    rw [hrows]
  aligned := ha
  entries := by
    refine (keep_of_all hall ?_).symm
    rw [length_zip, ha.sidecar, hlen, Frame.height, Nat.min_self]
  counters := by
    refine (keep_of_all hall ?_).symm
    rw [length_zip, ha.counts, hlen, Frame.height, Nat.min_self]

theorem keepsColumns_kept (ha : window.Aligned) :
    KeepsColumns mask window { window with
      frame := window.frame.kept mask
      sidecar := keep mask window.sidecar
      findingsPerRow := keep mask window.findingsPerRow } where
  frame := rfl
  aligned := ⟨length_keep_eq mask ha.sidecar, length_keep_eq mask ha.counts⟩
  entries := (keep_zip mask _ _ ha.sidecar.symm).symm
  counters := (keep_zip mask _ _ ha.counts.symm).symm

/-- For every window and every mask of its height: `take_surviving` yields the frame's columns over
the masked rows exactly when no column is named `keep`, and `compact_alive` does, with its sidecars,
exactly when the mask keeps every row or no column is named `keep`. -/
theorem compaction_keeps_columns_iff (env : VerificationEnv) (window : Window) (mask : List Bool)
    (hrect : window.frame.Rectangular) (ha : window.Aligned)
    (hlen : mask.length = window.frame.height) :
    (takeSurviving env window.frame mask = .ok (window.frame.kept mask) ↔
      "keep" ∉ window.frame.names) ∧
    ((∃ window', compactAlive env window mask = .ok window' ∧ KeepsColumns mask window window') ↔
      mask.all id = true ∨ "keep" ∉ window.frame.names) := by
  have hdrop := dropMask_kept_iff hrect mask
  refine ⟨?_, ?_⟩
  · rw [takeSurviving_of_length hlen, Except.ok.injEq]
    exact hdrop
  · cases hall : mask.all id with
    | true =>
      have hsame : compactAlive env window mask = .ok window := by
        unfold compactAlive
        rw [if_pos hall]
      exact ⟨fun _ => .inl rfl, fun _ => ⟨window, hsame, keepsColumns_of_all ha hlen hall⟩⟩
    | false =>
      rw [compactAlive_of_length ha hlen hall]
      constructor
      · intro ⟨window', hwindow, hkeeps⟩
        have hframe := hkeeps.frame
        rw [← Except.ok.inj hwindow] at hframe
        exact .inr (hdrop.mp hframe)
      · intro h
        have hnot : "keep" ∉ window.frame.names := h.resolve_left (by simp)
        rw [hdrop.mpr hnot]
        exact ⟨_, rfl, keepsColumns_kept ha⟩

def oneColumn (name : String) : Window where
  frame := ⟨[name], [[(name, .int64 1)], [(name, .int64 2)]]⟩
  schema := ⟨1, [⟨1, name, .int64, true, ∅⟩], ∅⟩
  deferred := []
  sidecar := [(0, 0), (1, 1)]
  findingsPerRow := [0, 0]

theorem oneColumn_kept :
    (oneColumn "id").frame.Rectangular ∧ (oneColumn "id").Aligned ∧
    takeSurviving (sampleEnv []) (oneColumn "id").frame [false, true] =
      .ok ⟨["id"], [[("id", .int64 2)]]⟩ ∧
    ∃ window', compactAlive (sampleEnv []) (oneColumn "id") [false, true] = .ok window' ∧
      KeepsColumns [false, true] (oneColumn "id") window' := by
  have hrect : (oneColumn "id").frame.Rectangular := by
    unfold Frame.Rectangular
    decide
  have ha : (oneColumn "id").Aligned := ⟨rfl, rfl⟩
  have hname : "keep" ∉ (oneColumn "id").frame.names := by decide
  have h := compaction_keeps_columns_iff (sampleEnv []) (oneColumn "id") [false, true] hrect ha rfl
  exact ⟨hrect, ha, h.1.mpr hname, h.2.mpr (.inr hname)⟩

/-- A user's column named `keep` is gone after a row is removed. -/
theorem keep_column_lost :
    takeSurviving (sampleEnv []) (oneColumn "keep").frame [false, true] = .ok ⟨[], [[]]⟩ ∧
    (compactAlive (sampleEnv []) (oneColumn "keep") [false, true]).toOption.map (·.frame) =
      some ⟨[], [[]]⟩ ∧
    (oneColumn "keep").frame.kept [false, true] = ⟨["keep"], [[("keep", .int64 2)]]⟩ :=
  ⟨rfl, rfl, rfl⟩

end Stillflow.Engine
