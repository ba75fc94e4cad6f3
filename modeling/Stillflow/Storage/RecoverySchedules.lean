import Stillflow.Storage.DedupRecovery

/-! Recovery over every order of the directory scan. -/

namespace Stillflow.Storage

open Stillflow.Core Lib.Fallible Lib.BoundedScan Finset

variable {file : TempFile} {scan : List TempFile} {dir : DedupDir} {maximum : Nat} {run : Uuid}

/-- The files of a directory in some order. -/
structure Enumerates (scan : List TempFile) (files : Finset TempFile) : Prop where
  nodup : scan.Nodup
  mem_iff : ∀ file, file ∈ scan ↔ file ∈ files

namespace DedupDir

def recovered (dir : DedupDir) (scan : List TempFile) (maximum : Nat) : DedupDir :=
  (recoverDedupCandidates dir scan maximum ⟨0, 0⟩).1

theorem mem_recovered (hcanonical : dir.StaleCanonical) (hscan : Enumerates scan dir.files) :
    file ∈ (dir.recovered scan maximum).files ↔ file ∈ dir.files ∧
      ¬ Discards dir.live (metFiles maximum scan) file :=
  (recoverDedupCandidates_eq hcanonical (fun file hfile => (hscan.mem_iff file).mp hfile)
    maximum ⟨0, 0⟩).2 file

/-- No file of a live run is removed. -/
def Spares (dir dir' : DedupDir) : Prop :=
  ∀ run ∈ dir.live, (.sqlite run ∈ dir.files → .sqlite run ∈ dir'.files) ∧ .lock run ∈ dir'.files

/-- The number of runs the scan has met before it comes to a file. -/
def runsBefore (scan : List TempFile) (file : TempFile) : Nat :=
  (keys TempFile.run (before scan file)).card

theorem mem_met_iff :
    file ∈ metFiles maximum scan ↔ file ∈ scan ∧ runsBefore scan file < maximum := by
  rw [mem_met, empty_union]
  rfl

/-- The scan comes to a database (or a lock) of the run within its bound. -/
def Meets (scan : List TempFile) (maximum : Nat) (run : Uuid) (isSqlite : Bool) : Prop :=
  ∃ file ∈ scan, parseDedupCandidate file = some (run, isSqlite) ∧ runsBefore scan file < maximum

theorem meets_iff {isSqlite : Bool} :
    Sees (metFiles maximum scan) run isSqlite ↔ Meets scan maximum run isSqlite := by
  simp only [Sees, mem_keys, mem_met_iff, Meets, and_assoc]
  exact exists_congr fun file => and_congr_right fun _ => and_comm

theorem spares_recovered_iff (hcanonical : dir.StaleCanonical)
    (hscan : Enumerates scan dir.files) (maximum : Nat) :
    dir.Spares (dir.recovered scan maximum) ↔ ∀ run ∈ dir.live, .sqlite run ∈ dir.files →
      Meets scan maximum run true → Meets scan maximum run false := by
  constructor
  · intro hspares run hlive hsqlite hmet
    by_contra hlate
    have hkept := ((mem_recovered hcanonical hscan).mp ((hspares run hlive).1 hsqlite)).2
    exact hkept ⟨meets_iff.mpr hmet, fun hlock => hlate (meets_iff.mp hlock.1)⟩
  · intro hbound run hlive
    constructor
    · intro hsqlite
      refine (mem_recovered hcanonical hscan).mpr ⟨hsqlite, ?_⟩
      rintro ⟨hmet, hfree⟩
      exact hfree ⟨meets_iff.mpr (hbound run hlive hsqlite (meets_iff.mp hmet)), hlive⟩
    · refine (mem_recovered hcanonical hscan).mpr ⟨dir.locked run hlive, ?_⟩
      rintro ⟨-, hdead⟩
      exact hdead hlive

end DedupDir

/-- The order in which the scan of each call returns the files. -/
structure Schedule where
  order : Nat → Finset TempFile → List TempFile
  enumerates : ∀ call files, Enumerates (order call files) files

open Classical in
/-- The files with a property first. -/
noncomputable def Schedule.first (p : TempFile → Prop) : Schedule where
  order _ files := (files.filter p).toList ++ (files.filter (¬ p ·)).toList
  enumerates _ files := by
    constructor
    · rw [List.nodup_append]
      refine ⟨nodup_toList _, nodup_toList _, ?_⟩
      rintro file hfile file' hfile' rfl
      rw [mem_toList, mem_filter] at hfile hfile'
      exact hfile'.2 hfile.2
    · intro file
      rw [List.mem_append, mem_toList, mem_toList, ← mem_union,
        filter_union_filter_not_eq]

def DedupDir.after (dir : DedupDir) (schedule : Schedule) (maximum : Nat) : Nat → DedupDir
  | 0 => dir
  | calls + 1 =>
    let dir' := dir.after schedule maximum calls
    dir'.recovered (schedule.order calls dir'.files) maximum

def DedupDir.runs (dir : DedupDir) : Finset Uuid := dir.files.biUnion fun file => file.run.toFinset

def DedupDir.staleFiles (dir : DedupDir) : Finset TempFile :=
  dir.files.filter fun file => file.run.any fun run => decide (run ∉ dir.live)

namespace DedupDir

variable (dir : DedupDir) (schedule : Schedule) (maximum : Nat)

theorem keys_eq_runs (hscan : Enumerates scan dir.files) : keys TempFile.run scan = dir.runs := by
  ext run
  rw [mem_keys, runs, mem_biUnion]
  simp only [hscan.mem_iff, Option.mem_toFinset, Option.mem_def]

theorem live_after (calls : Nat) : (dir.after schedule maximum calls).live = dir.live := by
  induction calls with
  | zero => rfl
  | succ calls ih => exact (recoverCandidates_keeps _ _ _).1.trans ih

theorem files_after_succ (calls : Nat) :
    (dir.after schedule maximum (calls + 1)).files ⊆ (dir.after schedule maximum calls).files :=
  (recoverCandidates_keeps _ _ _).2.1

theorem files_after_antitone : Antitone fun calls => (dir.after schedule maximum calls).files :=
  antitone_nat_of_succ_le (dir.files_after_succ schedule maximum)

theorem spelled_after {run : Uuid} {isSqlite : Bool} {text : String}
    (h : .spelled run isSqlite text ∈ dir.files) (calls : Nat) :
    .spelled run isSqlite text ∈ (dir.after schedule maximum calls).files := by
  induction calls with
  | zero => exact h
  | succ calls ih => exact (recoverCandidates_keeps _ _ _).2.2 run isSqlite text ih

variable {dir} in
theorem StaleCanonical.after (h : dir.StaleCanonical) (calls : Nat) :
    (dir.after schedule maximum calls).StaleCanonical := by
  intro run isSqlite text hin
  rw [live_after]
  exact h run isSqlite text (dir.files_after_antitone schedule maximum (Nat.zero_le calls) hin)

/-- No order of the scan can separate the two files of a live run. -/
def Covered (dir : DedupDir) (maximum : Nat) : Prop :=
  maximum = 0 ∨ dir.runs.card < maximum ∨ ∀ run ∈ dir.live, .sqlite run ∉ dir.files

theorem Covered.spares {dir : DedupDir} {maximum : Nat} (h : dir.Covered maximum)
    (hcanonical : dir.StaleCanonical) (hscan : Enumerates scan dir.files) :
    dir.Spares (dir.recovered scan maximum) := by
  rw [spares_recovered_iff hcanonical hscan]
  intro run hlive hsqlite hmet
  rcases h with hzero | hcard | hnone
  · obtain ⟨_, -, -, hlt⟩ := hmet
    omega
  · refine ⟨.lock run, (hscan.mem_iff _).mpr (dir.locked run hlive), rfl, ?_⟩
    have hsub : keys TempFile.run (before scan (.lock run)) ⊆ dir.runs := by
      rw [← dir.keys_eq_runs hscan]
      exact keys_mono (List.takeWhile_subset _)
    exact lt_of_le_of_lt (card_le_card hsub) hcard
  · exact absurd hsqlite (hnone run hlive)

theorem Covered.after {dir : DedupDir} {maximum : Nat} (h : dir.Covered maximum)
    (schedule : Schedule) (calls : Nat) : (dir.after schedule maximum calls).Covered maximum := by
  have hfiles : (dir.after schedule maximum calls).files ⊆ dir.files :=
    dir.files_after_antitone schedule maximum (Nat.zero_le calls)
  rcases h with hzero | hcard | hnone
  · exact .inl hzero
  · right
    left
    apply lt_of_le_of_lt (card_le_card _) hcard
    exact biUnion_subset_biUnion_of_subset_left _ hfiles
  · right
    right
    intro run hlive hsqlite
    rw [live_after] at hlive
    exact hnone run hlive (hfiles hsqlite)

/-- A file without the property comes after all that have it. -/
theorem keys_first_subset {p : TempFile → Prop} {call : Nat} {files : Finset TempFile}
    (hfile : ¬ p file) {run : Uuid} (h : ∃ other ∈ files, p other ∧ other.run = some run) :
    run ∈ keys TempFile.run (before ((Schedule.first p).order call files) file) := by
  classical
  obtain ⟨other, hin, hp, hrun⟩ := h
  unfold Schedule.first
  rw [before_append (by simp [hfile]), keys_append]
  refine mem_union_left _ (mem_keys.mpr ⟨other, ?_, hrun⟩)
  rw [mem_toList, mem_filter]
  exact ⟨hin, hp⟩

theorem exists_order_separating {dir : DedupDir} {maximum : Nat} {run : Uuid}
    (hpos : 0 < maximum) (hcard : maximum ≤ dir.runs.card) (hsqlite : .sqlite run ∈ dir.files) :
    ∃ p, Meets ((Schedule.first p).order 0 dir.files) maximum run true ∧
      ¬ Meets ((Schedule.first p).order 0 dir.files) maximum run false := by
  classical
  have hrun : run ∈ dir.runs := by
    rw [runs, mem_biUnion]
    exact ⟨_, hsqlite, by simp [TempFile.run, parseDedupCandidate]⟩
  have herase : maximum - 1 ≤ (dir.runs.erase run).card := by
    rw [card_erase_of_mem hrun]
    omega
  obtain ⟨others, hothers, hsize⟩ := exists_subset_card_eq herase
  have hnotin : run ∉ others := fun h => notMem_erase run _ (hothers h)
  -- first the database and the files of so many other runs that the bound is reached
  obtain ⟨p, hp⟩ : ∃ p : TempFile → Prop, ∀ file, p file ↔
      file = .sqlite run ∨ ∃ other ∈ others, file.run = some other := ⟨_, fun _ => Iff.rfl⟩
  have hscan := (Schedule.first p).enumerates 0 dir.files
  refine ⟨p, ⟨.sqlite run, (hscan.mem_iff _).mpr hsqlite, rfl, ?_⟩, ?_⟩
  · have hsub : keys TempFile.run (before ((Schedule.first p).order 0 dir.files) (.sqlite run)) ⊆
        others := by
      intro other hother
      obtain ⟨file, hfile, hfileRun⟩ := mem_keys.mp hother
      have hne : file ≠ .sqlite run := by simpa using List.mem_takeWhile_imp hfile
      simp only [Schedule.first] at hfile
      rw [before_append_of_mem (by simp [hsqlite, hp])] at hfile
      have hblock := mem_toList.mp ((List.takeWhile_subset _) hfile)
      obtain ⟨other', hother', hrun'⟩ :=
        ((hp file).mp (mem_filter.mp hblock).2).resolve_left hne
      rw [hfileRun] at hrun'
      exact Option.some.inj hrun' ▸ hother'
    have hle := card_le_card hsub
    unfold runsBefore
    omega
  · rintro ⟨lock, -, hlock, hlt⟩
    have hlast : ¬ p lock := by
      rw [hp]
      rintro (rfl | ⟨other, hother, hlockRun⟩)
      · cases hlock
      · rw [TempFile.run, hlock] at hlockRun
        cases hlockRun
        exact hnotin hother
    have hsub : insert run others ⊆ keys TempFile.run
        (before ((Schedule.first p).order 0 dir.files) lock) := by
      intro other hother
      apply keys_first_subset hlast
      rcases mem_insert.mp hother with rfl | hother
      · exact ⟨_, hsqlite, (hp _).mpr (.inl rfl), rfl⟩
      · have hmem := mem_of_mem_erase (hothers hother)
        rw [runs, mem_biUnion] at hmem
        obtain ⟨file, hfile, hfileRun⟩ := hmem
        rw [Option.mem_toFinset, Option.mem_def] at hfileRun
        exact ⟨file, hfile, (hp _).mpr (.inr ⟨other, hother, hfileRun⟩), hfileRun⟩
    have hle := card_le_card hsub
    rw [card_insert_of_notMem hnotin] at hle
    unfold runsBefore at hlt
    omega

end DedupDir

namespace DedupDir

variable (dir : DedupDir) (maximum : Nat)

theorem spares_always_iff (hcanonical : dir.StaleCanonical) :
    (∀ schedule calls, (dir.after schedule maximum calls).Spares
      (dir.after schedule maximum (calls + 1))) ↔ dir.Covered maximum := by
  constructor
  · intro hspares
    by_contra hopen
    unfold Covered at hopen
    push Not at hopen
    obtain ⟨hpos, hcard, run, hlive, hsqlite⟩ := hopen
    obtain ⟨p, hearly, hlate⟩ := exists_order_separating (Nat.pos_of_ne_zero hpos) hcard hsqlite
    have hfirst := (spares_recovered_iff hcanonical ((Schedule.first p).enumerates 0 _) maximum).mp
      (hspares (Schedule.first p) 0)
    exact hlate (hfirst run hlive hsqlite hearly)
  · intro hcovered schedule calls
    exact (hcovered.after schedule calls).spares (hcanonical.after schedule maximum calls)
      (schedule.enumerates _ _)

/-- The files of a run that is not live are gone at some point. -/
def Drains (schedule : Schedule) : Prop :=
  ∀ run ∉ dir.live, ∃ calls, ∀ later ≥ calls, ∀ file, TempFile.run file = some run →
    file ∉ (dir.after schedule maximum later).files

variable {dir maximum}

theorem mem_staleFiles (hrun : file.run = some run) :
    file ∈ dir.staleFiles ↔ file ∈ dir.files ∧ run ∉ dir.live := by
  rw [staleFiles, mem_filter, hrun]
  simp

theorem of_mem_staleFiles (h : file ∈ dir.staleFiles) :
    file ∈ dir.files ∧ ∃ run, file.run = some run ∧ run ∉ dir.live := by
  rw [staleFiles, mem_filter, Option.any_eq_true] at h
  simpa using h

/-- A call that is not used up by the live runs meets a stale file, and removes it. -/
theorem staleFiles_recovered_ssubset (hcanonical : dir.StaleCanonical)
    (hroom : dir.live.card < maximum) (hsome : dir.staleFiles.Nonempty) (hscan : Enumerates scan dir.files) :
    (dir.recovered scan maximum).staleFiles ⊂ dir.staleFiles := by
  have hlive : (dir.recovered scan maximum).live = dir.live := (recoverCandidates_keeps _ _ _).1
  have hmet : ∃ file ∈ metFiles maximum scan, ∃ run, file.run = some run ∧
      run ∉ dir.live := by
    rcases met_eq_or_full TempFile.run maximum ∅ scan with hall | hfull
    · obtain ⟨file, hfile⟩ := hsome
      obtain ⟨hin, hstale⟩ := of_mem_staleFiles hfile
      refine ⟨file, ?_, hstale⟩
      rw [metFiles, hall, hscan.mem_iff]
      exact hin
    · rw [empty_union] at hfull
      have hlt : dir.live.card < (keys TempFile.run (metFiles maximum scan)).card :=
        hroom.trans_le hfull
      obtain ⟨run, hrun, hstale⟩ := exists_mem_notMem_of_card_lt_card hlt
      obtain ⟨file, hfile, hfileRun⟩ := mem_keys.mp hrun
      exact ⟨file, hfile, run, hfileRun, hstale⟩
  obtain ⟨file, hfile, run, hrun, hstale⟩ := hmet
  have hin : file ∈ dir.files := by
    rw [← hscan.mem_iff]
    exact met_subset TempFile.run maximum ∅ scan hfile
  have hdiscards : Discards dir.live (metFiles maximum scan) file := by
    cases file with
    | sqlite other =>
      cases hrun
      exact ⟨mem_keys.mpr ⟨_, hfile, rfl⟩, fun h => hstale h.2⟩
    | lock other =>
      cases hrun
      exact ⟨mem_keys.mpr ⟨_, hfile, rfl⟩, hstale⟩
    | spelled other isSqlite text =>
      cases hrun
      exact hstale (hcanonical _ _ _ hin)
    | other name => cases hrun
  rw [ssubset_iff_of_subset]
  · refine ⟨file, (mem_staleFiles hrun).mpr ⟨hin, hstale⟩, ?_⟩
    intro hafter
    exact ((mem_recovered hcanonical hscan).mp ((mem_staleFiles hrun).mp hafter).1).2 hdiscards
  · intro other hother
    obtain ⟨hother, otherRun, hotherRun, hotherStale⟩ := of_mem_staleFiles hother
    rw [hlive] at hotherStale
    exact (mem_staleFiles hotherRun).mpr
      ⟨((mem_recovered hcanonical hscan).mp hother).1, hotherStale⟩

theorem staleFiles_after_card (hcanonical : dir.StaleCanonical) (hroom : dir.live.card < maximum)
    (schedule : Schedule) (calls : Nat) :
    (dir.after schedule maximum calls).staleFiles = ∅ ∨
      (dir.after schedule maximum calls).staleFiles.card + calls ≤ dir.staleFiles.card := by
  induction calls with
  | zero => exact .inr le_rfl
  | succ calls ih =>
    have hroom' : (dir.after schedule maximum calls).live.card < maximum := by
      rwa [live_after]
    by_cases hsome : (dir.after schedule maximum calls).staleFiles.Nonempty
    · have hlt := card_lt_card (staleFiles_recovered_ssubset
        (hcanonical.after schedule maximum calls) hroom' hsome
        (schedule.enumerates calls (dir.after schedule maximum calls).files))
      change (dir.after schedule maximum (calls + 1)).staleFiles.card < _ at hlt
      rcases ih with hnone | hle
      · rw [hnone] at hsome
        exact absurd hsome not_nonempty_empty
      · right
        omega
    · left
      apply eq_empty_of_forall_notMem
      intro file hfile
      obtain ⟨hin, run, hrun, hstale⟩ := of_mem_staleFiles hfile
      rw [live_after] at hstale
      apply hsome
      refine ⟨file, (mem_staleFiles hrun).mpr ⟨?_, ?_⟩⟩
      · exact dir.files_after_succ schedule maximum calls hin
      · rwa [live_after]

theorem drains_of_room (hcanonical : dir.StaleCanonical) (hroom : dir.live.card < maximum)
    (schedule : Schedule) : dir.Drains maximum schedule := by
  intro run hstale
  refine ⟨dir.staleFiles.card + 1, fun later hlater file hrun hin => ?_⟩
  have hnone : (dir.after schedule maximum later).staleFiles = ∅ := by
    rcases staleFiles_after_card hcanonical hroom schedule later with hnone | hle
    · exact hnone
    · omega
  have hfile : file ∈ (dir.after schedule maximum later).staleFiles := by
    rw [mem_staleFiles hrun, live_after]
    exact ⟨hin, hstale⟩
  rw [hnone] at hfile
  exact notMem_empty _ hfile

/-- The locks of the live runs first. -/
noncomputable def liveFirst (live : Finset Uuid) : Schedule :=
  .first fun file => ∃ run ∈ live, file = .lock run

theorem recovered_liveFirst (hcanonical : dir.StaleCanonical) (hfull : maximum ≤ dir.live.card)
    (call : Nat) :
    (dir.recovered ((liveFirst dir.live).order call dir.files) maximum).files = dir.files := by
  classical
  ext file
  rw [mem_recovered hcanonical ((liveFirst dir.live).enumerates call dir.files)]
  have hmet : ∀ file ∈ met TempFile.run maximum ∅ ((liveFirst dir.live).order call dir.files),
      ∃ run ∈ dir.live, file = .lock run := by
    intro file hfile
    by_contra hother
    have hlt := (mem_met_iff.mp hfile).2
    have hsub : dir.live ⊆ keys TempFile.run
        (before ((liveFirst dir.live).order call dir.files) file) := fun run hrun =>
      keys_first_subset hother ⟨.lock run, dir.locked run hrun, ⟨run, hrun, rfl⟩, rfl⟩
    have hle := card_le_card hsub
    unfold runsBefore at hlt
    omega
  constructor
  · exact And.left
  · intro hin
    refine ⟨hin, fun hdiscards => ?_⟩
    cases file with
    | sqlite run =>
      obtain ⟨met, hin, hparse⟩ := mem_keys.mp hdiscards.1
      obtain ⟨_, -, rfl⟩ := hmet met hin
      cases hparse
    | lock run =>
      obtain ⟨met, hin, hparse⟩ := mem_keys.mp hdiscards.1
      obtain ⟨other, hother, rfl⟩ := hmet met hin
      cases hparse
      exact hdiscards.2 hother
    | spelled | other => exact hdiscards

theorem after_liveFirst (hcanonical : dir.StaleCanonical) (hfull : maximum ≤ dir.live.card)
    (calls : Nat) :
    (dir.after (liveFirst dir.live) maximum calls).files = dir.files := by
  induction calls with
  | zero => rfl
  | succ calls ih =>
    have hlive := dir.live_after (liveFirst dir.live) maximum calls
    have hfull' : maximum ≤ (dir.after (liveFirst dir.live) maximum calls).live.card := by
      rwa [hlive]
    have hstep := recovered_liveFirst (hcanonical.after _ maximum calls) hfull' calls
    rw [hlive] at hstep
    exact hstep.trans ih

theorem drains_always_iff :
    (∀ schedule, dir.Drains maximum schedule) ↔
      dir.StaleCanonical ∧ (dir.staleFiles = ∅ ∨ dir.live.card < maximum) := by
  constructor
  · intro hdrains
    have hcanonical : dir.StaleCanonical := by
      intro run isSqlite text hin
      by_contra hstale
      obtain ⟨calls, hgone⟩ := hdrains (liveFirst dir.live) run hstale
      exact hgone calls le_rfl _ rfl (dir.spelled_after _ maximum hin calls)
    refine ⟨hcanonical, ?_⟩
    by_contra hblocked
    push Not at hblocked
    obtain ⟨hsome, hfull⟩ := hblocked
    obtain ⟨file, hfile⟩ := hsome
    obtain ⟨hin, run, hrun, hstale⟩ := of_mem_staleFiles hfile
    obtain ⟨calls, hgone⟩ := hdrains (liveFirst dir.live) run hstale
    have hnone := hgone calls le_rfl file hrun
    rw [after_liveFirst hcanonical hfull] at hnone
    exact hnone hin
  · rintro ⟨hcanonical, hnone | hroom⟩ schedule
    · intro run hstale
      refine ⟨0, fun later _ file hrun hin => ?_⟩
      have hfile : file ∈ dir.staleFiles := (mem_staleFiles hrun).mpr
        ⟨dir.files_after_antitone schedule maximum (Nat.zero_le later) hin, hstale⟩
      rw [hnone] at hfile
      exact notMem_empty _ hfile
    · exact drains_of_room hcanonical hroom schedule

/-- A call that comes to a lock in another spelling fails if there is none in the store's own. -/
theorem recover_error_of_spelled {dir : DedupDir} {run : Uuid} {text : String}
    (hlock : .lock run ∉ dir.files) (hin : .spelled run false text ∈ scan)
    (hbound : runsBefore scan (.spelled run false text) < maximum) (report : RecoveryReport) :
    (recoverDedupCandidates dir scan maximum report).2.2 =
      .error (.io "open stale dedup lock") := by
  have hmet : Sees (metFiles maximum scan) run false :=
    mem_keys.mpr ⟨_, mem_met_iff.mpr ⟨hin, hbound⟩, rfl⟩
  have hcandidate := ((scan_records scan maximum).mem_toList run _).mpr
    ⟨mem_runs.mpr (.inr hmet), rfl⟩
  exact recoverCandidates_error report hcandidate (by simpa using hmet) hlock

end DedupDir

/-- Where the stale runs have the names the store writes, a call spares the live runs exactly when,
of each live run whose database the scan comes to within its bound, it also comes to a lock. Over
every order of every call the live runs are spared and the stale runs removed exactly when the names
are such, the bound exceeds the runs of the directory (or nothing is at stake) and the live runs do
not use it up. The store's own calls write no other names; a lock that has one makes every call fail
that comes to it. -/
theorem recovery_spares_and_drains_iff (dir : DedupDir) (maximum : Nat) :
    (dir.StaleCanonical → ∀ scan, Enumerates scan dir.files →
      (dir.Spares (dir.recovered scan maximum) ↔ ∀ run ∈ dir.live, .sqlite run ∈ dir.files →
        DedupDir.Meets scan maximum run true → DedupDir.Meets scan maximum run false)) ∧
    ((∀ schedule, (∀ calls, (dir.after schedule maximum calls).Spares
        (dir.after schedule maximum (calls + 1))) ∧ dir.Drains maximum schedule) ↔
      dir.StaleCanonical ∧ dir.Covered maximum ∧
        (dir.staleFiles = ∅ ∨ dir.live.card < maximum)) ∧
    (∀ calls, (dedupMachine.run ⟨∅, ∅, by simp⟩ calls).StaleCanonical) ∧
    (∀ scan run text report, .lock run ∉ dir.files → .spelled run false text ∈ scan →
      DedupDir.runsBefore scan (.spelled run false text) < maximum →
      (recoverDedupCandidates dir scan maximum report).2.2 =
        .error (.io "open stale dedup lock")) := by
  refine ⟨fun hcanonical scan hscan => DedupDir.spares_recovered_iff hcanonical hscan maximum,
    ?_, ?_, fun scan run text report hlock hin hbound =>
      DedupDir.recover_error_of_spelled hlock hin hbound report⟩
  · rw [forall_and, DedupDir.drains_always_iff]
    constructor
    · rintro ⟨hspares, hcanonical, hroom⟩
      exact ⟨hcanonical, (dir.spares_always_iff maximum hcanonical).mp hspares, hroom⟩
    · rintro ⟨hcanonical, hcovered, hroom⟩
      exact ⟨(dir.spares_always_iff maximum hcanonical).mpr hcovered, hcanonical, hroom⟩
  · intro calls run isSqlite text hin
    exact absurd hin (dedupMachine_canonical (by simp) calls run isSqlite text)

def oneLive : DedupDir where
  files := {.sqlite 1, .lock 1}
  live := {1}
  locked := by simp

/-- A live run and the database of a dead one. -/
def liveAndStale : DedupDir where
  files := {.sqlite 1, .lock 1, .sqlite 2}
  live := {1}
  locked := by simp

/-- With room for one run and the database first in the scan, the database of a live run is
deleted under its lock. With the lock first, a stale run is never reached. -/
theorem live_database_removed :
    (DedupDir.openDedupIndex ⟨∅, ∅, by simp⟩ 1 7).toOption.map (fun dir => (dir.files, dir.live)) =
        some (oneLive.files, oneLive.live) ∧
      Enumerates [.sqlite 1, .lock 1] oneLive.files ∧ 1 ∈ oneLive.live ∧
      (oneLive.recovered [.sqlite 1, .lock 1] 1).files = {.lock 1} ∧
      ¬ ∀ schedule, liveAndStale.Drains 1 schedule := by
  refine ⟨by decide +kernel, ⟨by decide, fun file => by simp [oneLive]⟩, by decide,
    by decide +kernel, ?_⟩
  rw [DedupDir.drains_always_iff]
  intro h
  exact absurd h.2 (by decide +kernel)

theorem one_live_spared :
    (Enumerates [.sqlite 1, .lock 1] oneLive.files ∧
      oneLive.Spares (oneLive.recovered [.sqlite 1, .lock 1] 2)) ∧
    ∀ schedule, (∀ calls, (liveAndStale.after schedule 3 calls).Spares
      (liveAndStale.after schedule 3 (calls + 1))) ∧ liveAndStale.Drains 3 schedule := by
  have hscan : Enumerates [.sqlite 1, .lock 1] oneLive.files :=
    ⟨by decide, fun file => by simp [oneLive]⟩
  have hone : oneLive.StaleCanonical := fun run isSqlite text hin => by simp [oneLive] at hin
  have htwo : liveAndStale.StaleCanonical :=
    fun run isSqlite text hin => by simp [liveAndStale] at hin
  refine ⟨⟨hscan, ((recovery_spares_and_drains_iff oneLive 2).1 hone _ hscan).mpr ?_⟩,
    (recovery_spares_and_drains_iff liveAndStale 3).2.1.mpr
      ⟨htwo, .inr (.inl (by decide +kernel)), .inr (by decide +kernel)⟩⟩
  intro run hrun _ _
  obtain rfl := mem_singleton.mp hrun
  exact ⟨.lock 1, by simp, rfl, by decide +kernel⟩

end Stillflow.Storage
