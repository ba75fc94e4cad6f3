import Stillflow.Lib.BoundedScan
import Stillflow.Lib.Machine
import Stillflow.Lib.Maps
import Stillflow.Storage.Store

/-!
The temporary deduplication indexes on disk. A run is live while its index holds the lock; recovery
scans the files in any order.
-/

namespace Stillflow.Storage

open Stillflow.Core Lib Lib.Fallible Lib.BoundedScan Finset

/-- A file of the temp root, by what its name says. -/
inductive TempFile where
  | sqlite (run : Uuid)
  | lock (run : Uuid)
  /-- The name has the run in a spelling that `Uuid::parse_str` reads but the store does not write:
  without hyphens, in braces, as a URN or in upper case. -/
  | spelled (run : Uuid) (isSqlite : Bool) (text : String)
  | other (name : String)
  deriving DecidableEq

/-- The run a file belongs to, and whether it is the database. -/
def parseDedupCandidate : TempFile → Option (Uuid × Bool)
  | .sqlite run => some (run, true)
  | .lock run => some (run, false)
  | .spelled run isSqlite _ => some (run, isSqlite)
  | .other _ => none

/-- The temp root, with the runs whose index holds the lock file in it. -/
structure DedupDir where
  files : Finset TempFile
  live : Finset Uuid
  locked : ∀ run ∈ live, .lock run ∈ files

namespace DedupDir

/-- `open_dedup_index`: both files are created by this call or none is. -/
def openDedupIndex (dir : DedupDir) (run bundle : Uuid) : Except StorageError DedupDir := do
  require (run ≠ 0 ∧ bundle ≠ 0)
    (StorageError.invalidDraft "dedup index identities must not be nil")
  require (.lock run ∉ dir.files) (StorageError.alreadyExists run)
  -- the lock created by this attempt is rolled back
  require (.sqlite run ∉ dir.files) (StorageError.alreadyExists run)
  return {
    files := insert (.sqlite run) (insert (.lock run) dir.files)
    live := insert run dir.live
    locked := by
      intro other hother
      rcases mem_insert.mp hother with rfl | hother
      · simp
      · have hlock := dir.locked other hother
        simp [hlock] }

def discarded (run : Uuid) (hasSqlite hasLock : Bool) : Finset TempFile :=
  (if hasSqlite then {.sqlite run} else ∅) ∪ if hasLock then {.lock run} else ∅

/-- Remove files of a run; without its lock file a run holds no lock of the directory. -/
def discard (dir : DedupDir) (run : Uuid) (hasSqlite hasLock : Bool) : DedupDir where
  files := dir.files \ discarded run hasSqlite hasLock
  live := if hasLock then dir.live.erase run else dir.live
  locked other hother := by
    have hlive : other ∈ dir.live ∧ (hasLock = true → other ≠ run) := by
      cases hasLock <;> simp_all
    rw [mem_sdiff]
    refine ⟨dir.locked other hlive.1, ?_⟩
    cases hasSqlite <;> cases hasLock <;> simp_all [discarded]

def closeAndDelete (dir : DedupDir) (run : Uuid) : DedupDir := dir.discard run true true

/-- The owner of an index dies: the lock is free, the files stay. -/
def abandon (dir : DedupDir) (run : Uuid) : DedupDir where
  files := dir.files
  live := dir.live.erase run
  locked other hother := dir.locked other (mem_of_mem_erase hother)

/-- Whether the run's lock is held. -/
def dedupLockIsActive (dir : DedupDir) (run : Uuid) : Except StorageError Bool :=
  if .lock run ∈ dir.files then .ok (decide (run ∈ dir.live))
  else .error (.io "open stale dedup lock")

end DedupDir

/-- The runs met by the scan: whether their database and their lock were. -/
abbrev Candidates := Std.ExtTreeMap Uuid (Bool × Bool)

def Candidates.record (candidates : Candidates) (file : TempFile) : Candidates :=
  match parseDedupCandidate file with
  | none => candidates
  | some (run, isSqlite) =>
    let state := candidates.getD run (false, false)
    candidates.insert run (if isSqlite then (true, state.2) else (state.1, true))

/-- `for entry in entries`, up to `maximum` candidates. -/
def scanCandidates (maximum : Nat) : List TempFile → Candidates → Candidates
  | [], candidates => candidates
  | file :: files, candidates =>
    if maximum ≤ candidates.size then candidates
    else scanCandidates maximum files (candidates.record file)

structure RecoveryReport where
  examined : Nat
  recovered : Nat
  deriving DecidableEq

def u32SaturatingAdd (a b : Nat) : Nat := min (a + b) (2 ^ 32 - 1)

/-- The loop over the candidates. An error leaves what was removed before it. -/
def recoverCandidates (dir : DedupDir) (report : RecoveryReport) :
    List (Uuid × Bool × Bool) → DedupDir × RecoveryReport × Except StorageError Unit
  | [] => (dir, report, .ok ())
  | (run, hasSqlite, hasLock) :: candidates =>
    let report := { report with examined := u32SaturatingAdd report.examined 1 }
    if !hasSqlite && !hasLock then recoverCandidates dir report candidates
    else match if hasLock then dir.dedupLockIsActive run else .ok false with
      | .error e => (dir, report, .error e)
      | .ok true => recoverCandidates dir report candidates
      | .ok false => recoverCandidates (dir.discard run hasSqlite hasLock)
        { report with recovered := u32SaturatingAdd report.recovered 1 } candidates

/-- `recover_dedup_candidates`, with the files in the order the directory scan returns them. -/
def recoverDedupCandidates (dir : DedupDir) (scan : List TempFile) (maximum : Nat)
    (report : RecoveryReport) : DedupDir × RecoveryReport × Except StorageError Unit :=
  recoverCandidates dir report (scanCandidates maximum scan ∅).toList

/-- What happens to the temp root. -/
inductive DedupCall where
  | openIndex (run bundle : Uuid)
  | closeAndDelete (run : Uuid)
  | abandon (run : Uuid)
  | recover (scan : List TempFile) (maximum : Nat)

def dedupMachine : Machine DedupDir DedupCall (Except StorageError Unit) where
  step dir call := match call with
    | .openIndex run bundle => match dir.openDedupIndex run bundle with
      | .error e => (.error e, dir)
      | .ok opened => (.ok (), opened)
    | .closeAndDelete run => (.ok (), dir.closeAndDelete run)
    | .abandon run => (.ok (), dir.abandon run)
    | .recover scan maximum =>
      let result := recoverDedupCandidates dir scan maximum ⟨0, 0⟩
      (result.2.2, result.1)

def TempFile.run (file : TempFile) : Option Uuid := (parseDedupCandidate file).map Prod.fst

/-- The files have a database (or a lock) of the run, in whatever spelling. -/
abbrev Sees (seen : List TempFile) (run : Uuid) (isSqlite : Bool) : Prop :=
  (run, isSqlite) ∈ keys parseDedupCandidate seen

/-- The files a scan comes to within its bound. -/
abbrev metFiles (maximum : Nat) (scan : List TempFile) : List TempFile :=
  met TempFile.run maximum ∅ scan

/-- The candidates are the runs of the files met. -/
structure Candidates.Records (candidates : Candidates) (seen : List TempFile) : Prop where
  size_eq : candidates.size = (keys TempFile.run seen).card
  state_eq : ∀ run : Uuid, candidates[run]? = if run ∈ keys TempFile.run seen then
    some (decide (Sees seen run true), decide (Sees seen run false)) else none

variable {seen : List TempFile} {dir : DedupDir}

theorem TempFile.run_eq_some {file : TempFile} {run : Uuid} :
    file.run = some run ↔ ∃ isSqlite, parseDedupCandidate file = some (run, isSqlite) := by
  simp [TempFile.run]

theorem mem_runs {run : Uuid} :
    run ∈ keys TempFile.run seen ↔ Sees seen run true ∨ Sees seen run false := by
  simp only [Sees, mem_keys, TempFile.run_eq_some, Bool.exists_bool, and_or_left, exists_or]
  exact or_comm

namespace Candidates

theorem records_empty : Records ∅ [] where
  size_eq := by simp
  state_eq run := by simp

variable {candidates : Candidates}

theorem Records.getD_eq (h : candidates.Records seen) (run : Uuid) :
    candidates.getD run (false, false) =
      (decide (Sees seen run true), decide (Sees seen run false)) := by
  rw [Std.ExtTreeMap.getD_eq_getD_getElem?, h.state_eq run]
  by_cases hrun : run ∈ keys TempFile.run seen
  · rw [if_pos hrun]
    rfl
  · rw [if_neg hrun]
    rw [mem_runs, not_or] at hrun
    simp [hrun.1, hrun.2]

theorem Records.mem_iff (h : candidates.Records seen) (run : Uuid) :
    run ∈ candidates ↔ run ∈ keys TempFile.run seen := by
  rw [Std.ExtTreeMap.mem_iff_isSome_getElem?, h.state_eq run]
  split_ifs with hrun <;> simp [hrun]

theorem Records.record (h : candidates.Records seen) (file : TempFile) :
    Records (candidates.record file) (seen ++ [file]) := by
  unfold Candidates.record
  cases hparse : parseDedupCandidate file with
  | none =>
    have hrun : file.run = none := by rw [TempFile.run, hparse]; rfl
    constructor
    · rw [keys_append, keys_singleton_none hrun, union_empty]
      exact h.size_eq
    · intro run
      simp only [Sees, keys_append, keys_singleton_none hrun, keys_singleton_none hparse,
        union_empty]
      exact h.state_eq run
  | some candidate =>
    obtain ⟨run, isSqlite⟩ := candidate
    have hrun : file.run = some run := by rw [TempFile.run, hparse]; rfl
    have hkeys : keys TempFile.run (seen ++ [file]) =
        Insert.insert run (keys TempFile.run seen) := by
      rw [keys_append, keys_singleton_some hrun, union_comm]
      rfl
    constructor
    · rw [Std.ExtTreeMap.size_insert, hkeys, h.size_eq]
      have hcontains : candidates.contains run = true ↔ run ∈ keys TempFile.run seen := by
        rw [Std.ExtTreeMap.contains_iff_mem, h.mem_iff]
      by_cases hmem : run ∈ keys TempFile.run seen
      · rw [if_pos (hcontains.mpr hmem), insert_eq_of_mem hmem]
      · rw [if_neg (mt hcontains.mp hmem), card_insert_of_notMem hmem]
    · intro other
      by_cases hother : other = run
      · subst hother
        rw [Std.ExtTreeMap.getElem?_insert_self, hkeys, if_pos (mem_insert_self _ _),
          h.getD_eq]
        cases isSqlite <;> simp [Sees, keys_append, keys_singleton_some hparse]
      · rw [Lib.Maps.getElem?_insert_ne hother, h.state_eq other, hkeys]
        simp [Sees, keys_append, keys_singleton_some hparse, hother]

end Candidates

theorem scanCandidates_records {maximum : Nat} {files : List TempFile} {candidates : Candidates}
    (h : candidates.Records seen) :
    (scanCandidates maximum files candidates).Records
      (seen ++ met TempFile.run maximum (keys TempFile.run seen) files) := by
  induction files generalizing seen candidates with
  | nil => simpa [met, scanCandidates] using h
  | cons file files ih =>
    unfold scanCandidates met
    rw [h.size_eq]
    split_ifs
    · rwa [List.append_nil]
    · have hrest := ih (h.record file)
      rwa [keys_append, List.append_assoc] at hrest

/-- A candidate gives up the file. -/
def Gives (live : Finset Uuid) (candidate : Uuid × Bool × Bool) (file : TempFile) : Prop :=
  file ∈ DedupDir.discarded candidate.1 candidate.2.1 candidate.2.2 ∧
    ¬ (candidate.2.2 = true ∧ candidate.1 ∈ live)

theorem mem_discarded {run : Uuid} {hasSqlite hasLock : Bool} {file : TempFile} :
    file ∈ DedupDir.discarded run hasSqlite hasLock ↔
      (hasSqlite = true ∧ file = .sqlite run) ∨ (hasLock = true ∧ file = .lock run) := by
  cases hasSqlite <;> cases hasLock <;> simp [DedupDir.discarded]

/-- What the loop does with a candidate: nothing (it has no file, or its lock is held), remove the
files the scan met, or fail at a lock that is not there under the name the store writes. -/
theorem recoverCandidates_cases (dir : DedupDir) (report : RecoveryReport) (run : Uuid)
    (hasSqlite hasLock : Bool) (candidates : List (Uuid × Bool × Bool)) :
    (∃ report', recoverCandidates dir report ((run, hasSqlite, hasLock) :: candidates) =
        recoverCandidates dir report' candidates ∧
      ∀ file, ¬ Gives dir.live (run, hasSqlite, hasLock) file) ∨
    (∃ report', recoverCandidates dir report ((run, hasSqlite, hasLock) :: candidates) =
        recoverCandidates (dir.discard run hasSqlite hasLock) report' candidates ∧
      (dir.discard run hasSqlite hasLock).live = dir.live ∧
      ∀ file, Gives dir.live (run, hasSqlite, hasLock) file ↔
        file ∈ DedupDir.discarded run hasSqlite hasLock) ∨
    (hasLock = true ∧ .lock run ∉ dir.files ∧
      ∃ report', recoverCandidates dir report ((run, hasSqlite, hasLock) :: candidates) =
        (dir, report', .error (.io "open stale dedup lock"))) := by
  cases hasLock with
  | false =>
    cases hasSqlite with
    | false => exact .inl ⟨_, rfl, fun file => by simp [Gives, mem_discarded]⟩
    | true => exact .inr (.inl ⟨_, rfl, rfl, fun file => by simp [Gives]⟩)
  | true =>
    by_cases hlock : .lock run ∈ dir.files
    · by_cases hlive : run ∈ dir.live
      · refine .inl ⟨⟨u32SaturatingAdd report.examined 1, report.recovered⟩, ?_,
          fun file => by simp [Gives, hlive]⟩
        simp [recoverCandidates, DedupDir.dedupLockIsActive, hlock, hlive]
      · refine .inr (.inl ⟨⟨u32SaturatingAdd report.examined 1, u32SaturatingAdd report.recovered 1⟩,
          ?_, by simp [DedupDir.discard, hlive], by simp [Gives, hlive]⟩)
        simp [recoverCandidates, DedupDir.dedupLockIsActive, hlock, hlive]
    · refine .inr (.inr ⟨rfl, hlock, ⟨u32SaturatingAdd report.examined 1, report.recovered⟩, ?_⟩)
      simp [recoverCandidates, DedupDir.dedupLockIsActive, hlock]

/-- With the locks its candidates had, the loop comes to its end and removes what they give up. -/
theorem recoverCandidates_eq {candidates : List (Uuid × Bool × Bool)}
    (report : RecoveryReport) (hruns : (candidates.map Prod.fst).Nodup)
    (hlocks : ∀ candidate ∈ candidates, candidate.2.2 = true → .lock candidate.1 ∈ dir.files) :
    (recoverCandidates dir report candidates).2.2 = .ok () ∧
      ∀ file, file ∈ (recoverCandidates dir report candidates).1.files ↔
        file ∈ dir.files ∧ ∀ candidate ∈ candidates, ¬ Gives dir.live candidate file := by
  induction candidates generalizing dir report with
  | nil => simp [recoverCandidates]
  | cons candidate candidates ih =>
    obtain ⟨run, hasSqlite, hasLock⟩ := candidate
    rw [List.map_cons, List.nodup_cons] at hruns
    rw [List.forall_mem_cons] at hlocks
    have hnew : run ∉ candidates.map Prod.fst := hruns.1
    rcases recoverCandidates_cases dir report run hasSqlite hasLock candidates with
      ⟨report', hrest, hnone⟩ | ⟨report', hrest, hlive, hgives⟩ | ⟨hflag, hlost, -⟩
    · rw [hrest]
      simpa [hnone] using ih report' hruns.2 hlocks.2
    · rw [hrest]
      -- the candidates that follow are other runs, so their locks are still there
      have hlocks' : ∀ other ∈ candidates, other.2.2 = true →
          .lock other.1 ∈ (dir.discard run hasSqlite hasLock).files := by
        intro other hother hlock
        refine mem_sdiff.mpr ⟨hlocks.2 other hother hlock, fun hgone => ?_⟩
        rcases mem_discarded.mp hgone with ⟨-, heq⟩ | ⟨-, heq⟩
        · cases heq
        · have hrun : other.1 = run := TempFile.lock.inj heq
          rw [← hrun] at hnew
          exact hnew (List.mem_map_of_mem hother)
      obtain ⟨hok, hfiles⟩ := ih report' hruns.2 hlocks'
      refine ⟨hok, fun file => ?_⟩
      rw [hfiles, hlive, List.forall_mem_cons, ← and_assoc, hgives]
      exact and_congr_left fun _ => mem_sdiff
    · exact absurd (hlocks.1 hflag) hlost

/-- Whatever the loop meets, it removes only files with the names the store writes, and it makes
no run live or stale. -/
theorem recoverCandidates_keeps (dir : DedupDir) (report : RecoveryReport)
    (candidates : List (Uuid × Bool × Bool)) :
    (recoverCandidates dir report candidates).1.live = dir.live ∧
      (recoverCandidates dir report candidates).1.files ⊆ dir.files ∧
      ∀ run isSqlite text, .spelled run isSqlite text ∈ dir.files →
        .spelled run isSqlite text ∈ (recoverCandidates dir report candidates).1.files := by
  induction candidates generalizing dir report with
  | nil => exact ⟨rfl, Subset.refl _, fun _ _ _ h => h⟩
  | cons candidate candidates ih =>
    obtain ⟨run, hasSqlite, hasLock⟩ := candidate
    rcases recoverCandidates_cases dir report run hasSqlite hasLock candidates with
      ⟨report', hrest, -⟩ | ⟨report', hrest, hsame, -⟩ | ⟨-, -, report', hfailed⟩
    · rw [hrest]
      exact ih dir report'
    · rw [hrest]
      obtain ⟨hlive, hfiles, hspelled⟩ := ih (dir.discard run hasSqlite hasLock) report'
      refine ⟨hlive.trans hsame, hfiles.trans sdiff_subset, fun other isSqlite text h => ?_⟩
      refine hspelled other isSqlite text (mem_sdiff.mpr ⟨h, fun hgone => ?_⟩)
      rcases mem_discarded.mp hgone with ⟨-, heq⟩ | ⟨-, heq⟩ <;> cases heq
    · rw [hfailed]
      exact ⟨rfl, Subset.refl _, fun _ _ _ h => h⟩

theorem recoverCandidates_error {candidates : List (Uuid × Bool × Bool)}
    (report : RecoveryReport) {candidate : Uuid × Bool × Bool} (hmem : candidate ∈ candidates)
    (hflag : candidate.2.2 = true) (hlock : .lock candidate.1 ∉ dir.files) :
    (recoverCandidates dir report candidates).2.2 = .error (.io "open stale dedup lock") := by
  induction candidates generalizing dir report with
  | nil => cases hmem
  | cons first candidates ih =>
    obtain ⟨run, hasSqlite, hasLock⟩ := first
    rcases List.mem_cons.mp hmem with rfl | hmem
    · simp only at hflag hlock
      simp [recoverCandidates, hflag, DedupDir.dedupLockIsActive, hlock]
    rcases recoverCandidates_cases dir report run hasSqlite hasLock candidates with
      ⟨report', hrest, -⟩ | ⟨report', hrest, -⟩ | ⟨-, -, report', hfailed⟩
    · rw [hrest]
      exact ih report' hmem hlock
    · rw [hrest]
      exact ih report' hmem fun h => hlock (mem_sdiff.mp h).1
    · rw [hfailed]

/-- The scan met a database of a run, but no lock of it that is held; or a lock that is free. -/
def Discards (live : Finset Uuid) (seen : List TempFile) : TempFile → Prop
  | .sqlite run => Sees seen run true ∧ ¬ (Sees seen run false ∧ run ∈ live)
  | .lock run => Sees seen run false ∧ run ∉ live
  | .spelled .. | .other _ => False

theorem Candidates.Records.mem_toList {candidates : Candidates} (h : candidates.Records seen)
    (run : Uuid) (state : Bool × Bool) : (run, state) ∈ candidates.toList ↔
      run ∈ keys TempFile.run seen ∧
        (decide (Sees seen run true), decide (Sees seen run false)) = state := by
  rw [Std.ExtTreeMap.mem_toList_iff_getElem?_eq_some, h.state_eq run]
  by_cases hrun : run ∈ keys TempFile.run seen
  · rw [if_pos hrun, Option.some.injEq]
    simp only [hrun, true_and]
  · simp [hrun]

theorem discards_iff {candidates : Candidates} {live : Finset Uuid} (h : candidates.Records seen)
    (file : TempFile) :
    (∃ candidate ∈ candidates.toList, Gives live candidate file) ↔ Discards live seen file := by
  constructor
  · rintro ⟨⟨run, state⟩, hcandidate, hgiven, hfree⟩
    obtain ⟨-, rfl⟩ := (h.mem_toList run state).mp hcandidate
    rcases mem_discarded.mp hgiven with ⟨hseen, rfl⟩ | ⟨hseen, rfl⟩
    · exact ⟨by simpa using hseen, by simpa using hfree⟩
    · have hseen : Sees seen run false := by simpa using hseen
      exact ⟨hseen, by simpa [hseen] using hfree⟩
  · intro hdiscards
    cases file with
    | sqlite run =>
      refine ⟨_, (h.mem_toList run _).mpr ⟨mem_runs.mpr (.inl hdiscards.1), rfl⟩, ?_, ?_⟩
      · exact mem_discarded.mpr (.inl ⟨by simpa using hdiscards.1, rfl⟩)
      · simpa using hdiscards.2
    | lock run =>
      refine ⟨_, (h.mem_toList run _).mpr ⟨mem_runs.mpr (.inr hdiscards.1), rfl⟩, ?_, ?_⟩
      · exact mem_discarded.mpr (.inr ⟨by simpa using hdiscards.1, rfl⟩)
      · simp [hdiscards.2]
    | spelled run isSqlite text => cases hdiscards
    | other name => cases hdiscards

/-- The files of the runs that are not live have the names the store writes. -/
def DedupDir.StaleCanonical (dir : DedupDir) : Prop :=
  ∀ run isSqlite text, .spelled run isSqlite text ∈ dir.files → run ∈ dir.live

theorem scan_records (scan : List TempFile) (maximum : Nat) :
    (scanCandidates maximum scan ∅).Records (metFiles maximum scan) :=
  scanCandidates_records Candidates.records_empty

/-- A call returns and removes what the files met say. -/
theorem recoverDedupCandidates_eq (hcanonical : dir.StaleCanonical)
    {scan : List TempFile} (hscan : ∀ file ∈ scan, file ∈ dir.files) (maximum : Nat)
    (report : RecoveryReport) :
    (recoverDedupCandidates dir scan maximum report).2.2 = .ok () ∧
      ∀ file, file ∈ (recoverDedupCandidates dir scan maximum report).1.files ↔
        file ∈ dir.files ∧ ¬ Discards dir.live (metFiles maximum scan) file := by
  have hruns : ((scanCandidates maximum scan ∅).toList.map Prod.fst).Nodup := by
    rw [Std.ExtTreeMap.map_fst_toList_eq_keys]
    exact Std.ExtTreeMap.nodup_keys
  have hlocks : ∀ candidate ∈ (scanCandidates maximum scan ∅).toList, candidate.2.2 = true →
      .lock candidate.1 ∈ dir.files := by
    rintro ⟨run, state⟩ hcandidate hlock
    obtain ⟨-, rfl⟩ := ((scan_records scan maximum).mem_toList run state).mp hcandidate
    have hseen : Sees (metFiles maximum scan) run false := by simpa using hlock
    obtain ⟨file, hmet, hparse⟩ := mem_keys.mp hseen
    have hin := hscan file (met_subset TempFile.run maximum ∅ scan hmet)
    cases file with
    | sqlite other => cases hparse
    | lock other =>
      cases hparse
      exact hin
    | spelled other isSqlite text =>
      cases hparse
      exact dir.locked run (hcanonical run false text hin)
    | other name => cases hparse
  obtain ⟨hok, hfiles⟩ := recoverCandidates_eq report hruns hlocks
  refine ⟨hok, fun file => (hfiles file).trans ?_⟩
  rw [← discards_iff (scan_records scan maximum) file]
  simp only [not_exists, not_and]

/-- The store's own calls leave no other spelling in a directory that has none. -/
theorem dedupMachine_canonical
    (h : ∀ run isSqlite text, .spelled run isSqlite text ∉ dir.files) (calls : List DedupCall) :
    ∀ run isSqlite text, .spelled run isSqlite text ∉ (dedupMachine.run dir calls).files := by
  refine @Machine.run_invariant _ _ _ dedupMachine (fun dir => ∀ run isSqlite text,
    .spelled run isSqlite text ∉ dir.files) (fun dir call h => ?_) dir h calls
  intro run isSqlite text
  cases call with
  | openIndex opened bundle =>
    unfold Machine.next dedupMachine
    cases hopen : dir.openDedupIndex opened bundle with
    | error e =>
      simp only [hopen]
      exact h run isSqlite text
    | ok opened =>
      simp only [hopen]
      obtain ⟨_, -, hopen⟩ := of_bind hopen
      obtain ⟨_, -, hopen⟩ := of_bind hopen
      obtain ⟨_, -, hopen⟩ := of_bind hopen
      cases hopen
      simpa using h run isSqlite text
  | closeAndDelete closed => exact fun hin => h run isSqlite text (mem_sdiff.mp hin).1
  | abandon => exact h run isSqlite text
  | recover scan maximum =>
    exact fun hin => h run isSqlite text ((recoverCandidates_keeps dir _ _).2.1 hin)

end Stillflow.Storage
