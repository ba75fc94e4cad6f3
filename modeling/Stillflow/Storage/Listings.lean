import Mathlib.Data.Prod.Lex
import Stillflow.Lib.Paging
import Stillflow.Storage.Store

/-!
The paged listings of the control plane: events of a stream, jobs and runs of a workspace, and the
committed artifacts of a run.
-/

namespace Stillflow.Storage

open Stillflow.Core Lib.Fallible Lib.Paging List

/-- Timestamps and ids as the database keeps them. Reading a timestamp may fail; where it does not,
the text is the one written. -/
structure RowTexts (Text : Type) [LinearOrder Text] where
  empty : Text
  timestamp : Instant → Text
  parseTimestamp : Text → Option Instant
  uuidText : Uuid → Text
  parseUuid : Text → Option Uuid
  empty_lt : ∀ moment, empty < timestamp moment
  timestamp_parse : ∀ {moment moment'}, parseTimestamp (timestamp moment) = some moment' →
    timestamp moment' = timestamp moment
  parse_uuid : ∀ id, parseUuid (uuidText id) = some id

def maxEventPageSize : Nat := 1000

def validatePageLimit (limit : Nat) : Except StorageError Unit :=
  require (limit ≠ 0 ∧ limit ≤ maxEventPageSize)
    (.invalidDraft "page size must be between 1 and 1000")

/-- One paged listing over the rows of its scope and filter. -/
structure Listing (Row Record Cursor κ : Type) [LinearOrder κ] where
  /-- The error for a cursor of another scope. -/
  mismatch : StorageError
  bound : Cursor → Prop
  decidableBound : DecidablePred bound
  /-- What is checked after the cursor's scope. -/
  guard : Option Cursor → Except StorageError Unit
  rows : List Row
  key : Row → κ
  start : κ
  position : Cursor → κ
  read : Row → Except StorageError Record
  cursor : Record → Cursor

namespace Listing

variable {Row Record Cursor κ : Type} [LinearOrder κ] (listing : Listing Row Record Cursor κ)

instance : DecidablePred listing.bound := listing.decidableBound

def page (limit : Nat) (cursor : Option Cursor) :
    Except StorageError (List Record × Option Cursor) := do
  validatePageLimit limit
  require (∀ c ∈ cursor, listing.bound c) listing.mismatch
  listing.guard cursor
  Lib.Paging.page listing.read listing.cursor limit
    (select listing.key listing.rows (cursor.elim listing.start listing.position) (limit + 1))

/-- Following the cursors from the start ends, and visits the record of every row once, in the
order of the keys. -/
def Exact (limit : Nat) : Prop :=
  ∃ records, (∀ visited, Visits (listing.page limit) none visited ↔ visited = records) ∧
    ∃ rows, rows.Perm listing.rows ∧ rows.Pairwise (fun a b => listing.key a < listing.key b) ∧
      List.Forall₂ (fun row record => listing.read row = .ok record) rows records

/-- What the rows and cursors of a listing keep. -/
structure Keyed : Prop where
  nodup : (listing.rows.map listing.key).Nodup
  start : ∀ row ∈ listing.rows, listing.start < listing.key row
  guard : listing.guard none = .ok ()
  cursor : ∀ row ∈ listing.rows, ∀ record, listing.read row = .ok record →
    listing.bound (listing.cursor record) ∧ listing.guard (some (listing.cursor record)) = .ok () ∧
      listing.position (listing.cursor record) = listing.key row

variable {listing} {limit : Nat}

theorem page_of_unbound (hlimit : validatePageLimit limit = .ok ()) {cursor : Cursor}
    (h : ¬ listing.bound cursor) : listing.page limit (some cursor) = .error listing.mismatch := by
  unfold page
  rw [hlimit, ok_bind, require, if_neg (by simpa using h), error_bind]

/-- The cursors a listing accepts. -/
def Bound (listing : Listing Row Record Cursor κ) (c : Option Cursor) : Prop :=
  (∀ b ∈ c, listing.bound b) ∧ listing.guard c = .ok ()

theorem page_of_bound (hlimit : validatePageLimit limit = .ok ()) {c : Option Cursor}
    (hc : listing.Bound c) : listing.page limit c =
      Lib.Paging.page listing.read listing.cursor limit
        (select listing.key listing.rows (c.elim listing.start listing.position) (limit + 1)) := by
  unfold page
  rw [hlimit, ok_bind, require, if_pos hc.1, ok_bind, hc.2, ok_bind]

theorem Keyed.cursor_bound (h : listing.Keyed) {row : Row} (hrow : row ∈ listing.rows)
    {record : Record} (hread : listing.read row = .ok record) :
    listing.Bound (some (listing.cursor record)) ∧
      listing.position (listing.cursor record) = listing.key row := by
  have hcursor := h.cursor row hrow record hread
  exact ⟨⟨by simpa using hcursor.1, hcursor.2.1⟩, hcursor.2.2⟩

theorem limit_pos (hlimit : validatePageLimit limit = .ok ()) : 0 < limit := by
  have hrange := (require_eq_ok.mp hlimit).1
  omega

theorem Keyed.visits_iff (h : listing.Keyed) (hlimit : validatePageLimit limit = .ok ())
    {records : List Record} : Visits (listing.page limit) none records ↔
      Forall₂ (fun row record => listing.read row = .ok record)
        (ordered listing.key listing.rows) records :=
  Lib.Paging.visits_iff (fun c => c.elim listing.start listing.position) listing.Bound h.nodup
    (limit_pos hlimit) (fun _ => page_of_bound hlimit) (fun _ hrow _ => h.cursor_bound hrow)
    ⟨by simp, h.guard⟩ h.start

/-- A row that does not read back ends every walk; the first such row, with its error. -/
theorem Keyed.fails (h : listing.Keyed) (hlimit : validatePageLimit limit = .ok ()) {row : Row}
    (hrow : row ∈ listing.rows) {fault : StorageError} (hread : listing.read row = .error fault)
    (hearlier : ∀ earlier ∈ listing.rows, listing.key earlier < listing.key row →
      ∃ record, listing.read earlier = .ok record) :
    Fails (listing.page limit) none fault := by
  obtain ⟨before, later, hsplit⟩ :=
    append_of_mem ((ordered_perm listing.key listing.rows).mem_iff.mpr hrow)
  have horder := ordered_pairwise h.nodup
  rw [hsplit] at horder
  have hpast : past listing.key listing.rows listing.start = before ++ row :: later := by
    rw [past, filter_eq_self.mpr fun row hrow =>
      decide_eq_true (h.start row ((ordered_perm _ _).mem_iff.mp hrow)), hsplit]
  refine fails_of_undecodable (fun c => c.elim listing.start listing.position) listing.Bound h.nodup
    (limit_pos hlimit) (fun _ => page_of_bound hlimit) (fun _ hrow _ => h.cursor_bound hrow)
    ⟨by simp, h.guard⟩ hpast ?_ hread
  intro earlier hmem
  refine hearlier earlier ?_ ((pairwise_append.mp horder).2.2 earlier hmem row mem_cons_self)
  exact (ordered_perm listing.key listing.rows).mem_iff.mp (hsplit ▸ mem_append_left _ hmem)

/-- A listing is exact where every row of its scope reads back. -/
theorem Keyed.exact_iff (h : listing.Keyed) (hlimit : validatePageLimit limit = .ok ()) :
    listing.Exact limit ↔ ∀ row ∈ listing.rows, ∃ record, listing.read row = .ok record := by
  constructor
  · rintro ⟨records, -, rows, hperm, -, hread⟩ row hrow
    have ⟨i, hi, hget⟩ := getElem_of_mem (hperm.mem_iff.mpr hrow)
    have hat := hread.get hi (hread.length_eq ▸ hi)
    simp only [get_eq_getElem, hget] at hat
    exact ⟨_, hat⟩
  · intro hread
    have ⟨records, hrecords⟩ : ∃ records, Forall₂
        (fun row record => listing.read row = .ok record)
        (ordered listing.key listing.rows) records :=
      exists_forall₂ fun row hrow => hread row ((ordered_perm _ _).mem_iff.mp hrow)
    refine ⟨records, ?_, _, ordered_perm _ _, ordered_pairwise h.nodup, hrecords⟩
    intro visited
    rw [h.visits_iff hlimit]
    constructor
    · intro hvisited
      have hsame := mapM_eq_ok_iff.mpr hvisited
      rw [mapM_eq_ok_iff.mpr hrecords] at hsame
      cases hsame
      rfl
    · rintro rfl
      exact hrecords

/-- Exact precisely where the rows of the scope read back, with other cursors refused. A row that
does not read back leaves no walk that ends; the listing fails with the error of the first one. -/
structure PagesExactly (listing : Listing Row Record Cursor κ) (limit : Nat) : Prop where
  exact_iff : listing.Exact limit ↔
    ∀ row ∈ listing.rows, ∃ record, listing.read row = .ok record
  fails : ∀ row ∈ listing.rows, ∀ fault, listing.read row = .error fault →
    (∀ records, ¬ Visits (listing.page limit) none records) ∧
      ((∀ earlier ∈ listing.rows, listing.key earlier < listing.key row →
          ∃ record, listing.read earlier = .ok record) →
        Fails (listing.page limit) none fault)
  refused : ∀ cursor, ¬ listing.bound cursor →
    listing.page limit (some cursor) = .error listing.mismatch

theorem Keyed.pagesExactly (h : listing.Keyed) (hlimit : validatePageLimit limit = .ok ()) :
    listing.PagesExactly limit := by
  refine ⟨h.exact_iff hlimit, fun row hrow fault hread => ⟨fun records hvisits => ?_,
    h.fails hlimit hrow hread⟩, fun _ => page_of_unbound hlimit⟩
  obtain ⟨i, hi, rfl⟩ := getElem_of_mem ((ordered_perm listing.key listing.rows).mem_iff.mpr hrow)
  have hrecords := (h.visits_iff hlimit).mp hvisits
  cases hread.symm.trans (hrecords.get hi (hrecords.length_eq ▸ hi))

/-- A walk while rows are added past those that are there is a walk of the final rows. -/
theorem Keyed.visits_of_reads {S : Type} {Later : S → S → Prop} {rows : S → List Row}
    (h : ∀ s, Keyed { listing with rows := rows s }) (hlimit : validatePageLimit limit = .ok ())
    (hgrow : ∀ s t, Later s t → ordered listing.key (rows s) <+: ordered listing.key (rows t))
    {s t : S} {records : List Record}
    (hreads : Reads Later (fun s => page { listing with rows := rows s } limit) s none records t) :
    Visits (page { listing with rows := rows t } limit) none records := by
  refine Lib.Paging.visits_of_reads rows (fun c => c.elim listing.start listing.position)
    listing.Bound hgrow
    (fun s c => @page_of_bound _ _ _ _ _ { listing with rows := rows s } _ hlimit c) ?_
    ⟨by simp, (h t).guard⟩ hreads
  exact fun s row hrow record hread => ((h s).cursor_bound hrow hread).1

end Listing

/-- A row listed by a timestamp and its id, with the columns the listing does not compare. -/
structure TimedRow (Scope Rest : Type) where
  id : Uuid
  scope : Scope
  moment : Instant
  rest : Rest
  deriving DecidableEq

structure TimedRecord (Body : Type) where
  id : Uuid
  moment : Instant
  body : Body

structure TimedCursor (Scope : Type) where
  scope : Scope
  moment : Instant
  id : Uuid

structure EventRow (Rest : Type) where
  workspaceId : Uuid
  streamKind : Bool
  streamId : Uuid
  sequence : Nat
  rest : Rest

structure EventRecord (Body : Type) where
  sequence : Nat
  body : Body

structure EventCursor where
  workspaceId : Uuid
  streamKind : Bool
  streamId : Uuid
  sequence : Nat

/-- The tables that are listed, with their primary and unique keys. The streams of jobs and runs are
told apart by a flag, and the runs of an artifact by their workspaces. -/
structure ListedTables (Rest : Type) where
  events : List (EventRow Rest)
  jobs : List (TimedRow Uuid Rest)
  runs : List (TimedRow Uuid Rest)
  artifacts : List (TimedRow (Uuid × Uuid) (Bool × Rest))
  eventKeys : (events.map fun e => (e.streamKind, e.streamId, e.sequence)).Nodup
  eventSequences : ∀ e ∈ events, 0 < e.sequence ∧ e.sequence ≤ i64Max
  jobIds : (jobs.map TimedRow.id).Nodup
  runIds : (runs.map TimedRow.id).Nodup
  artifactIds : (artifacts.map TimedRow.id).Nodup

section

variable {Text : Type} [LinearOrder Text] (texts : RowTexts Text) {Scope Rest Body : Type}
  [DecidableEq Scope]

def readTimed (readRest : Rest → Except StorageError Body) (label : String)
    (row : TimedRow Scope Rest) : Except StorageError (TimedRecord Body) := do
  let body ← readRest row.rest
  let id ← (texts.parseUuid (texts.uuidText row.id)).elim
    (.error (.serialization "invalid UUID reference")) .ok
  let moment ← (texts.parseTimestamp (texts.timestamp row.moment)).elim
    (.error (.serialization label)) .ok
  return ⟨id, moment, body⟩

/-- `(at > ? OR (at = ? AND id > ?)) ORDER BY at, id` over the texts of one scope. -/
def timedListing (readRest : Rest → Except StorageError Body) (label mismatch : String)
    (guard : Except StorageError Unit) (rows : List (TimedRow Scope Rest)) (scope : Scope) :
    Listing (TimedRow Scope Rest) (TimedRecord Body) (TimedCursor Scope) (Text ×ₗ Text) where
  mismatch := .invalidDraft mismatch
  bound cursor := cursor.scope = scope
  decidableBound := fun _ => inferInstance
  guard _ := guard
  rows := rows.filter fun row => row.scope = scope
  key row := toLex (texts.timestamp row.moment, texts.uuidText row.id)
  start := toLex (texts.empty, texts.empty)
  position cursor := toLex (texts.timestamp cursor.moment, texts.uuidText cursor.id)
  read := readTimed texts readRest label
  cursor record := ⟨scope, record.moment, record.id⟩

variable (tables : ListedTables Rest) (readRest : Rest → Except StorageError Body)

def listJobs (workspaceId : Uuid) :=
  timedListing texts readRest "Job queue timestamp" "job cursor is bound to another workspace"
    (.ok ()) tables.jobs workspaceId

def listRuns (workspaceId : Uuid) :=
  timedListing texts readRest "Run start timestamp" "Run cursor is bound to another workspace"
    (.ok ()) tables.runs workspaceId

def ensureRunWorkspace (workspaceId runId : Uuid) : Except StorageError Unit :=
  match tables.runs.find? fun run => run.id = runId with
  | none => .error (.notFound runId)
  | some run => require (run.scope = workspaceId) (.invalidDraft "Run belongs to another Workspace")

/-- The committed artifacts; the flag of a row is its committed state. -/
def listArtifactRefs (workspaceId runId : Uuid) :=
  timedListing texts (fun rest : Bool × Rest => readRest rest.2) "Artifact creation timestamp"
    "Artifact cursor is bound to another workspace or Run"
    (ensureRunWorkspace tables workspaceId runId)
    (tables.artifacts.filter fun row => row.rest.1) (workspaceId, runId)

def listEvents (workspaceId : Uuid) (streamKind : Bool) (streamId : Uuid) :
    Listing (EventRow Rest) (EventRecord Body) EventCursor Nat where
  mismatch := .invalidDraft "cursor is bound to another workspace or stream"
  bound cursor := cursor.workspaceId = workspaceId ∧ cursor.streamKind = streamKind ∧
    cursor.streamId = streamId
  decidableBound := fun _ => inferInstance
  guard cursor := require (cursor.elim 0 EventCursor.sequence ≤ i64Max)
    (.arithmeticOverflow "event cursor")
  rows := tables.events.filter fun e => e.workspaceId = workspaceId ∧ e.streamKind = streamKind ∧
    e.streamId = streamId
  key := EventRow.sequence
  start := 0
  position := EventCursor.sequence
  read row := do
    let body ← readRest row.rest
    return ⟨row.sequence, body⟩
  cursor record := ⟨workspaceId, streamKind, streamId, record.sequence⟩

variable {texts tables readRest}

theorem readTimed_eq_ok {label : String} {row : TimedRow Scope Rest} {record : TimedRecord Body}
    (h : readTimed texts readRest label row = .ok record) :
    record.id = row.id ∧ texts.timestamp record.moment = texts.timestamp row.moment := by
  obtain ⟨body, -, h⟩ := of_bind h
  rw [texts.parse_uuid, Option.elim_some, ok_bind] at h
  cases hat : texts.parseTimestamp (texts.timestamp row.moment) with
  | none =>
    rw [hat] at h
    cases h
  | some read =>
    rw [hat] at h
    cases h
    exact ⟨rfl, texts.timestamp_parse hat⟩

theorem uuidText_injective (texts : RowTexts Text) : Function.Injective texts.uuidText := by
  intro a b h
  have hparse := congrArg texts.parseUuid h
  rw [texts.parse_uuid, texts.parse_uuid] at hparse
  exact Option.some_inj.mp hparse

theorem timedListing_keyed {label mismatch : String} {guard : Except StorageError Unit}
    {rows : List (TimedRow Scope Rest)} {scope : Scope} (hids : (rows.map TimedRow.id).Nodup)
    (hguard : guard = .ok ()) :
    (timedListing texts readRest label mismatch guard rows scope).Keyed := by
  constructor
  · have hfilter : ((rows.filter fun row => row.scope = scope).map TimedRow.id).Nodup :=
      hids.sublist (filter_sublist.map _)
    apply List.Nodup.of_map fun key : Text ×ₗ Text => (ofLex key).2
    have hmap := hfilter.map (uuidText_injective texts)
    rw [map_map] at hmap ⊢
    exact hmap
  · intro row _
    exact Prod.Lex.toLex_lt_toLex.mpr (.inl (texts.empty_lt row.moment))
  · exact hguard
  · intro row hrow record hread
    have ⟨hid, hat⟩ := readTimed_eq_ok hread
    refine ⟨rfl, hguard, ?_⟩
    show toLex (texts.timestamp record.moment, texts.uuidText record.id) = _
    rw [hid, hat]
    rfl

theorem listEvents_keyed {workspaceId streamId : Uuid} {streamKind : Bool} :
    (listEvents tables readRest workspaceId streamKind streamId).Keyed := by
  have hscope : ∀ e ∈ (listEvents tables readRest workspaceId streamKind streamId).rows,
      e ∈ tables.events ∧ e.streamKind = streamKind ∧ e.streamId = streamId := by
    intro e he
    have hfilter := mem_filter.mp he
    have hmatch := of_decide_eq_true hfilter.2
    exact ⟨hfilter.1, hmatch.2⟩
  constructor
  · have hpair : (listEvents tables readRest workspaceId streamKind streamId).rows.Pairwise
        fun a b => (a.streamKind, a.streamId, a.sequence) ≠ (b.streamKind, b.streamId, b.sequence) :=
      (pairwise_map.mp tables.eventKeys).filter _
    apply pairwise_map.mpr
    apply hpair.imp_of_mem
    intro a b ha hb hne heq
    have hsequence : a.sequence = b.sequence := heq
    exact hne (by rw [(hscope a ha).2.1, (hscope a ha).2.2, (hscope b hb).2.1, (hscope b hb).2.2,
      hsequence])
  · intro e he
    exact (tables.eventSequences e (hscope e he).1).1
  · rfl
  · intro e he record hread
    obtain ⟨body, -, h⟩ := of_bind hread
    cases h
    refine ⟨⟨rfl, rfl, rfl⟩, ?_, rfl⟩
    exact require_eq_ok.mpr (tables.eventSequences e (hscope e he).1).2

/-- Every listing is exact where the rows of its scope read back, at every limit in range, and
refuses a cursor of another scope. -/
theorem listings_exact_iff {limit : Nat} (hlimit : validatePageLimit limit = .ok ()) :
    (∀ workspaceId streamKind streamId,
      (listEvents tables readRest workspaceId streamKind streamId).PagesExactly limit) ∧
    (∀ workspaceId, (listJobs texts tables readRest workspaceId).PagesExactly limit) ∧
    (∀ workspaceId, (listRuns texts tables readRest workspaceId).PagesExactly limit) ∧
    (∀ workspaceId runId, ensureRunWorkspace tables workspaceId runId = .ok () →
      (listArtifactRefs texts tables readRest workspaceId runId).PagesExactly limit) := by
  refine ⟨?_, ?_, ?_, ?_⟩
  · intro workspaceId streamKind streamId
    exact listEvents_keyed.pagesExactly hlimit
  · intro workspaceId
    exact (timedListing_keyed tables.jobIds rfl).pagesExactly hlimit
  · intro workspaceId
    exact (timedListing_keyed tables.runIds rfl).pagesExactly hlimit
  · intro workspaceId runId hrun
    have hids : ((tables.artifacts.filter fun row => row.rest.1).map TimedRow.id).Nodup :=
      tables.artifactIds.sublist (filter_sublist.map _)
    exact (timedListing_keyed hids hrun).pagesExactly hlimit

end

/-- Texts in the order of what they stand for; only years of four digits are read back. -/
def fourDigitYears : RowTexts (WithBot ℤ) where
  empty := ⊥
  timestamp moment := (moment : ℤ)
  parseTimestamp text := text.bind fun moment : ℤ =>
    if -62167219200000000000 ≤ moment ∧ moment < 253402300800000000000 then some moment else none
  uuidText id := (id.toNat : ℤ)
  parseUuid text := text.bind fun n : ℤ => some (BitVec.ofInt 128 n)
  empty_lt moment := WithBot.bot_lt_coe moment
  timestamp_parse h := by
    have ⟨_, hmoment⟩ := Option.ite_none_right_eq_some.mp h
    rw [Option.some_inj.mp hmoment]
  parse_uuid id := by
    show some (BitVec.ofInt 128 (id.toNat : ℤ)) = some id
    simp

/-- An event by the instant it occurred at. -/
def readOccurredAt (moment : Instant) : Except StorageError Instant :=
  (fourDigitYears.parseTimestamp (fourDigitYears.timestamp moment)).elim
    (.error (.serialization "Event occurrence timestamp")) .ok

def oneEvent (moment : Instant) : ListedTables Instant where
  events := [⟨1, true, 2, 1, moment⟩]
  jobs := []
  runs := []
  artifacts := []
  eventKeys := by simp
  eventSequences := by simp [i64Max]
  jobIds := List.nodup_nil
  runIds := List.nodup_nil
  artifactIds := List.nodup_nil

/-- A stream with an event in the year 10000 cannot be listed. -/
theorem lateEvent_unlisted :
    (listEvents (oneEvent 253402300800000000000) readOccurredAt 1 true 2).page 1000 none =
      .error (.serialization "Event occurrence timestamp") ∧
    ¬ (listEvents (oneEvent 253402300800000000000) readOccurredAt 1 true 2).Exact 1000 := by
  refine ⟨rfl, ?_⟩
  rw [listEvents_keyed.exact_iff rfl]
  intro h
  have ⟨record, hrecord⟩ := h ⟨1, true, 2, 1, 253402300800000000000⟩ (by simp [listEvents, oneEvent])
  cases hrecord

def threeEvents (last : Instant) : ListedTables Instant :=
  { oneEvent 0 with
    events := [⟨1, true, 2, 1, 0⟩, ⟨1, true, 2, 2, 5⟩, ⟨1, true, 2, 3, last⟩]
    eventKeys := by simp
    eventSequences := by simp [i64Max] }

/-- Three pages of one event each are the only walk; with a third event of the year 10000 the walk
fails on its second page. -/
theorem threeEvents_listed :
    (∀ visited, Visits ((listEvents (threeEvents 7) readOccurredAt 1 true 2).page 1) none visited ↔
      visited = [⟨1, 0⟩] ++ ([⟨2, 5⟩] ++ [⟨3, 7⟩])) ∧
    Fails ((listEvents (threeEvents 253402300800000000000) readOccurredAt 1 true 2).page 1) none
      (.serialization "Event occurrence timestamp") := by
  have hlisted := fun last : Instant => (@listings_exact_iff _ _ fourDigitYears _ _
    (threeEvents last) readOccurredAt 1 rfl).1 1 true 2
  have hrows : ∀ last, (listEvents (threeEvents last) readOccurredAt 1 true 2).rows =
      (threeEvents last).events := fun _ => rfl
  constructor
  · obtain ⟨records, hrecords, -⟩ := (hlisted 7).exact_iff.mpr (by
      rw [hrows]
      simp only [threeEvents, forall_mem_cons, not_mem_nil, false_imp_iff, implies_true, and_true]
      exact ⟨⟨_, rfl⟩, ⟨_, rfl⟩, ⟨_, rfl⟩⟩)
    obtain rfl := (hrecords ([⟨1, 0⟩] ++ ([⟨2, 5⟩] ++ [⟨3, 7⟩]))).mp
      (.more rfl (.more rfl (.last rfl)))
    exact hrecords
  · refine ((hlisted _).fails ⟨1, true, 2, 3, 253402300800000000000⟩
      (by rw [hrows]; simp [threeEvents]) _ rfl).2 ?_
    rw [hrows]
    simp only [threeEvents, forall_mem_cons, not_mem_nil, false_imp_iff, implies_true, and_true]
    exact ⟨fun _ => ⟨_, rfl⟩, fun _ => ⟨_, rfl⟩, fun hlt => absurd hlt (lt_irrefl _)⟩

section

variable {Rest Body : Type} (tables : ListedTables Rest) (workspaceId : Uuid) (streamKind : Bool)
  (streamId : Uuid)

/-- `SELECT COALESCE(MAX(sequence), 0)` of one stream. -/
def lastSequence : Nat :=
  ((tables.events.filter fun e => e.streamKind = streamKind ∧ e.streamId = streamId).map
    EventRow.sequence).max?.getD 0

theorem le_lastSequence {e : EventRow Rest} (he : e ∈ tables.events)
    (hkind : e.streamKind = streamKind) (hid : e.streamId = streamId) :
    e.sequence ≤ lastSequence tables streamKind streamId := by
  apply le_max?_getD_of_mem
  apply mem_map_of_mem
  exact mem_filter.mpr ⟨he, by simp [hkind, hid]⟩

/-- The insert of `append_event_tx`, behind the checks of the event's job and run. -/
def insertEvent (rest : Rest) : Except StorageError (ListedTables Rest) :=
  let sequence := lastSequence tables streamKind streamId + 1
  if h : sequence ≤ i64Max then
    .ok { tables with
      events := tables.events ++ [⟨workspaceId, streamKind, streamId, sequence, rest⟩]
      eventKeys := by
        rw [map_append]
        refine nodup_append.mpr ⟨tables.eventKeys, by simp, ?_⟩
        rintro _ hold _ hnew rfl
        obtain ⟨e, he, heq⟩ := mem_map.mp hold
        rw [map_singleton, mem_singleton, ← heq, Prod.mk.injEq, Prod.mk.injEq] at hnew
        exact (le_lastSequence _ _ _ he hnew.1 hnew.2.1).not_gt (hnew.2.2 ▸ Nat.lt_succ_self _)
      eventSequences := by
        intro e he
        rcases mem_append.mp he with hold | hnew
        · exact tables.eventSequences e hold
        · rw [mem_singleton.mp hnew]
          exact ⟨Nat.succ_pos _, h⟩ }
  else .error (.arithmeticOverflow "Event sequence")

/-- Any events are appended, to any streams. -/
def Appended : ListedTables Rest → ListedTables Rest → Prop :=
  Relation.ReflTransGen fun tables tables' => ∃ workspaceId streamKind streamId rest,
    insertEvent tables workspaceId streamKind streamId rest = .ok tables'

variable {tables workspaceId streamKind streamId} {readRest : Rest → Except StorageError Body}
  {tables' : ListedTables Rest}

theorem insertEvent_eq_ok {rest : Rest}
    (h : insertEvent tables workspaceId streamKind streamId rest = .ok tables') :
    ∃ new, tables'.events = tables.events ++ [new] ∧ ∀ e ∈ tables.events,
      e.streamKind = new.streamKind → e.streamId = new.streamId → e.sequence < new.sequence := by
  dsimp only [insertEvent] at h
  split at h
  · cases h
    exact ⟨_, rfl, fun e he hkind hid => Nat.lt_succ_of_le (le_lastSequence _ _ _ he hkind hid)⟩
  · cases h

theorem Appended.ordered_prefix (h : Appended tables tables') :
    ordered EventRow.sequence (listEvents tables readRest workspaceId streamKind streamId).rows <+:
      ordered EventRow.sequence (listEvents tables' readRest workspaceId streamKind streamId).rows := by
  induction h with
  | refl => exact prefix_rfl
  | @tail before after _ hstep ih =>
    apply ih.trans
    obtain ⟨_, _, _, _, hstep⟩ := hstep
    obtain ⟨new, hevents, hnew⟩ := insertEvent_eq_ok hstep
    have hkeys := (@listEvents_keyed _ _ after readRest workspaceId streamId streamKind).nodup
    simp only [listEvents, hevents, filter_append] at hkeys ⊢
    apply Lib.Paging.ordered_prefix hkeys
    intro a ha b hb
    obtain ⟨hold, hscope⟩ := mem_filter.mp ha
    obtain ⟨hb, hscope'⟩ := mem_filter.mp hb
    cases mem_singleton.mp hb
    have hstream := of_decide_eq_true hscope
    have hstream' := of_decide_eq_true hscope'
    exact hnew a hold (hstream.2.1.trans hstream'.2.1.symm) (hstream.2.2.trans hstream'.2.2.symm)

/-- A walk through an event stream while events are appended visits what an undisturbed walk at the
time of its last page does. -/
theorem listEvents_while_appended {limit : Nat} (hlimit : validatePageLimit limit = .ok ())
    {records : List (EventRecord Body)}
    (h : Reads Appended (fun tables =>
      (listEvents tables readRest workspaceId streamKind streamId).page limit) tables none records
      tables') :
    Visits ((listEvents tables' readRest workspaceId streamKind streamId).page limit) none records :=
  @Listing.Keyed.visits_of_reads _ _ _ _ _
    (listEvents tables readRest workspaceId streamKind streamId) _ _ _
    (fun tables => (listEvents tables readRest workspaceId streamKind streamId).rows)
    (fun _ => listEvents_keyed) hlimit (fun _ _ => Appended.ordered_prefix) _ _ _ h

end

def oneMoreEvent (tables : ListedTables Instant) : ListedTables Instant :=
  (insertEvent tables 1 true 2 0).toOption.getD tables

def twoEvents : ListedTables Instant := oneMoreEvent (oneEvent 0)

theorem listEvents_while_oneMoreEvent :
    Reads Appended (fun tables => (listEvents tables readOccurredAt 1 true 2).page 1) twoEvents none
      ([⟨1, 0⟩] ++ ([⟨2, 0⟩] ++ [⟨3, 0⟩])) (oneMoreEvent twoEvents) ∧
    Visits ((listEvents (oneMoreEvent twoEvents) readOccurredAt 1 true 2).page 1) none
      ([⟨1, 0⟩] ++ ([⟨2, 0⟩] ++ [⟨3, 0⟩])) := by
  have happend : Appended twoEvents (oneMoreEvent twoEvents) := .single ⟨1, true, 2, 0, rfl⟩
  apply (and_iff_left_of_imp (listEvents_while_appended rfl)).mpr
  exact .more rfl happend (.more rfl .refl (.last rfl))

end Stillflow.Storage
