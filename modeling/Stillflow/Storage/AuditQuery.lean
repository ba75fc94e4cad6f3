import Stillflow.Lib.Paging
import Stillflow.Storage.Store

/-! Queries of the audit log. -/

namespace Stillflow.Storage

open Stillflow.Core Lib.Fallible Lib.Paging List

structure AuditObjectRef where
  kind : String
  id : Uuid
  deriving DecidableEq

structure AuditLineageEdge where
  relation : String
  source : AuditObjectRef
  target : AuditObjectRef
  deriving DecidableEq

/-- The columns of an event that a query reads, and whether the row reads back. Maintenance events
are stored without being read back. -/
structure AuditEvent where
  workspaceId : Uuid
  sequence : Nat
  occurredAt : Instant
  actorKind : String
  actorRef : String
  action : String
  correlationId : Option String
  traceId : Option String
  object : AuditObjectRef
  lineage : List AuditLineageEdge
  expired : Bool
  readsBack : Bool
  deriving DecidableEq

structure AuditQuery where
  workspaceId : Uuid
  actorKind : Option String := none
  actorRef : Option String := none
  objectKind : Option String := none
  objectId : Option Uuid := none
  after : Option Instant := none
  before : Option Instant := none
  action : Option String := none
  traceId : Option String := none
  correlationId : Option String := none
  includeExpired : Bool := false

structure AuditCursor (Digest : Type) where
  workspaceId : Uuid
  sequence : Nat
  filterDigest : Digest
  deriving DecidableEq

def objectJson (object : AuditObjectRef) : Value :=
  .object [("kind", .string object.kind), ("id", .string (String.ofList (uuidText object.id)))]

def edgeJson (edge : AuditLineageEdge) : Value :=
  .object [("relation", .string edge.relation), ("from", objectJson edge.source),
    ("to", objectJson edge.target)]

def lineageJson (lineage : List AuditLineageEdge) : List Char :=
  Value.text (.array (lineage.map edgeJson))

/-- `text LIKE pattern`: `%` for any text, `_` for any character, ASCII case ignored. -/
def like : List Char → List Char → Bool
  | [], text => text.isEmpty
  | p :: pattern, text =>
    if p = '%' then text.tails.any (like pattern)
    else match text with
      | [] => false
      | c :: text => (p = '_' || p.toLower = c.toLower) && like pattern text

/-- `lineage_json LIKE '%text%'`. -/
def lineageMentions (event : AuditEvent) (text : List Char) : Bool :=
  like (['%'] ++ text ++ ['%']) (lineageJson event.lineage)

/-- The text occurs in the other, ASCII case ignored. -/
def Mentions (text hay : List Char) : Prop := text.map Char.toLower <:+: hay.map Char.toLower

instance (text hay : List Char) : Decidable (Mentions text hay) :=
  decidable_of_iff ((hay.map Char.toLower).tails.any (text.map Char.toLower).isPrefixOf = true)
    (by simp [Mentions, infix_iff_prefix_suffix, and_comm])

/-- The hyphen, digits and letters. -/
def plainChars : List Char :=
  '-' :: ((range 75).map fun n => Char.ofNat (48 + n)).filter Char.isAlphanum

/-- A text without wildcards and without anything that JSON escapes or writes around texts. -/
def Plain (text : List Char) : Prop := text ≠ [] ∧ ∀ c ∈ text, c ∈ plainChars

instance (text : List Char) : Decidable (Plain text) :=
  decidable_of_iff ((!text.isEmpty && text.all plainChars.contains) = true) (by simp [Plain])

/-- What JSON writes for a text between the quotation marks. -/
def jsonToken (text : String) : List Char := text.toList.flatMap escapeChar

def objectTokens (object : AuditObjectRef) : List (List Char) :=
  [jsonToken "kind", jsonToken object.kind, jsonToken "id",
    jsonToken (String.ofList (uuidText object.id))]

/-- The field names, the relation, the kinds and the ids of an edge, as its JSON has them. -/
def edgeTokens (edge : AuditLineageEdge) : List (List Char) :=
  [jsonToken "relation", jsonToken edge.relation, jsonToken "from"] ++ objectTokens edge.source ++
    [jsonToken "to"] ++ objectTokens edge.target

/-- The text occurs in one of the names, relations, kinds and ids of the lineage. -/
def LineageNames (text : List Char) (lineage : List AuditLineageEdge) : Prop :=
  ∃ edge ∈ lineage, ∃ token ∈ edgeTokens edge, Mentions text token

instance (text : List Char) (lineage : List AuditLineageEdge) :
    Decidable (LineageNames text lineage) :=
  decidable_of_iff ((lineage.any fun edge => (edgeTokens edge).any fun token =>
    decide (Mentions text token)) = true) (by simp [LineageNames])

def jsonMarks : List Char := ['"', ':', ',', '[', ']', Char.ofNat 123, Char.ofNat 125]

theorem plainChars_spec {c : Char} (h : c ∈ plainChars) : c ≠ '%' ∧ c ≠ '_' ∧
    escapeChar c = [c] ∧ ∀ mark ∈ jsonMarks, c.toLower ≠ mark.toLower := by
  have hall : plainChars.all (fun c => c != '%' && (c != '_' && (escapeChar c == [c] &&
      jsonMarks.all fun mark => c.toLower != mark.toLower))) = true := by decide +kernel
  have hc := all_eq_true.mp hall c h
  simpa only [Bool.and_eq_true, bne_iff_ne, beq_iff_eq, all_eq_true] using hc

theorem infix_append_cons_iff {l x y : List Char} {c : Char} (hc : c ∉ l) :
    l <:+: x ++ c :: y ↔ l <:+: x ∨ l <:+: y := by
  constructor
  · rintro ⟨s, t, h⟩
    rw [append_assoc] at h
    rcases append_eq_append_iff.mp h with ⟨a, rfl, hl⟩ | ⟨b, rfl, hl⟩
    · rcases append_eq_append_iff.mp hl with ⟨d, rfl, -⟩ | ⟨d, rfl, hd⟩
      · exact .inl ⟨s, d, by simp⟩
      · cases d with
        | nil => exact .inl ⟨s, [], by simp⟩
        | cons e d => simp [(cons.inj hd).1] at hc
    · cases b with
      | nil =>
        cases l with
        | nil => exact .inl nil_infix
        | cons e l => simp [(cons.inj hl).1] at hc
      | cons e b => exact .inr ⟨b, t, by simp [(cons.inj hl).2]⟩
  · rintro (h | h)
    · exact h.trans ⟨[], c :: y, by simp⟩
    · exact h.trans ⟨x ++ [c], [], by simp⟩

section

variable {text : List Char} (hplain : Plain text)

include hplain

theorem like_prefix_iff (hay : List Char) :
    like (text ++ ['%']) hay = true ↔ text.map Char.toLower <+: hay.map Char.toLower := by
  have hchars := hplain.2
  clear hplain
  induction text generalizing hay with
  | nil => simp [like]
  | cons c text ih =>
    obtain ⟨hpercent, hunderscore, -⟩ := plainChars_spec (hchars c mem_cons_self)
    have hrest := fun hay => ih hay fun d hd => hchars d (mem_cons_of_mem c hd)
    cases hay with
    | nil => simp [like, hpercent]
    | cons d hay => simp [like, hpercent, hunderscore, hrest, cons_prefix_cons]

theorem like_iff (hay : List Char) :
    like (['%'] ++ text ++ ['%']) hay = true ↔ Mentions text hay := by
  have hopen : like (['%'] ++ text ++ ['%']) hay = hay.tails.any (like (text ++ ['%'])) := by
    simp [like]
  rw [hopen, any_eq_true]
  simp only [mem_tails, like_prefix_iff hplain, Mentions, infix_iff_prefix_suffix]
  constructor
  · rintro ⟨tail, htail, h⟩
    exact ⟨_, h, htail.map _⟩
  · rintro ⟨tail, h, htail⟩
    obtain ⟨front, hfront⟩ := htail
    obtain ⟨a, b, hay, ha, hb⟩ := map_eq_append_iff.mp hfront.symm
    exact ⟨b, ⟨a, hay.symm⟩, hb ▸ h⟩

theorem mentions_mark {mark : Char} (hmark : mark ∈ jsonMarks) (x y : List Char) :
    Mentions text (x ++ mark :: y) ↔ Mentions text x ∨ Mentions text y := by
  unfold Mentions
  rw [map_append, map_cons, infix_append_cons_iff]
  intro hmem
  obtain ⟨c, hc, heq⟩ := mem_map.mp hmem
  exact (plainChars_spec (hplain.2 c hc)).2.2.2 mark hmark heq

theorem not_mentions_nil : ¬ Mentions text [] := by
  simp [Mentions, hplain.1]

theorem mentions_commaSeparated (texts : List (List Char)) :
    Mentions text (commaSeparated texts) ↔ ∃ t ∈ texts, Mentions text t := by
  induction texts with
  | nil => simpa [commaSeparated] using not_mentions_nil hplain
  | cons t texts ih =>
    cases texts with
    | nil => simp [commaSeparated]
    | cons t' texts =>
      have hcons : commaSeparated (t :: t' :: texts) =
          t ++ ',' :: commaSeparated (t' :: texts) := by
        simp [commaSeparated, intersperse]
      rw [hcons, mentions_mark hplain (by decide), ih, exists_mem_cons_iff _ t]

/-- Between two marks stands what the marks enclose. -/
theorem mentions_enclosed {first last : Char} (hfirst : first ∈ jsonMarks)
    (hlast : last ∈ jsonMarks) (t : List Char) :
    Mentions text ([first] ++ t ++ [last]) ↔ Mentions text t := by
  have hnil := not_mentions_nil hplain
  have h := mentions_mark hplain hfirst [] (t ++ [last])
  rw [mentions_mark hplain hlast] at h
  simpa [hnil] using h

theorem mentions_memberText (key : String) (value : List Char) :
    Mentions text (memberText key value) ↔ Mentions text (jsonToken key) ∨ Mentions text value := by
  have hmember : memberText key value = quote key.toList ++ ':' :: value := by simp [memberText]
  rw [hmember, mentions_mark hplain (by decide), quote,
    mentions_enclosed hplain (by decide) (by decide)]
  rfl

theorem mentions_quote (t : String) :
    Mentions text (quote t.toList) ↔ Mentions text (jsonToken t) :=
  mentions_enclosed hplain (by decide) (by decide) _

theorem mentions_objectText (members : List (List Char)) :
    Mentions text (objectText members) ↔ ∃ member ∈ members, Mentions text member := by
  rw [objectText, mentions_enclosed hplain (by decide) (by decide), mentions_commaSeparated hplain]

theorem mentions_edgeJson (edge : AuditLineageEdge) :
    Mentions text (edgeJson edge).text ↔ ∃ token ∈ edgeTokens edge, Mentions text token := by
  simp only [edgeJson, objectJson, Value.text, entryTexts, mentions_objectText hplain,
    mentions_memberText hplain, mentions_quote hplain, edgeTokens, objectTokens, cons_append,
    nil_append, exists_mem_cons_iff, not_mem_nil, false_and, exists_false, or_false, or_assoc]

/-- The `LIKE` of a plain text finds it exactly in the names, relations, kinds and ids. -/
theorem lineageMentions_iff (event : AuditEvent) :
    lineageMentions event text = true ↔ LineageNames text event.lineage := by
  have hitems : ∀ values : List Value, itemTexts values = values.map Value.text := by
    intro values
    induction values with
    | nil => rfl
    | cons value values ih => rw [itemTexts, ih, map_cons]
  rw [lineageMentions, like_iff hplain, lineageJson, Value.text, arrayText,
    mentions_enclosed hplain (by decide) (by decide), mentions_commaSeparated hplain, hitems]
  simp only [mem_map, exists_exists_and_eq_and, mentions_edgeJson hplain]
  rfl

end

namespace AuditQuery

variable (query : AuditQuery) (event : AuditEvent)

/-- The conditions that compare a column with a value of the query. -/
def EqualColumns : Prop :=
  event.workspaceId = query.workspaceId ∧
    (query.includeExpired = false → event.expired = false) ∧
    (∀ kind ∈ query.actorKind, event.actorKind = kind) ∧
    (∀ actor ∈ query.actorRef, event.actorRef = actor) ∧
    (∀ action ∈ query.action, event.action = action) ∧
    (∀ trace ∈ query.traceId, event.traceId = some trace) ∧
    (∀ correlation ∈ query.correlationId, event.correlationId = some correlation)

instance : Decidable (query.EqualColumns event) := by
  unfold EqualColumns
  infer_instance

/-- The object conditions of the statement. -/
def ObjectClauses : Prop :=
  (query.objectKind.all fun kind =>
    event.object.kind = kind || lineageMentions event kind.toList) = true ∧
  (query.objectId.all fun id =>
    event.object.id = id || lineageMentions event (uuidText id)) = true

instance : Decidable (query.ObjectClauses event) := by
  unfold ObjectClauses
  infer_instance

/-- The wanted kind and the wanted id occur, each somewhere: as the event's own, or in a name, a
relation, a kind or an id of the lineage. -/
def Named : Prop :=
  (∀ kind ∈ query.objectKind, event.object.kind = kind ∨ LineageNames kind.toList event.lineage) ∧
    ∀ id ∈ query.objectId, event.object.id = id ∨ LineageNames (uuidText id) event.lineage

instance : Decidable (query.Named event) :=
  decidable_of_iff (((query.objectKind.all fun kind =>
      event.object.kind == kind || decide (LineageNames kind.toList event.lineage)) &&
    query.objectId.all fun id =>
      event.object.id == id || decide (LineageNames (uuidText id) event.lineage)) = true)
    (by simp [Named, Option.all_eq_true])

/-- The event's own object, or one of its lineage, has exactly the wanted kind and id. -/
def ObjectMatches : Prop :=
  ∃ object ∈ event.object :: event.lineage.flatMap fun edge => [edge.source, edge.target],
    (query.objectKind.all fun kind => object.kind = kind) = true ∧
      (query.objectId.all fun id => object.id = id) = true

instance : Decidable (query.ObjectMatches event) := by
  unfold ObjectMatches
  infer_instance

/-- The time bounds, compared as instants or as the texts the database keeps. -/
def Between {Text : Type} [LE Text] (timestamp : Instant → Text) : Prop :=
  (∀ t ∈ query.after, timestamp t ≤ timestamp event.occurredAt) ∧
    (∀ t ∈ query.before, timestamp event.occurredAt ≤ timestamp t)

instance {Text : Type} [LinearOrder Text] (timestamp : Instant → Text) :
    Decidable (query.Between event timestamp) := by
  unfold Between
  infer_instance

/-- `AuditQuery` as the filter it stands for. -/
def Matches : Prop :=
  query.EqualColumns event ∧ query.ObjectMatches event ∧ query.Between event id

instance : Decidable (query.Matches event) := by
  unfold Matches
  infer_instance

theorem plain_uuidText (id : Uuid) : Plain (uuidText id) := by
  have hdigit : ∀ k : Fin 16, hexDigit k ∈ plainChars := by decide +kernel
  have hall : ∀ c ∈ (range 32).map (uuidDigit id), c ∈ plainChars := by
    intro c hc
    obtain ⟨i, -, rfl⟩ := mem_map.mp hc
    exact hdigit ⟨_, Nat.mod_lt _ (by decide)⟩
  refine ⟨by simp [uuidText], fun c hc => ?_⟩
  have hyphen : '-' ∈ plainChars := mem_cons_self
  simp only [uuidText, mem_append, mem_singleton] at hc
  rcases hc with ((((((((hc | rfl) | hc) | rfl) | hc) | rfl) | hc) | rfl) | hc)
  all_goals first
    | exact hyphen
    | exact hall c (mem_of_mem_take hc)
    | exact hall c (mem_of_mem_drop (mem_of_mem_take hc))
    | exact hall c (mem_of_mem_drop hc)

theorem mentions_jsonToken {text : String} (h : Plain text.toList) :
    Mentions text.toList (jsonToken text) := by
  have hescape : jsonToken text = text.toList := by
    unfold jsonToken
    rw [flatMap_congr fun c hc => (plainChars_spec (h.2 c hc)).2.2.1, flatMap_singleton']
  rw [hescape, Mentions]

variable {query event}

theorem objectClauses_iff (hkind : ∀ kind ∈ query.objectKind, Plain kind.toList) :
    query.ObjectClauses event ↔ query.Named event := by
  unfold ObjectClauses Named
  simp only [Option.all_eq_true, Bool.or_eq_true, decide_eq_true_eq, Option.mem_def]
  refine and_congr (forall₂_congr fun kind hk => ?_) (forall₂_congr fun id _ => ?_)
  · rw [lineageMentions_iff (hkind kind hk)]
  · rw [lineageMentions_iff (plain_uuidText id)]

/-- What matches is found. -/
theorem ObjectMatches.named (hkind : ∀ kind ∈ query.objectKind, Plain kind.toList)
    (h : query.ObjectMatches event) : query.Named event := by
  obtain ⟨object, hobject, hk, hi⟩ := h
  simp only [Option.all_eq_true, decide_eq_true_eq] at hk hi
  rcases mem_cons.mp hobject with rfl | hobject
  · exact ⟨fun kind h => .inl (hk kind h), fun id h => .inl (hi id h)⟩
  · obtain ⟨edge, hedge, hend⟩ := mem_flatMap.mp hobject
    have htokens : ∀ token ∈ objectTokens object, token ∈ edgeTokens edge := by
      intro token htoken
      simp only [mem_cons, not_mem_nil, or_false] at hend
      rcases hend with rfl | rfl <;> simp [edgeTokens, htoken]
    refine ⟨fun kind h => .inr ⟨edge, hedge, jsonToken kind, htokens _ ?_, ?_⟩,
      fun id h => .inr ⟨edge, hedge, jsonToken (String.ofList (uuidText id)), htokens _ ?_, ?_⟩⟩
    · simp [objectTokens, hk kind h]
    · exact mentions_jsonToken (hkind kind h)
    · simp [objectTokens, hi id h]
    · have hplain := plain_uuidText id
      rw [← String.toList_ofList (l := uuidText id)] at hplain
      simpa using mentions_jsonToken hplain

end AuditQuery

/-- The log, with its unique sequence numbers. -/
structure AuditLog where
  events : List AuditEvent
  keys : (events.map fun e => (e.workspaceId, e.sequence)).Nodup
  sequences : ∀ e ∈ events, 0 < e.sequence ∧ e.sequence ≤ i64Max

def maxAuditPageSize : Nat := 1000

/-- `record_from_row`, with the error of a page that has such a row. -/
def AuditEvent.recordFromRow (event : AuditEvent) : Except StorageError AuditEvent :=
  if event.readsBack then .ok event else .error (.database "decode audit page")

/-- The years that RFC 3339 writes with four digits, 0000 to 9999, in nanoseconds of the epoch. -/
def FourDigitYear (t : Instant) : Prop :=
  -62167219200 * 10 ^ 9 ≤ t ∧ t < 253402300800 * 10 ^ 9

instance (t : Instant) : Decidable (FourDigitYear t) := inferInstanceAs (Decidable (_ ∧ _))

section

variable {Text Digest : Type} [LinearOrder Text] [DecidableEq Digest] (timestamp : Instant → Text)
  (filterDigest : AuditQuery → Digest) (log : AuditLog) (query : AuditQuery)

def selected : List AuditEvent := log.events.filter fun e =>
  query.EqualColumns e ∧ query.ObjectClauses e ∧ query.Between e timestamp

/-- One page. Sequence numbers are positive, so no cursor is the position zero. -/
def auditQuery (limit : Nat) (cursor : Option (AuditCursor Digest)) :
    Except StorageError (List AuditEvent × Option (AuditCursor Digest)) := do
  require (query.workspaceId ≠ 0) (StorageError.invalidDraft "audit workspace must not be nil")
  require (limit ≠ 0 ∧ limit ≤ maxAuditPageSize)
    (StorageError.invalidDraft "audit page size must be between 1 and 1000")
  require (∀ c ∈ cursor, c.workspaceId = query.workspaceId ∧ c.filterDigest = filterDigest query)
    (StorageError.invalidDraft "audit cursor is outside its workspace or filter scope")
  require (cursor.elim 0 AuditCursor.sequence ≤ i64Max)
    (StorageError.arithmeticOverflow "audit cursor")
  page AuditEvent.recordFromRow (fun e => ⟨query.workspaceId, e.sequence, filterDigest query⟩) limit
    (select AuditEvent.sequence (selected timestamp log query)
      (cursor.elim 0 AuditCursor.sequence) (limit + 1))

variable {timestamp filterDigest log query}

theorem mem_selected {e : AuditEvent} : e ∈ selected timestamp log query ↔ e ∈ log.events ∧
    query.EqualColumns e ∧ query.ObjectClauses e ∧ query.Between e timestamp := by
  simp [selected]

theorem selected_nodup : ((selected timestamp log query).map AuditEvent.sequence).Nodup := by
  have hpair : (selected timestamp log query).Pairwise
      fun a b => (a.workspaceId, a.sequence) ≠ (b.workspaceId, b.sequence) :=
    (pairwise_map.mp log.keys).filter _
  apply pairwise_map.mpr
  apply hpair.imp_of_mem
  intro a b ha hb hne heq
  have hwa : a.workspaceId = query.workspaceId := (mem_selected.mp ha).2.1.1
  have hwb : b.workspaceId = query.workspaceId := (mem_selected.mp hb).2.1.1
  exact hne (by rw [hwa, hwb, heq])

theorem recordFromRow_eq_ok {e e' : AuditEvent} :
    e.recordFromRow = .ok e' ↔ e.readsBack = true ∧ e' = e := by
  unfold AuditEvent.recordFromRow
  split_ifs with h <;> simp [h, eq_comm]

theorem forall₂_recordFromRow_iff {items items' : List AuditEvent} :
    Forall₂ (fun a b => a.recordFromRow = .ok b) items items' ↔
      (∀ e ∈ items, e.readsBack = true) ∧ items' = items := by
  simp only [recordFromRow_eq_ok]
  induction items generalizing items' with
  | nil => simp
  | cons e items ih =>
    cases items' with
    | nil => simp
    | cons e' items' =>
      simp only [forall₂_cons, ih, forall_mem_cons, cons.injEq]
      tauto

theorem auditQuery_visits_iff (hworkspace : query.workspaceId ≠ 0) {limit : Nat}
    (hlimit : 1 ≤ limit ∧ limit ≤ maxAuditPageSize) {visited : List AuditEvent} :
    Visits (auditQuery timestamp filterDigest log query limit) none visited ↔
      (∀ e ∈ selected timestamp log query, e.readsBack = true) ∧
        visited = ordered AuditEvent.sequence (selected timestamp log query) := by
  have hmem : (∀ e ∈ selected timestamp log query, e.readsBack = true) ↔
      ∀ e ∈ ordered AuditEvent.sequence (selected timestamp log query), e.readsBack = true :=
    forall_congr' fun e => by rw [(ordered_perm AuditEvent.sequence _).mem_iff]
  rw [hmem, ← forall₂_recordFromRow_iff]
  have hpage : ∀ c : Option (AuditCursor Digest),
      (∀ b ∈ c, b.workspaceId = query.workspaceId ∧ b.filterDigest = filterDigest query) ∧
        c.elim 0 AuditCursor.sequence ≤ i64Max →
      auditQuery timestamp filterDigest log query limit c =
        page AuditEvent.recordFromRow
          (fun e => ⟨query.workspaceId, e.sequence, filterDigest query⟩) limit
          (select AuditEvent.sequence (selected timestamp log query)
            (c.elim 0 AuditCursor.sequence) (limit + 1)) := by
    intro c hc
    unfold auditQuery
    simp only [require, if_pos hworkspace, if_pos hc.1, if_pos hc.2, ok_bind,
      if_pos (show limit ≠ 0 ∧ limit ≤ maxAuditPageSize by omega)]
  apply visits_iff _ _ selected_nodup (by omega) hpage
  · intro e he b hb
    rw [(recordFromRow_eq_ok.mp hb).2]
    exact ⟨⟨by simp, (log.sequences e (mem_selected.mp he).1).2⟩, rfl⟩
  · exact ⟨by simp, Nat.zero_le _⟩
  · intro e he
    exact (log.sequences e (mem_selected.mp he).1).1

end

/-- Two runs, and the version of a plan. -/
def runLog : AuditLog where
  events := [
    ⟨1, 1, 0, "user", "u", "run.start", none, none, ⟨"Run", 7⟩,
      [⟨"executes", ⟨"PlanVersion", 8⟩, ⟨"Run", 7⟩⟩], false, true⟩,
    ⟨1, 2, 5, "user", "u", "run.start", none, none, ⟨"Run", 9⟩,
      [⟨"executes", ⟨"PlanVersion", 8⟩, ⟨"Run", 9⟩⟩], false, true⟩,
    ⟨1, 3, 6, "user", "u", "run.publish", none, none, ⟨"Artifact", 4⟩,
      [⟨"produced-by", ⟨"Run", 7⟩, ⟨"Artifact", 4⟩⟩], false, true⟩]
  keys := by decide
  sequences := by decide

def byRun : AuditQuery :=
  { workspaceId := 1, objectKind := some "Run", objectId := some 7, after := some 0 }

end Stillflow.Storage
