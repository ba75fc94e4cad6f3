import Stillflow.Core.Descriptor
import Stillflow.Storage.Store

/-! The byte strings that artifact digests are computed from. -/

namespace Stillflow.Storage

open Stillflow.Core Lib.Fallible Lib.SelfDelimiting List

inductive ArtifactSectionId where
  | validationRuleSummary
  | validationFinding
  | rejectedRows
  | dedupRuleSummary
  | duplicateFinding
deriving DecidableEq

def ArtifactSectionId.tag : ArtifactSectionId → UInt8
  | .validationRuleSummary => 0x01
  | .validationFinding => 0x02
  | .rejectedRows => 0x03
  | .dedupRuleSummary => 0x04
  | .duplicateFinding => 0x05

inductive ArtifactKind where
  | verificationBundle
  | acceptedSnapshot
  | validationReport
  | rejectedRows
  | deduplicationReport
  | profileReport
  | qualityReport
  | exportArtifact
  | driftReport
deriving DecidableEq

def ArtifactKind.tag : ArtifactKind → UInt8
  | .verificationBundle => 0x01
  | .acceptedSnapshot => 0x02
  | .validationReport => 0x03
  | .rejectedRows => 0x04
  | .deduplicationReport => 0x05
  | .profileReport => 0xF1
  | .qualityReport => 0xF2
  | .exportArtifact => 0xF3
  | .driftReport => 0xF4

structure ContentDigest where
  bytes : List UInt8
  length_eq : bytes.length = 32

/-- A byte string with its length in front, which saturates. -/
def lenBytes (value : List UInt8) : List UInt8 :=
  leBytes 4 (if value.length ≤ u32Max then value.length else u32Max) ++ value

theorem selfDelimiting_lenBytes :
    SelfDelimitingOn (fun value : List UInt8 => value.length < 2 ^ 32) lenBytes := by
  intro a b x y ha hb h
  have hfit : ∀ n, n < 2 ^ 32 → n ≤ u32Max := fun n hn => le_u32Max_iff.mpr hn
  simp only [lenBytes, if_pos (hfit _ ha), if_pos (hfit _ hb), append_assoc] at h
  have hlength := selfDelimitingOn_leBytes 4 _ _ _ _ ha hb h
  exact append_inj hlength.2 hlength.1

instance : Wire Uuid := ⟨Uuid.asBytes, asBytes_selfDelimiting⟩

instance : Wire ContentDigest where
  put digest := lenBytes digest.bytes
  selfDelimiting := by
    intro ⟨a, ha⟩ ⟨b, hb⟩ x y _ _ h
    have hsplit := selfDelimiting_lenBytes a b x y (by omega) (by omega) h
    exact ⟨by simp [hsplit.1], hsplit.2⟩

instance : Wire ArtifactSectionId where
  put id := Wire.put id.tag
  selfDelimiting := by
    intro a b x y _ _ h
    have hsplit := Wire.split h
    exact ⟨by revert hsplit; cases a <;> cases b <;> simp [ArtifactSectionId.tag], hsplit.2⟩

instance : Wire ArtifactKind where
  put kind := Wire.put kind.tag
  selfDelimiting := by
    intro a b x y _ _ h
    have hsplit := Wire.split h
    exact ⟨by revert hsplit; cases a <;> cases b <;> simp [ArtifactKind.tag], hsplit.2⟩

/-- An optional identifier after a byte that says whether it is there. -/
instance : Wire (Option Uuid) where
  put
    | none => Wire.put (0x00 : UInt8)
    | some id => Wire.put ((0x01 : UInt8), id)
  selfDelimiting := by
    intro a b x y _ _ h
    cases a <;> cases b
    · exact ⟨rfl, (List.cons.inj h).2⟩
    · exact absurd (List.cons.inj h).1 (by dsimp only; decide)
    · exact absurd (List.cons.inj h).1 (by dsimp only; decide)
    · have hsplit := Wire.split h
      exact ⟨congrArg some (Prod.mk.inj hsplit.1).2, hsplit.2⟩

structure ArtifactPartition where
  sequence : UInt32
  rowCount : UInt64
  storedByteCount : UInt64
  digest : ContentDigest

structure ArtifactSectionStats where
  rowCount : UInt64
  storedByteCount : UInt64
  partitionCount : UInt32

/-- The fields of a section that its manifest covers. -/
structure ArtifactSection where
  sectionId : ArtifactSectionId
  schema : LogicalSchema
  schemaFingerprint : ContentDigest
  stats : ArtifactSectionStats
  sectionDigest : ContentDigest

/-- The fields of one digest. -/
inductive DigestInput where
  | partition (artifactId : Uuid) (sectionTag : UInt8) (sequence : UInt32)
    (rowCount storedByteCount : UInt64) (canonicalBatches : List (List UInt8))
  | section (artifactId : Uuid) (sectionId : ArtifactSectionId) (schema : LogicalSchema)
    (schemaFingerprint : ContentDigest) (stats : ArtifactSectionStats)
    (partitions : List ArtifactPartition)
  | manifest (version : UInt16) (artifactId : Uuid) (kind : ArtifactKind)
    (sections : List ArtifactSection)
  | bundleProvenance (runId bundleId bundleArtifactId acceptedSnapshotId : Uuid)
    (validationReportArtifactId : Uuid) (rejectedRowsArtifactId : Option Uuid)
    (deduplicationReportArtifactId : Uuid) (children : List (Uuid × ContentDigest × ContentDigest))

def canonicalSchemaBytes (schema : LogicalSchema) : Except StorageError (List UInt8) :=
  match schema.canonicalBytes with
  | .ok bytes => .ok bytes
  | .error _ => .error (.invalidManifest "logical schema cannot be canonically encoded")

def ArtifactSectionStats.bytes (stats : ArtifactSectionStats) : List UInt8 :=
  Wire.put (stats.rowCount, stats.storedByteCount, stats.partitionCount)

def ArtifactPartition.bytes (p : ArtifactPartition) : List UInt8 :=
  Wire.put (p.sequence, p.rowCount, p.storedByteCount, p.digest)

def sectionEntry (s : ArtifactSection) : Except StorageError (List UInt8) := do
  let schemaBytes ← canonicalSchemaBytes s.schema
  return Wire.put s.sectionId ++ (lenBytes schemaBytes ++ (Wire.put s.schemaFingerprint ++
    (s.stats.bytes ++ Wire.put s.sectionDigest)))

def DigestInput.domain : DigestInput → String
  | .partition .. => "stillflow.e4.partition.v1"
  | .section .. => "stillflow.e4.section.v1"
  | .manifest .. => "stillflow.e4.manifest.v1"
  | .bundleProvenance .. => "stillflow.e4.bundle-provenance.v1"

/-- What follows the domain. The batches, partitions, sections and children come last. -/
def DigestInput.body : DigestInput → Except StorageError (List UInt8)
  | .partition artifactId sectionTag sequence rowCount storedByteCount canonicalBatches =>
    .ok (Wire.put (artifactId, sectionTag, sequence, rowCount, storedByteCount) ++
      (leBytes 4 (if canonicalBatches.length ≤ u32Max then canonicalBatches.length else u32Max) ++
        canonicalBatches.flatMap lenBytes))
  | .section artifactId sectionId schema schemaFingerprint stats partitions => do
    let schemaBytes ← canonicalSchemaBytes schema
    require ((partitions.map ArtifactPartition.sequence).IsChain (· < ·))
      (StorageError.invalidManifest
        "artifact partitions are not sorted by strictly increasing sequence")
    return Wire.put (artifactId, sectionId) ++ (lenBytes schemaBytes ++ (Wire.put schemaFingerprint ++
      (stats.bytes ++ partitions.flatMap ArtifactPartition.bytes)))
  | .manifest version artifactId kind sections => do
    require (sections.length ≤ u32Max) (StorageError.arithmeticOverflow "manifest section count")
    let entries ← sections.mapM sectionEntry
    return Wire.put (version, artifactId, kind) ++ (leBytes 4 sections.length ++ entries.flatten)
  | .bundleProvenance runId bundleId bundleArtifactId acceptedSnapshotId validationReportArtifactId
      rejectedRowsArtifactId deduplicationReportArtifactId children =>
    .ok (Wire.put (runId, bundleId, bundleArtifactId, acceptedSnapshotId,
      validationReportArtifactId, rejectedRowsArtifactId, deduplicationReportArtifactId) ++
      children.flatMap Wire.put)

def DigestInput.preimage (input : DigestInput) : Except StorageError (List UInt8) := do
  let body ← input.body
  return utf8Bytes input.domain ++ [0x00] ++ body

/-- Every byte string of variable length is shorter than 2^32. -/
def DigestInput.Short : DigestInput → Prop
  | .partition _ _ _ _ _ canonicalBatches => ∀ batch ∈ canonicalBatches, batch.length < 2 ^ 32
  | .section _ _ schema _ _ _ => (schemaBytes schema).length < 2 ^ 32
  | .manifest _ _ _ sections => ∀ s ∈ sections, (schemaBytes s.schema).length < 2 ^ 32
  | .bundleProvenance .. => True

theorem canonicalSchemaBytes_eq_ok {schema : LogicalSchema} {bytes : List UInt8}
    (h : canonicalSchemaBytes schema = .ok bytes) :
    schemaFits schema = true ∧ bytes = schemaBytes schema := by
  unfold canonicalSchemaBytes at h
  split at h
  · rename_i hcanonical
    cases h
    exact canonicalBytes_eq_ok schema bytes hcanonical
  · cases h

/-- A schema as the length-prefixed string of its canonical bytes. -/
theorem selfDelimiting_schema : SelfDelimitingOn
    (fun schema => schemaFits schema = true ∧ (schemaBytes schema).length < 2 ^ 32)
    (fun schema => lenBytes (schemaBytes schema)) := by
  intro s t x y hs ht h
  have hbytes := selfDelimiting_lenBytes _ _ x y hs.2 ht.2 h
  exact ⟨schemaBytes_inj hs.1 ht.1 hbytes.1, hbytes.2⟩

theorem stats_split {a b : ArtifactSectionStats} {x y : List UInt8}
    (h : a.bytes ++ x = b.bytes ++ y) : a = b ∧ x = y := by
  have hsplit := Wire.split h
  simp only [Prod.mk.injEq] at hsplit
  exact ⟨by cases a; cases b; simp_all, hsplit.2⟩

theorem partitions_inj {ps qs : List ArtifactPartition}
    (h : ps.flatMap ArtifactPartition.bytes = qs.flatMap ArtifactPartition.bytes) : ps = qs := by
  have hentry : SelfDelimitingOn (fun _ => True) ArtifactPartition.bytes := by
    intro a b x y _ _ hab
    have hsplit := Wire.split hab
    simp only [Prod.mk.injEq] at hsplit
    exact ⟨by cases a; cases b; simp_all, hsplit.2⟩
  exact hentry.flatMap_inj (fun _ => cons_ne_nil _ _) (fun _ _ => trivial)
    (fun _ _ => trivial) h

theorem sections_inj {ss ts : List ArtifactSection} {as bs : List (List UInt8)}
    (hs : ss.mapM sectionEntry = .ok as) (ht : ts.mapM sectionEntry = .ok bs)
    (hss : ∀ s ∈ ss, (schemaBytes s.schema).length < 2 ^ 32)
    (hts : ∀ t ∈ ts, (schemaBytes t.schema).length < 2 ^ 32) (h : as.flatten = bs.flatten) :
    ss = ts := by
  let bytes (s : ArtifactSection) : List UInt8 := Wire.put s.sectionId ++
    (lenBytes (schemaBytes s.schema) ++ (Wire.put s.schemaFingerprint ++
      (s.stats.bytes ++ Wire.put s.sectionDigest)))
  have hentry : SelfDelimitingOn (fun s : ArtifactSection => schemaFits s.schema = true ∧
      (schemaBytes s.schema).length < 2 ^ 32) bytes := by
    intro s t x y hs ht hst
    simp only [bytes, append_assoc] at hst
    have hid := Wire.split hst
    have hschema := selfDelimiting_schema _ _ _ _ hs ht hid.2
    have hfingerprint := Wire.split hschema.2
    have hstats := stats_split hfingerprint.2
    have hdigest := Wire.split hstats.2
    cases s
    cases t
    simp_all
  have hread : ∀ {ss : List ArtifactSection} {as : List (List UInt8)},
      Forall₂ (fun s bytes => sectionEntry s = .ok bytes) ss as →
      (∀ s ∈ ss, schemaFits s.schema = true) ∧ as.flatten = ss.flatMap bytes := by
    intro ss as hall
    induction hall with
    | nil => simp
    | cons hhead _ hrest =>
      obtain ⟨canonical, hcanonical, hhead⟩ := of_bind hhead
      have hfits := canonicalSchemaBytes_eq_ok hcanonical
      cases hhead
      exact ⟨forall_mem_cons.mpr ⟨hfits.1, hrest.1⟩, by
        rw [flatten_cons, flatMap_cons, hrest.2, hfits.2]⟩
  have hreadS := hread (forall₂_of_mapM_ok hs)
  have hreadT := hread (forall₂_of_mapM_ok ht)
  rw [hreadS.2, hreadT.2] at h
  exact hentry.flatMap_inj (fun _ => cons_ne_nil _ _)
    (fun s hmem => ⟨hreadS.1 s hmem, hss s hmem⟩) (fun t hmem => ⟨hreadT.1 t hmem, hts t hmem⟩) h

theorem domain_body {a b : DigestInput} {bytes : List UInt8} (ha : a.preimage = .ok bytes)
    (hb : b.preimage = .ok bytes) :
    a.domain = b.domain ∧ ∃ body, a.body = .ok body ∧ b.body = .ok body := by
  obtain ⟨x, hx, ha⟩ := of_bind ha
  obtain ⟨y, hy, hb⟩ := of_bind hb
  cases ha
  have hzero : ∀ input : DigestInput, (0x00 : UInt8) ∉ utf8Bytes input.domain := by
    intro input
    cases input <;> (dsimp only [DigestInput.domain]; decide +kernel)
  have hsplit := selfDelimitingOn_terminated (0x00 : UInt8) _ _ x y (hzero a) (hzero b)
    (Except.ok.inj hb).symm
  rw [← hsplit.2] at hy
  exact ⟨utf8Bytes_injective hsplit.1, x, hx, hy⟩

/-- A preimage determines the kind of digest and every field it was built from. -/
theorem preimage_injective (a b : DigestInput) (bytes : List UInt8) (hshortA : a.Short)
    (hshortB : b.Short) (ha : a.preimage = .ok bytes) (hb : b.preimage = .ok bytes) : a = b := by
  obtain ⟨hdomain, body, ha, hb⟩ := domain_body ha hb
  cases a <;> cases b <;> try (simp [DigestInput.domain] at hdomain; done)
  case partition.partition =>
    cases ha
    have hhead := Wire.split (Except.ok.inj hb)
    have hcount := append_inj hhead.2 (by simp)
    have hbatches := selfDelimiting_lenBytes.flatMap_inj (fun _ => cons_ne_nil _ _) hshortB
      hshortA hcount.2
    simp only [Prod.mk.injEq] at hhead
    simp_all
  case section.section =>
    obtain ⟨schemaA, hschemaA, ha⟩ := of_bind ha
    obtain ⟨schemaB, hschemaB, hb⟩ := of_bind hb
    obtain ⟨_, -, ha⟩ := of_bind ha
    obtain ⟨_, -, hb⟩ := of_bind hb
    have hfitsA := canonicalSchemaBytes_eq_ok hschemaA
    have hfitsB := canonicalSchemaBytes_eq_ok hschemaB
    cases ha
    have hhead := Wire.split (Except.ok.inj hb)
    rw [hfitsA.2, hfitsB.2] at hhead
    have hschema := selfDelimiting_schema _ _ _ _ ⟨hfitsB.1, hshortB⟩ ⟨hfitsA.1, hshortA⟩ hhead.2
    have hfingerprint := Wire.split hschema.2
    have hstats := stats_split hfingerprint.2
    have hpartitions := partitions_inj hstats.2
    simp only [Prod.mk.injEq] at hhead
    simp_all
  case manifest.manifest =>
    obtain ⟨_, -, ha⟩ := of_bind ha
    obtain ⟨_, -, hb⟩ := of_bind hb
    obtain ⟨entriesA, hentriesA, ha⟩ := of_bind ha
    obtain ⟨entriesB, hentriesB, hb⟩ := of_bind hb
    cases ha
    have hhead := Wire.split (Except.ok.inj hb)
    have hcount := append_inj hhead.2 (by simp)
    have hsections := sections_inj hentriesB hentriesA hshortB hshortA hcount.2
    simp only [Prod.mk.injEq] at hhead
    simp_all
  case bundleProvenance.bundleProvenance =>
    cases ha
    have hhead := Wire.split (Except.ok.inj hb)
    have hchildren := Wire.selfDelimiting.flatMap_inj (fun _ => cons_ne_nil _ _)
      (fun _ _ => trivial) (fun _ _ => trivial) hhead.2
    simp only [Prod.mk.injEq] at hhead
    simp_all

/-- Two ways to put the batches of a partition together, and a split of the same bytes into other
batches. -/
theorem acceptedPartition_determined :
    DigestInput.partition 1 ArtifactKind.acceptedSnapshot.tag 0 (1 + 2) 4 ([[5, 6]] ++ [[7], []]) =
      .partition 1 2 0 3 (2 + 2) ([[6, 5], [7], []].map List.reverse) ∧
    (DigestInput.partition 1 2 0 3 4 [[5, 6], [7]]).preimage ≠
      (DigestInput.partition 1 2 0 3 4 [[5], [6, 7]]).preimage := by
  refine ⟨preimage_injective _ _ _ (by simp [DigestInput.Short]) (by simp [DigestInput.Short]) rfl
    rfl, fun hsame => ?_⟩
  have heq := preimage_injective (.partition 1 2 0 3 4 [[5, 6], [7]])
    (.partition 1 2 0 3 4 [[5], [6, 7]]) _ (by simp [DigestInput.Short])
    (by simp [DigestInput.Short]) hsame rfl
  simp at heq

end Stillflow.Storage
