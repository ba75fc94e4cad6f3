import Stillflow.Core.Text
import Stillflow.Lib.ShortestPrefix

/-!
Redaction of secret values in public error texts. `sanitizeMessage` searches the text once for each
marker; the text is read here as words between whitespace and semicolons, since neither a marker
nor a value goes beyond its word.
-/

namespace Stillflow.Core

open Lib.ShortestPrefix List Option

inductive ErrorCategory where
  | authentication
  | authorization
  | notFound
  | invalidConfiguration
  | invalidData
  | schemaDrift
  | rateLimited
  | timeout
  | cancelled
  | unsupportedCapability
  | transientSource
  | internal
  deriving DecidableEq

structure ConnectorError where
  category : ErrorCategory
  retryable : Bool
  userMessage : String
  internalChain : List String
  sourceContext : Metadata
  unsupportedCapability : Option String

structure SanitizedErrorSummary where
  category : ErrorCategory
  retryable : Bool
  message : String
  deriving DecidableEq

abbrev Marker := List Char

def redactionMarkers : List Marker :=
  ["password=", "token=", "api_key=", "secret="].map String.toList

def redactionMask : List Char := "***".toList

/-- Where a secret value ends. -/
def isTerminator (c : Char) : Bool := isWhitespace c || c == ';'

def asciiLowercase (text : List Char) : List Char := text.map Char.toLower

/-- `str::find`: the first position of the needle. -/
def findText (needle : List Char) : List Char → Option Nat
  | [] => if needle = [] then some 0 else none
  | c :: text =>
    if needle <+: c :: text then some 0 else (findText needle text).map (· + 1)

/-- One turn of the loop: the value after the first occurrence of the marker is replaced. -/
def redactMarker (text : List Char) (marker : Marker) : List Char :=
  match findText marker (asciiLowercase text) with
  | none => text
  | some index =>
    let start := index + marker.length
    text.take start ++ redactionMask ++ (text.drop start).dropWhile (!isTerminator ·)

def sanitizeMessage (message : String) : String :=
  String.ofList (redactionMarkers.foldl redactMarker message.toList)

namespace ConnectorError

def withCategory (category : ErrorCategory) (retryable : Bool) (userMessage : String)
    (internalChain : List String) (sourceContext : Metadata) : ConnectorError where
  category := category
  retryable := retryable
  userMessage := sanitizeMessage userMessage
  internalChain := internalChain
  sourceContext := sourceContext.map fun _ value => sanitizeMessage value
  unsupportedCapability := none

def timeout (message : String) : ConnectorError where
  category := .timeout
  retryable := true
  userMessage := sanitizeMessage message
  internalChain := []
  sourceContext := ∅
  unsupportedCapability := none

end ConnectorError

def SanitizedErrorSummary.tryNew (category : ErrorCategory) (retryable : Bool) (message : String) :
    Except ConnectorError SanitizedErrorSummary :=
  .ok ⟨category, retryable, sanitizeMessage message⟩

variable {c : Char} {k i : Marker} {p q s t w v : List Char}

/-- The text ends with the marker, in any letter case. -/
def Ends (k : Marker) (p : List Char) : Prop := k <:+ asciiLowercase p

instance (k : Marker) : DecidablePred (Ends k) := fun _ => inferInstanceAs (Decidable (_ <:+ _))

theorem markers_chars : ∀ k ∈ redactionMarkers, ∀ c ∈ k, isTerminator c = false ∧ c ≠ '*' := by
  simp [redactionMarkers, isTerminator, isWhitespace]

theorem mask_chars : ∀ c ∈ redactionMask, c = '*' := by simp [redactionMask]

theorem markers_ne_nil : ∀ k ∈ redactionMarkers, k ≠ [] := by decide

theorem markers_suffix : ∀ k ∈ redactionMarkers, ∀ i ∈ redactionMarkers, k <:+ i → k = i := by
  decide +kernel

theorem isTerminator_toLower (h : isTerminator c = true) : c.toLower = c := by
  have hn : ¬(65 ≤ c.toNat ∧ c.toNat ≤ 90) := by
    intro hc
    simp only [isTerminator, isWhitespace, Bool.or_eq_true, Bool.and_eq_true, decide_eq_true_eq,
      beq_iff_eq] at h
    rcases h with h | rfl
    · omega
    · revert hc
      decide
  rw [Char.toLower]
  split_ifs with hc
  · exact absurd ⟨hc.1, hc.2⟩ hn
  · rfl

theorem Ends.unique (hk : k ∈ redactionMarkers) (hi : i ∈ redactionMarkers) (h : Ends k p)
    (h' : Ends i p) : k = i := by
  rcases suffix_or_suffix_of_suffix h h' with hs | hs
  · exact markers_suffix k hk i hi hs
  · exact (markers_suffix i hi k hk hs).symm

/-- A marker does not reach back over a character it does not have. -/
theorem ends_append_cons (hc : c.toLower ∉ k) : Ends k (w ++ c :: p) ↔ Ends k p := by
  have hlower : asciiLowercase (w ++ c :: p) =
      asciiLowercase w ++ c.toLower :: asciiLowercase p := by
    simp [asciiLowercase]
  unfold Ends
  rw [hlower]
  constructor
  · intro h
    rcases suffix_or_suffix_of_suffix h (suffix_append _ _) with hk | hk
    · rcases suffix_cons_iff.mp hk with rfl | hk
      · exact absurd mem_cons_self hc
      · exact hk
    · exact absurd (hk.subset mem_cons_self) hc
  · intro h
    exact (h.trans (suffix_cons _ _)).trans (suffix_append _ _)

theorem toLower_not_mem_of_terminator (hk : k ∈ redactionMarkers) (hc : isTerminator c = true) :
    c.toLower ∉ k := by
  intro h
  rw [isTerminator_toLower hc] at h
  have hfalse := (markers_chars k hk c h).1
  simp [hc] at hfalse

theorem not_ends_nil (hk : k ∈ redactionMarkers) : ¬Ends k [] := by
  intro h
  exact markers_ne_nil k hk (suffix_nil.mp h)

theorem Ends.of_masked (hk : k ∈ redactionMarkers) (hq : q <+: p ++ redactionMask)
    (h : Ends k q) : q <+: p := by
  rcases prefix_or_prefix_of_prefix hq (prefix_append p redactionMask) with hle | hle
  · exact hle
  · obtain ⟨r, rfl⟩ := hle
    have hr : r <+: redactionMask := (prefix_append_right_inj p).mp hq
    rcases eq_nil_or_concat r with rfl | ⟨r', c, rfl⟩
    · simp
    · have hc : c = '*' := mask_chars c (hr.subset (by simp))
      have hstar : c.toLower ∉ k := by
        intro hmem
        rw [hc] at hmem
        exact (markers_chars k hk _ hmem).2 (by decide)
      rw [concat_eq_append, ← append_assoc, ends_append_cons hstar] at h
      exact absurd h (not_ends_nil hk)

theorem meets_masked (hk : k ∈ redactionMarkers) :
    Meets (Ends k) (p ++ redactionMask) ↔ Meets (Ends k) p := by
  constructor
  · intro ⟨q, hq, h⟩
    exact ⟨q, h.of_masked hk hq, h⟩
  · exact Meets.mono (prefix_append p redactionMask)

theorem findText_none (h : findText k t = none) : ¬Meets (k <:+ ·) t := by
  intro ⟨p, hp, hk⟩
  induction t generalizing p with
  | nil =>
    rw [prefix_nil.mp hp] at hk
    simp [findText, suffix_nil.mp hk] at h
  | cons c t ih =>
    rw [findText] at h
    split_ifs at h with hfirst
    rcases prefix_cons_iff.mp hp with rfl | ⟨q, rfl, hq⟩
    · exact hfirst (suffix_nil.mp hk ▸ nil_prefix)
    · rcases suffix_cons_iff.mp hk with rfl | hk
      · exact hfirst (cons_prefix_cons.mpr ⟨rfl, hq⟩)
      · exact ih (map_eq_none_iff.mp h) q hq hk

theorem findText_some {index : Nat} (h : findText k t = some index) :
    Shortest (k <:+ ·) (t.take (index + k.length)) t ∧ index + k.length ≤ t.length := by
  induction t generalizing index with
  | nil =>
    simp only [findText, ite_none_right_eq_some, some.injEq] at h
    obtain ⟨rfl, rfl⟩ := h
    exact ⟨shortest_nil suffix_rfl, le_rfl⟩
  | cons c t ih =>
    rw [findText] at h
    split_ifs at h with hfirst
    · cases h
      rw [Nat.zero_add, ← prefix_iff_eq_take.mp hfirst]
      refine ⟨⟨hfirst, suffix_rfl, fun q hq hk => ?_⟩, hfirst.length_le⟩
      exact hq.eq_of_length_le hk.length_le
    · obtain ⟨index, hindex, rfl⟩ := map_eq_some_iff.mp h
      obtain ⟨hshort, hlen⟩ := ih hindex
      rw [show index + 1 + k.length = index + k.length + 1 by omega, take_succ_cons]
      refine ⟨⟨cons_prefix_cons.mpr ⟨rfl, hshort.le⟩,
        hshort.holds.trans (suffix_cons _ _), fun q hq hk => ?_⟩,
        Nat.succ_le_succ hlen⟩
      rcases prefix_cons_iff.mp hq with rfl | ⟨r, rfl, hr⟩
      · exact absurd (suffix_nil.mp hk ▸ nil_prefix) hfirst
      · rcases suffix_cons_iff.mp hk with rfl | hk
        · exact absurd (cons_prefix_cons.mpr ⟨rfl, hr.trans hshort.le⟩) hfirst
        · rw [hshort.least r hr hk]

theorem asciiLowercase_prefix (h : p <+: t) : asciiLowercase p <+: asciiLowercase t :=
  h.map Char.toLower

/-- What one turn does: nothing, or the value behind the shortest prefix that ends with the
marker is replaced. -/
theorem redactMarker_spec (t : List Char) (k : Marker) :
    (¬Meets (Ends k) t ∧ redactMarker t k = t) ∨
      ∃ p s, t = p ++ s ∧ Shortest (Ends k) p t ∧
        redactMarker t k = p ++ redactionMask ++ s.dropWhile (!isTerminator ·) := by
  rw [redactMarker]
  cases hfind : findText k (asciiLowercase t) with
  | none =>
    refine .inl ⟨fun ⟨p, hp, hk⟩ => ?_, rfl⟩
    exact findText_none hfind ⟨asciiLowercase p, asciiLowercase_prefix hp, hk⟩
  | some index =>
    obtain ⟨hshort, hlen⟩ := findText_some hfind
    refine .inr ⟨_, _, (take_append_drop (index + k.length) t).symm, ?_, rfl⟩
    have hlower : asciiLowercase (t.take (index + k.length)) =
        (asciiLowercase t).take (index + k.length) := by
      simp [asciiLowercase]
    refine ⟨ take_prefix _ _, by unfold Ends; exact hlower ▸ hshort.holds, fun q hq hk => ?_⟩
    have heq := hshort.least (asciiLowercase q) (hlower ▸ asciiLowercase_prefix hq) hk
    refine hq.eq_of_length ?_
    have hlength := congrArg List.length (heq.trans hlower.symm)
    simpa [asciiLowercase] using hlength

theorem redactMarker_of_not_meets (h : ¬Meets (Ends k) t) : redactMarker t k = t := by
  rcases redactMarker_spec t k with ⟨-, heq⟩ | ⟨p, s, -, hp, -⟩
  · exact heq
  · exact absurd hp.meets h

theorem redactMarker_of_shortest (h : Shortest (Ends k) p (p ++ s)) :
    redactMarker (p ++ s) k = p ++ redactionMask ++ s.dropWhile (!isTerminator ·) := by
  rcases redactMarker_spec (p ++ s) k with ⟨hnot, -⟩ | ⟨q, r, heq, hq, hr⟩
  · exact absurd h.meets hnot
  · cases hq.unique h
    rw [hr, append_cancel_left heq]

end Stillflow.Core
