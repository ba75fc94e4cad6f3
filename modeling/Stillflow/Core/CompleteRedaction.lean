import Stillflow.Core.RedactionReach

/-! When redaction is complete, on every text that a connector error makes public. -/

namespace Stillflow.Core

open Lib.ShortestPrefix List

variable {k : Marker} {s t w : List Char} {ws : List (List Char)} {todo : List Marker}

theorem redactMarker_of_masked (hk : k ∈ redactionMarkers) (h : AllMasked t) :
    redactMarker t k = t := by
  induction t using words_induction with
  | last w hw => exact redactMarker_blank hk hw ((word_masked_iff hw).mp h)
  | next w c t hw hc ih =>
    obtain ⟨hmw, hmt⟩ := (allMasked_append hc).mp h
    by_cases hm : Meets (Ends k) w
    · rw [redactMarker_append_of_meets hw hc hm,
        redactMarker_blank hk hw ((word_masked_iff hw).mp hmw)]
    · rw [redactMarker_append_of_not_meets hk hc hm, ih hmt]

theorem words_free (t : List Char) : ∀ w ∈ words t, TerminatorFree w := by
  induction t using words_induction with
  | last w hw => simpa [words_of_free hw] using hw
  | next w c t hw hc ih => simpa [words_append_cons hw hc] using ⟨hw, ih⟩

theorem map_blank_redactFirst (hk : k ∈ redactionMarkers) (h : ∀ w ∈ ws, TerminatorFree w) :
    (redactFirst ws k).map blank = ws.map blank := by
  induction ws with
  | nil => rfl
  | cons w ws ih =>
    rw [forall_mem_cons] at h
    rw [redactFirst]
    split_ifs
    · rw [map_cons, blank_redactMarker hk h.1, map_cons]
    · rw [map_cons, ih h.2, map_cons]

theorem words_foldl (htodo : ∀ k ∈ todo, k ∈ redactionMarkers) (t : List Char) :
    words (todo.foldl redactMarker t) = todo.foldl redactFirst (words t) := by
  induction todo generalizing t with
  | nil => rfl
  | cons k todo ih =>
    rw [forall_mem_cons] at htodo
    rw [foldl_cons, ih htodo.2, words_redactMarker htodo.1, foldl_cons]

theorem foldl_sameOutside (htodo : ∀ k ∈ todo, k ∈ redactionMarkers) (t : List Char) :
    SameOutsideSecrets t (todo.foldl redactMarker t) := by
  induction todo generalizing t with
  | nil => exact ⟨rfl, rfl⟩
  | cons k todo ih =>
    rw [forall_mem_cons] at htodo
    obtain ⟨hends, hwords⟩ := ih htodo.2 (redactMarker t k)
    rw [filter_redactMarker htodo.1] at hends
    rw [words_redactMarker htodo.1, map_blank_redactFirst htodo.1 (words_free t)] at hwords
    exact ⟨hends, hwords⟩

def redactText (t : List Char) : List Char := redactionMarkers.foldl redactMarker t

theorem redactText_sameOutside (t : List Char) : SameOutsideSecrets t (redactText t) :=
  foldl_sameOutside (fun _ hk => hk) t

theorem redactText_masked_iff (t : List Char) :
    AllMasked (redactText t) ↔ words (redactText t) = (words t).map blank := by
  rw [allMasked_iff, (redactText_sameOutside t).2]
  constructor
  · intro h
    exact ((map_congr_left h).trans (map_id _)).symm
  · intro h w hw
    rw [h] at hw
    obtain ⟨u, -, rfl⟩ := mem_map.mp hw
    exact blank_blank u

theorem redactText_word_iff {n : Nat} (hw : (words t)[n]? = some w) :
    (words (redactText t))[n]? = some (blank w) ↔ w = blank w ∨
      ∃ earlier k rest, redactionMarkers = earlier ++ k :: rest ∧ Leads k w ∧
        Reaches (words t) earlier.reverse k n := by
  have h := (tracks_nil (words_free t)).run_blank_iff (fun k hk => hk) hw
  simp only [append_nil, hw, Option.some.injEq] at h
  rw [redactText, words_foldl fun k hk => hk]
  exact h

theorem words_redactText_iff (t : List Char) :
    words (redactText t) = (words t).map blank ↔ SecretsReached t := by
  constructor
  · intro h n w hw hne
    have hword : (words (redactText t))[n]? = some (blank w) := by simp [h, hw]
    rcases (redactText_word_iff hw).mp hword with heq | hreached
    · exact absurd heq.symm hne
    · exact hreached
  · intro h
    have hlength : (words (redactText t)).length = (words t).length := by
      simpa using congrArg List.length (redactText_sameOutside t).2.symm
    refine ext_getElem? fun n => ?_
    cases hw : (words t)[n]? with
    | none =>
      rw [getElem?_eq_none_iff] at hw
      simp [hlength, hw]
    | some w =>
      rw [getElem?_map, hw, Option.map_some, redactText_word_iff hw]
      by_cases hne : blank w = w
      · exact .inl hne.symm
      · exact .inr (h n w hw hne)

theorem redactText_of_masked (h : AllMasked t) : redactText t = t := by
  have hturns : ∀ todo : List Marker, (∀ k ∈ todo, k ∈ redactionMarkers) →
      todo.foldl redactMarker t = t := by
    intro todo htodo
    induction todo with
    | nil => rfl
    | cons k todo ih =>
      rw [forall_mem_cons] at htodo
      have hk : redactMarker t k = t := redactMarker_of_masked htodo.1 h
      rw [foldl_cons, hk, ih htodo.2]
  exact hturns redactionMarkers fun _ hk => hk

/-- The places where a text becomes public, each with what else its error holds. -/
inductive PublicText where
  | userMessage (category : ErrorCategory) (retryable : Bool) (internalChain : List String)
      (sourceContext : Metadata)
  | contextValue (category : ErrorCategory) (retryable : Bool) (message : String)
      (internalChain : List String) (sourceContext : Metadata) (key : String)
  | contextKey (category : ErrorCategory) (retryable : Bool) (message : String)
      (internalChain : List String) (sourceContext : Metadata) (value : String)
  | timeout
  | summary (category : ErrorCategory) (retryable : Bool)

def PublicText.view (place : PublicText) (text : String) : String :=
  match place with
  | .userMessage category retryable internalChain sourceContext =>
    (ConnectorError.withCategory category retryable text internalChain sourceContext).userMessage
  | .contextValue category retryable message internalChain sourceContext key =>
    (ConnectorError.withCategory category retryable message internalChain
      (sourceContext.insert key text)).sourceContext.getD key ""
  | .contextKey category retryable message internalChain sourceContext value =>
    (ConnectorError.withCategory category retryable message internalChain
      (sourceContext.insert text value)).sourceContext.getKeyD text ""
  | .timeout => (ConnectorError.timeout text).userMessage
  | .summary category retryable =>
    match SanitizedErrorSummary.tryNew category retryable text with
    | .ok accepted => accepted.message
    | .error fault => fault.userMessage

/-- A context key is shown as it is, any other text sanitized. -/
theorem PublicText.view_eq (place : PublicText) (text : String) : place.view text =
    match place with
    | .contextKey .. => text
    | _ => sanitizeMessage text := by
  cases place with
  | contextValue =>
    simp [view, ConnectorError.withCategory, Std.ExtTreeMap.getD_eq_getD_getElem?]
  | contextKey => simp [view, ConnectorError.withCategory]
  | userMessage | timeout | summary => rfl

/-- The texts whose secrets a place does not show. -/
def PublicText.Hides (place : PublicText) (text : String) : Prop :=
  match place with
  | .contextKey .. => AllMasked text.toList
  | _ => SecretsReached text.toList

structure Redacted (message shown : String) : Prop where
  masked : AllMasked shown.toList
  again : sanitizeMessage shown = shown
  outside : SameOutsideSecrets message.toList shown.toList

theorem toList_sanitizeMessage (message : String) :
    (sanitizeMessage message).toList = redactText message.toList := by
  simp [sanitizeMessage, redactText]

theorem redacted_iff (message : String) :
    Redacted message (sanitizeMessage message) ↔ SecretsReached message.toList := by
  rw [← words_redactText_iff, ← redactText_masked_iff]
  constructor
  · intro h
    simpa [toList_sanitizeMessage] using h.masked
  · intro h
    refine ⟨by rwa [toList_sanitizeMessage], ?_, ?_⟩
    · rw [← String.toList_inj, toList_sanitizeMessage, toList_sanitizeMessage,
        redactText_of_masked h]
    · rw [toList_sanitizeMessage]
      exact redactText_sameOutside _

theorem sanitizeMessage_eq {message message' : String} (h : SecretsReached message.toList)
    (h' : SecretsReached message'.toList)
    (hsame : SameOutsideSecrets message.toList message'.toList) :
    sanitizeMessage message = sanitizeMessage message' := by
  rw [← String.toList_inj, toList_sanitizeMessage, toList_sanitizeMessage]
  apply eq_of_words
  · rw [(words_redactText_iff _).mpr h, (words_redactText_iff _).mpr h', hsame.2]
  · rw [← (redactText_sameOutside _).1, ← (redactText_sameOutside _).1, hsame.1]

theorem PublicText.redacted_iff (place : PublicText) (text : String) :
    Redacted text (place.view text) ↔ place.Hides text := by
  rw [view_eq]
  cases place with
  | contextKey =>
    refine ⟨fun h => h.masked, fun h => ⟨h, ?_, rfl, rfl⟩⟩
    rw [← String.toList_inj, toList_sanitizeMessage, redactText_of_masked h]
  | userMessage | contextValue | timeout | summary => exact Core.redacted_iff text

theorem PublicText.Hides.sanitized {place : PublicText} {text : String} (h : place.Hides text) :
    SecretsReached text.toList ∧ place.view text = sanitizeMessage text := by
  have hshown := ((place.redacted_iff text).mpr h).again
  rw [view_eq] at hshown ⊢
  cases place with
  | contextKey =>
    have hmasked : AllMasked (redactText text.toList) := by rwa [redactText_of_masked h]
    exact ⟨(words_redactText_iff _).mp ((redactText_masked_iff _).mp hmasked), hshown.symm⟩
  | userMessage | contextValue | timeout | summary => exact ⟨h, rfl⟩

/-- Redaction is complete on exactly the texts whose secrets are all reached and, where the text is a
context key, are masked already. -/
theorem redaction_complete (place : PublicText) (message message' : String) :
    (Redacted message (place.view message) ∧ Redacted message' (place.view message') ∧
      (SameOutsideSecrets message.toList message'.toList →
        place.view message = place.view message')) ↔
    place.Hides message ∧ place.Hides message' := by
  rw [place.redacted_iff, place.redacted_iff]
  constructor
  · intro ⟨h, h', _⟩
    exact ⟨h, h'⟩
  · intro ⟨h, h'⟩
    refine ⟨h, h', fun hsame => ?_⟩
    rw [h.sanitized.2, h'.sanitized.2]
    exact sanitizeMessage_eq h.sanitized.1 h'.sanitized.1 hsame

theorem second_password_public :
    sanitizeMessage "password=a password=b" = "password=*** password=b" ∧
      ¬AllMasked (sanitizeMessage "password=a password=b").toList ∧
      SameOutsideSecrets "password=a password=b".toList "password=a password=c".toList ∧
      sanitizeMessage "password=a password=b" ≠ sanitizeMessage "password=a password=c" := by
  have heq : sanitizeMessage "password=a password=b" = "password=*** password=b" := by
    decide +kernel
  refine ⟨heq, ?_, by unfold SameOutsideSecrets; decide +kernel, by decide +kernel⟩
  rw [heq]
  intro h
  obtain ⟨rest, hrest, -⟩ := h "password=".toList (by decide +kernel) "password=*** password=".toList
    "b".toList (by decide +kernel) (by decide +kernel)
  simp [redactionMask] at hrest

end Stillflow.Core
