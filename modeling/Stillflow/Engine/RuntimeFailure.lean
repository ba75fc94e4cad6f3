import Stillflow.Core.Redaction
import Stillflow.Engine.Error
import Stillflow.Storage.SafeJson

/-! What a failed job records. -/

namespace Stillflow.Engine

open Stillflow.Core Stillflow.Storage Lib.Fallible Lib.ShortestPrefix List

/-- What `storage_category`, `storage_retryable` and its text say of a storage error. -/
structure StorageFault where
  category : ErrorCategory
  retryable : Bool
  text : String

/-- An engine error with what the connector and storage variants carry. -/
structure RaisedError where
  error : EngineError
  connector : ConnectorError
  storage : StorageFault

namespace RaisedError

variable (columnText : ColumnId → String) (e : RaisedError)

def category : ErrorCategory :=
  match e.error with
  | .unsupportedOperator .. | .unsupportedRule .. | .unsupportedCapability _ =>
    .unsupportedCapability
  | .sourceBinding | .invalidPlan _ | .unknownColumn _ => .invalidConfiguration
  | .typeError _ | .castFailure .. | .arithmetic .. | .boundExceeded _ => .invalidData
  | .schemaDrift _ => .schemaDrift
  | .ffi | .internal _ => .internal
  | .cancelled => .cancelled
  | .timeout => .timeout
  | .busy => .rateLimited
  | .connector => e.connector.category
  | .storage => e.storage.category

def retryable : Bool :=
  match e.error with
  | .timeout | .busy => true
  | .connector => e.connector.retryable
  | .storage => e.storage.retryable
  | _ => false

/-- `to_string`; `columnText` is the text of a column id. -/
def text : String :=
  let place (column : ColumnId) (sequence row : Nat) :=
    s!"{columnText column} at batch {sequence} row {row}"
  match e.error with
  | .unsupportedOperator _ kind => s!"operator `{kind}` is not supported in this engine phase"
  | .unsupportedRule _ kind => s!"rule `{kind}` is not supported in this engine phase"
  | .unsupportedCapability _ => "connector kind is not supported in this engine phase"
  | .sourceBinding => "scan source binding is invalid"
  | .unknownColumn column => s!"unknown column {columnText column}"
  | .castFailure column sequence row => "cast failed for column " ++ place column sequence row
  | .arithmetic column sequence row => "arithmetic failed for column " ++ place column sequence row
  | .schemaDrift _ => "connector envelope schema drifted from the authorized source schema"
  | .ffi => "Arrow and Polars FFI transfer failed"
  | .cancelled => "engine run was cancelled"
  | .timeout => "engine run exceeded its deadline"
  | .busy => "engine is busy"
  | .invalidPlan message | .typeError message | .boundExceeded message | .internal message =>
    message
  | .connector => e.connector.userMessage
  | .storage => e.storage.text

def sanitizedSummary : SanitizedErrorSummary :=
  match SanitizedErrorSummary.tryNew e.category e.retryable (e.text columnText) with
  | .ok summary => summary
  | .error _ => ⟨.internal, false, sanitizeMessage "internal error"⟩

end RaisedError

def errorCategoryText : ErrorCategory → String
  | .authentication => "authentication"
  | .authorization => "authorization"
  | .notFound => "not_found"
  | .invalidConfiguration => "invalid_configuration"
  | .invalidData => "invalid_data"
  | .schemaDrift => "schema_drift"
  | .rateLimited => "rate_limited"
  | .timeout => "timeout"
  | .cancelled => "cancelled"
  | .unsupportedCapability => "unsupported_capability"
  | .transientSource => "transient_source"
  | .internal => "internal"

structure FailureInfo where
  category : String
  retryable : Bool
  message : String
  deriving DecidableEq

def FailureInfo.tryNew (category : String) (retryable : Bool) (message : String) :
    Except StorageError FailureInfo := do
  let value : FailureInfo := ⟨category, retryable, sanitizeMessage message⟩
  validateSafeJson (.object [("category", .string value.category),
    ("retryable", .bool value.retryable), ("message", .string value.message)]) false
  return value

/-- Nothing when the message is refused: the code panics. -/
def fallbackFailure (message : String) : Option FailureInfo :=
  (FailureInfo.tryNew "internal" false message).toOption

/-- The failure of a job that ended with an engine error. -/
def failureForRuntimeError (columnText : ColumnId → String) (error : RaisedError) :
    Option FailureInfo :=
  let summary := error.sanitizedSummary columnText
  (FailureInfo.tryNew (errorCategoryText summary.category) summary.retryable
    summary.message).toOption <|> fallbackFailure "engine execution failed"

theorem containsText_iff {text needle : List Char} :
    containsText text needle = true ↔ needle <:+: text := by
  simp [containsText, infix_iff_prefix_suffix, and_comm]

theorem meets_ends_iff {k : Marker} {t : List Char} :
    Meets (Ends k) t ↔ k <:+: asciiLowercase t := by
  rw [ infix_iff_suffix_prefix]
  constructor
  · rintro ⟨p, hp, hends⟩
    exact ⟨asciiLowercase p, hends, asciiLowercase_prefix hp⟩
  · rintro ⟨q, hends, hq⟩
    obtain ⟨p, hp, rfl⟩ := prefix_map_iff.mp hq
    exact ⟨p, hp, hends⟩

/-- The five markers of the gate are the four of redaction and one more. -/
theorem isSecretValue_iff {text : String} : isSecretValue text = true ↔
    (∃ k ∈ redactionMarkers, Meets (Ends k) text.toList) ∨
      "bearer ".toList <:+: asciiLowercase text.toList := by
  simp [isSecretValue, secretValueMarkers, redactionMarkers, containsText_iff, meets_ends_iff,
    toAsciiLowercase, asciiLowercase, or_assoc]

theorem foldl_redactMarker_of_clean {ks : List Marker} {t : List Char}
    (h : ∀ k ∈ ks, ¬Meets (Ends k) t) : ks.foldl redactMarker t = t := by
  induction ks with
  | nil => rfl
  | cons k ks ih =>
    rw [foldl_cons, redactMarker_of_not_meets (h k mem_cons_self)]
    exact ih fun i hi => h i (mem_cons_of_mem k hi)

/-- Redaction removes values, never the last marker. -/
theorem foldl_redactMarker_marked {ks : List Marker} {t : List Char}
    (hks : ∀ k ∈ ks, k ∈ redactionMarkers) (h : ∃ k ∈ redactionMarkers, Meets (Ends k) t) :
    ∃ k ∈ redactionMarkers, Meets (Ends k) (ks.foldl redactMarker t) := by
  induction ks generalizing t with
  | nil => exact h
  | cons i ks ih =>
    refine ih (fun k hk => hks k (mem_cons_of_mem i hk)) ?_
    rcases redactMarker_spec t i with ⟨-, heq⟩ | ⟨p, s, -, hp, heq⟩
    · rwa [heq]
    · refine ⟨i, hks i mem_cons_self, p, ?_, hp.holds⟩
      rw [heq, append_assoc]
      exact prefix_append p _

theorem sanitizeMessage_of_safe {text : String} (h : isSecretValue text = false) :
    sanitizeMessage text = text := by
  have hclean : ∀ k ∈ redactionMarkers, ¬Meets (Ends k) text.toList := by
    intro k hk hmeets
    rw [isSecretValue_iff.mpr (.inl ⟨k, hk, hmeets⟩)] at h
    cases h
  rw [sanitizeMessage, foldl_redactMarker_of_clean hclean, String.ofList_toList]

theorem isSecretValue_sanitizeMessage (text : String) :
    isSecretValue (sanitizeMessage text) = isSecretValue text := by
  cases hsecret : isSecretValue text with
  | false => rw [sanitizeMessage_of_safe hsecret, hsecret]
  | true =>
    by_cases hmarked : ∃ k ∈ redactionMarkers, Meets (Ends k) text.toList
    · apply isSecretValue_iff.mpr
      rw [sanitizeMessage, String.toList_ofList]
      exact .inl (foldl_redactMarker_marked (fun _ hk => hk) hmarked)
    · have hclean : redactionMarkers.foldl redactMarker text.toList = text.toList :=
        foldl_redactMarker_of_clean fun k hk hmeets => hmarked ⟨k, hk, hmeets⟩
      rw [sanitizeMessage, hclean, String.ofList_toList, hsecret]

theorem tryNew_eq (category : ErrorCategory) (retryable : Bool) (message : String) :
    (FailureInfo.tryNew (errorCategoryText category) retryable message).toOption =
      if isSecretValue message then none
      else some ⟨errorCategoryText category, retryable, message⟩ := by
  have hkeys : ∀ key ∈ ["category", "retryable", "message"],
      validateSafeKey key false = .ok () := by
    decide +kernel
  have hcategory : isSecretValue (errorCategoryText category) = false := by
    cases category <;> decide +kernel
  simp only [FailureInfo.tryNew, validateSafeJson, validateSafeEntries, hkeys, mem_cons,
    true_or, or_true, ok_bind, require, hcategory, isSecretValue_sanitizeMessage, if_true]
  cases hsecret : isSecretValue message with
  | true => rfl
  | false => rw [sanitizeMessage_of_safe hsecret]; rfl

theorem fallbackFailure_eq : fallbackFailure "engine execution failed" =
    some ⟨"internal", false, "engine execution failed"⟩ :=
  tryNew_eq .internal _ _

theorem failureForRuntimeError_eq (columnText : ColumnId → String) (e : RaisedError) :
    failureForRuntimeError columnText e =
      if isSecretValue (e.text columnText) then fallbackFailure "engine execution failed"
      else some ⟨errorCategoryText e.category, e.retryable, e.text columnText⟩ := by
  have hsummary : e.sanitizedSummary columnText =
      ⟨e.category, e.retryable, sanitizeMessage (e.text columnText)⟩ := rfl
  simp only [failureForRuntimeError, hsummary, tryNew_eq, isSecretValue_sanitizeMessage]
  cases hsecret : isSecretValue (e.text columnText) with
  | true => rfl
  | false => rw [sanitizeMessage_of_safe hsecret]; rfl

/-- The failure of the error itself is recorded: its redacted text passes the gate, and the
fallback stands for internal errors only. -/
structure RecordsItsFailure (columnText : ColumnId → String) (e : RaisedError) : Prop where
  recorded : failureForRuntimeError columnText e =
    some ⟨errorCategoryText e.category, e.retryable, sanitizeMessage (e.text columnText)⟩
  passes : validateSafeJson (.string (sanitizeMessage (e.text columnText))) false = .ok ()
  specific : e.category ≠ .internal →
    failureForRuntimeError columnText e ≠ fallbackFailure "engine execution failed"

theorem records_its_failure_iff (columnText : ColumnId → String) (e : RaisedError) :
    RecordsItsFailure columnText e ↔ isSecretValue (e.text columnText) = false := by
  constructor
  · intro h
    have hpasses := require_eq_ok.mp h.passes
    rwa [isSecretValue_sanitizeMessage] at hpasses
  · intro hsafe
    have hrecorded := failureForRuntimeError_eq columnText e
    rw [hsafe, if_neg Bool.false_ne_true] at hrecorded
    refine ⟨by rw [sanitizeMessage_of_safe hsafe, hrecorded], ?_, fun hcategory => ?_⟩
    · exact require_eq_ok.mpr ((isSecretValue_sanitizeMessage _).trans hsafe)
    · rw [hrecorded, fallbackFailure_eq]
      revert hcategory
      cases e.category <;> simp [errorCategoryText]

/-- A login that a source refused, its password redacted. -/
def refusedLogin : RaisedError where
  error := .connector
  connector := .withCategory .authentication false "login refused: password=hunter2" [] ∅
  storage := ⟨.internal, false, ""⟩

theorem refused_login_recorded_internal : refusedLogin.category = .authentication ∧
    refusedLogin.text toString = "login refused: password=***" ∧
    failureForRuntimeError toString refusedLogin =
      some ⟨"internal", false, "engine execution failed"⟩ := by
  have hsecret : isSecretValue (refusedLogin.text toString) = true := by decide +kernel
  refine ⟨rfl, by decide +kernel, ?_⟩
  rw [failureForRuntimeError_eq, if_pos hsecret, fallbackFailure_eq]

end Stillflow.Engine
