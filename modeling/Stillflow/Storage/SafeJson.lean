import Stillflow.Storage.Store

/-! JSON that may be persisted. -/

namespace Stillflow.Storage

open Stillflow.Core Lib.Fallible

def forbiddenKeys : List String :=
  ["password", "secret", "token", "api_key", "apikey", "access_key", "connection_string", "raw_row",
    "raw_data", "preview_batch", "backtrace", "stack_trace"]

def rawValueKeys : List String := ["rows", "records", "cells", "values"]

def validateSafeKey (key : String) (eventPayload : Bool) : Except StorageError Unit := do
  require (forbiddenKeys.any (fun needle => containsText (toAsciiLowercase key) needle.toList) =
    false) (.invalidDraft "secret or raw payload field is not persistable")
  require (¬(eventPayload = true ∧
      rawValueKeys.any (fun needle => toAsciiLowercase key == needle.toList) = true))
    (.invalidDraft "raw dataset values are not event metadata")

mutual

def validateSafeJson : Value → Bool → Except StorageError Unit
  | .object entries, eventPayload => validateSafeEntries entries eventPayload
  | .array items, eventPayload => validateSafeItems items eventPayload
  | .string text, _ =>
    require (isSecretValue text = false) (.invalidDraft "secret-like string is not persistable")
  | _, _ => .ok ()

def validateSafeItems : List Value → Bool → Except StorageError Unit
  | [], _ => .ok ()
  | item :: items, eventPayload => do
    validateSafeJson item eventPayload
    validateSafeItems items eventPayload

def validateSafeEntries : List (String × Value) → Bool → Except StorageError Unit
  | [], _ => .ok ()
  | (key, child) :: entries, eventPayload => do
    validateSafeKey key eventPayload
    validateSafeJson child eventPayload
    validateSafeEntries entries eventPayload

end

end Stillflow.Storage
