import Stillflow.Core.Logical

/-! Text predicates of the core crate: blank names and secret-like keys and values. -/

namespace Stillflow.Core

/-- `char::is_whitespace`: the Unicode `White_Space` property. -/
def isWhitespace (c : Char) : Bool :=
  let n := c.toNat
  (0x09 ≤ n && n ≤ 0x0D) || n == 0x20 || n == 0x85 || n == 0xA0 || n == 0x1680 ||
    (0x2000 ≤ n && n ≤ 0x200A) || n == 0x2028 || n == 0x2029 || n == 0x202F || n == 0x205F ||
    n == 0x3000

/-- `text.trim().is_empty()`. -/
def isBlank (text : String) : Bool := text.toList.all isWhitespace

/-- `str::len`: the number of UTF-8 bytes. -/
def byteLen (text : String) : Nat := text.utf8ByteSize

/-- `haystack.contains(needle)` on the characters of the two texts. -/
def containsText (haystack needle : List Char) : Bool :=
  haystack.tails.any needle.isPrefixOf

def toAsciiLowercase (text : String) : List Char := text.toList.map Char.toLower

def secretFieldNames : List String :=
  ["password", "secret", "token", "api_key", "apikey", "access_key", "connection_string"]

def secretValueMarkers : List String :=
  ["password=", "token=", "api_key=", "secret=", "bearer "]

def isSecretFieldName (key : String) : Bool :=
  secretFieldNames.any fun candidate => containsText (toAsciiLowercase key) candidate.toList

/-- Texts that `ensure_safe_string_value` refuses. -/
def isSecretValue (value : String) : Bool :=
  secretValueMarkers.any fun marker => containsText (toAsciiLowercase value) marker.toList

/-- `ensure_no_secret_fields` on the JSON object of a string map. -/
def metadataSafe (metadata : Metadata) : Bool :=
  metadata.toList.all fun entry => !isSecretFieldName entry.1 && !isSecretValue entry.2

@[simp] theorem metadataSafe_empty : metadataSafe ∅ = true := by
  simp [metadataSafe]

example : metadataSafe {("note", "Bearer x")} = false := by decide

end Stillflow.Core
