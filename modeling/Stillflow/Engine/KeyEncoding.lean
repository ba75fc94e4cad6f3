import Stillflow.Core.Canonical
import Stillflow.Engine.Frame

/-!
The canonical encoding of deduplication keys: tagged components appended to one bounded buffer,
with no framing around them.
-/

namespace Stillflow.Engine

open Stillflow.Core Stillflow.Plan Lib.Fallible Lib.SelfDelimiting

def maxDedupKeyBytes : Nat := 64 * 1024

/-- One typed key component; floats are their bits. -/
inductive KeyValue where
  | null
  | boolean (value : Bool)
  | int8 (value : Int8)
  | int16 (value : Int16)
  | int32 (value : Int32)
  | int64 (value : Int64)
  | uint8 (value : UInt8)
  | uint16 (value : UInt16)
  | uint32 (value : UInt32)
  | uint64 (value : UInt64)
  | float32 (bits : UInt32)
  | float64 (bits : UInt64)
  | utf8 (text : String)
  | utf8Owned (text : String)
  | binary (bytes : List UInt8)
  | date32 (days : Int32)
  | timestamp (epoch : Int64) (unit : TimeUnit) (timezone : Option String)
  deriving DecidableEq

def isNan32 (bits : UInt32) : Bool := bits >>> 23 &&& 0xFF == 0xFF && bits &&& 0x7FFFFF != 0

def isNan64 (bits : UInt64) : Bool :=
  bits >>> 52 &&& 0x7FF == 0x7FF && bits &&& 0xFFFFFFFFFFFFF != 0

def isZero32 (bits : UInt32) : Bool := bits &&& 0x7FFFFFFF == 0

def isZero64 (bits : UInt64) : Bool := bits &&& 0x7FFFFFFFFFFFFFFF == 0

def canonicalFloat32Bits (bits : UInt32) : UInt32 :=
  if isNan32 bits then 0x7FC00000 else if isZero32 bits then 0 else bits

def canonicalFloat64Bits (bits : UInt64) : UInt64 :=
  if isNan64 bits then 0x7FF8000000000000 else if isZero64 bits then 0 else bits

abbrev KeyBytes := List UInt8

def keyTooLong : EngineError := .boundExceeded "encoded dedup key exceeds MAX_DEDUP_KEY_BYTES"

namespace KeyBytes

def push (out : KeyBytes) (byte : UInt8) : Except EngineError KeyBytes := do
  require (out.length < maxDedupKeyBytes) keyTooLong
  return out ++ [byte]

def extendFromSlice (out : KeyBytes) (slice : List UInt8) : Except EngineError KeyBytes := do
  require (slice.length ≤ maxDedupKeyBytes - out.length) keyTooLong
  return out ++ slice

end KeyBytes

/-- `(len as u32).to_le_bytes()` followed by the bytes. -/
def extendCounted (out : KeyBytes) (bytes : List UInt8) : Except EngineError KeyBytes := do
  let out ← out.extendFromSlice (leBytes 4 (bytes.length % 2 ^ 32))
  out.extendFromSlice bytes

def listKeysPaused : EngineError := .typeError "list and struct keys are paused in E4-C0"

def secondKeysPaused : EngineError := .typeError "Timestamp Second keys are paused in E4-C0"

def rejectPausedKeyType : LogicalType → Except EngineError Unit
  | .list _ | .struct _ => .error listKeysPaused
  | .timestamp .second _ => .error secondKeysPaused
  | _ => .ok ()

/-- The tag byte of a component that is not null. -/
def componentTag : LogicalType → UInt8
  | .boolean => 0x01
  | .int8 => 0x02
  | .int16 => 0x03
  | .int32 => 0x04
  | .int64 => 0x05
  | .uint8 => 0x06
  | .uint16 => 0x07
  | .uint32 => 0x08
  | .uint64 => 0x09
  | .float32 => 0x0A
  | .float64 => 0x0B
  | .utf8 => 0x0C
  | .binary => 0x0D
  | .date32 => 0x0E
  | .timestamp _ _ => 0x0F
  | .null | .list _ | .struct _ => 0x00

def timestampUnitTag : TimeUnit → UInt8
  | .second => 0x00
  | .millisecond => 0x01
  | .microsecond => 0x02
  | .nanosecond => 0x03

def encodeTimestamp (unit : TimeUnit) (timezone : Option String) (epoch : Int64)
    (valueUnit : TimeUnit) (valueTimezone : Option String) (out : KeyBytes) :
    Except EngineError KeyBytes := do
  require (unit = valueUnit)
    (EngineError.internal "dedup key timestamp unit drifted from the working schema")
  let out ← out.push (timestampUnitTag unit)
  match timezone, valueTimezone with
  | none, none => do
    let out ← out.push 0x00
    out.extendFromSlice (leBytes 8 epoch.toUInt64.toNat)
  | some expected, some actual => do
    require (expected = actual)
      (EngineError.internal "dedup key timestamp timezone drifted from the working schema")
    let out ← out.push 0x01
    let out ← extendCounted out (utf8Bytes expected)
    out.extendFromSlice (leBytes 8 epoch.toUInt64.toNat)
  | _, _ => .error (.internal
      "dedup key timestamp timezone presence drifted from the working schema")

/-- The payload after the tag. -/
def encodePayload (declared : LogicalType) (value : KeyValue) (out : KeyBytes) :
    Except EngineError KeyBytes :=
  match declared, value with
  | .boolean, .boolean b => out.push (if b then 1 else 0)
  | .int8, .int8 v => out.push v.toUInt8
  | .int16, .int16 v => out.extendFromSlice (leBytes 2 v.toUInt16.toNat)
  | .int32, .int32 v => out.extendFromSlice (leBytes 4 v.toUInt32.toNat)
  | .int64, .int64 v => out.extendFromSlice (leBytes 8 v.toUInt64.toNat)
  | .uint8, .uint8 v => out.push v
  | .uint16, .uint16 v => out.extendFromSlice (leBytes 2 v.toNat)
  | .uint32, .uint32 v => out.extendFromSlice (leBytes 4 v.toNat)
  | .uint64, .uint64 v => out.extendFromSlice (leBytes 8 v.toNat)
  | .float32, .float32 v => out.extendFromSlice (leBytes 4 (canonicalFloat32Bits v).toNat)
  | .float64, .float64 v => out.extendFromSlice (leBytes 8 (canonicalFloat64Bits v).toNat)
  | .utf8, .utf8 text => extendCounted out (utf8Bytes text)
  | .utf8, .utf8Owned text => extendCounted out (utf8Bytes text)
  | .binary, .binary bytes => extendCounted out bytes
  | .date32, .date32 v => out.extendFromSlice (leBytes 4 v.toUInt32.toNat)
  | .timestamp unit timezone, .timestamp epoch valueUnit valueTimezone =>
    encodeTimestamp unit timezone epoch valueUnit valueTimezone out
  | _, _ => .error (.internal "dedup key component value does not match its declared working type")

def encodeComponent (declared : LogicalType) (value : KeyValue) (out : KeyBytes) :
    Except EngineError KeyBytes := do
  rejectPausedKeyType declared
  if value = .null then out.push 0x00
  else if declared = .null then out.push 0x00
  else do
    let out ← out.push (componentTag declared)
    encodePayload declared value out

def keyMismatch : EngineError :=
  .internal "dedup key component does not match its declared working type"

/-- The typed component of a cell under its declared working type. -/
def keyComponent (declared : LogicalType) (cell : AnyValue) : Except EngineError KeyValue :=
  match declared, cell with
  | _, .null => .ok .null
  | .boolean, .boolean inner => .ok (.boolean inner)
  | .int8, .int8 inner => .ok (.int8 inner)
  | .int16, .int16 inner => .ok (.int16 inner)
  | .int32, .int32 inner => .ok (.int32 inner)
  | .int64, .int64 inner => .ok (.int64 inner)
  | .uint8, .uint8 inner => .ok (.uint8 inner)
  | .uint16, .uint16 inner => .ok (.uint16 inner)
  | .uint32, .uint32 inner => .ok (.uint32 inner)
  | .uint64, .uint64 inner => .ok (.uint64 inner)
  | .float32, .float32 inner => .ok (.float32 inner)
  | .float64, .float64 inner => .ok (.float64 inner)
  | .utf8, .string inner => .ok (.utf8 inner)
  | .utf8, .stringOwned inner => .ok (.utf8Owned inner)
  | .binary, .binary inner => .ok (.binary inner)
  | .date32, .date days => .ok (.date32 days)
  | .timestamp unit timezone, .datetime epoch valueUnit valueTimezone =>
    if unit ≠ valueUnit then .error keyMismatch
    -- only the presence of a zone is compared; the declared zone is the key's
    else if timezone.isSome = valueTimezone.isSome then .ok (.timestamp epoch unit timezone)
    else .error keyMismatch
  | _, _ => .error keyMismatch

/-- The key of a row from its typed cells in rule order, with no framing around them. -/
def encodeKey : List (LogicalType × AnyValue) → KeyBytes → Except EngineError KeyBytes
  | [], out => .ok out
  | (declared, cell) :: rest, out => do
    let value ← keyComponent declared cell
    let out ← encodeComponent declared value out
    encodeKey rest out

def keyTuple (cells : List (LogicalType × AnyValue)) : Except EngineError (List KeyValue) :=
  cells.mapM fun cell => keyComponent cell.1 cell.2

/-- Key equality: NULL equals NULL, all NaNs are equal, so are the two zeros, and everything else
is compared by value. -/
def KeyValue.Same : KeyValue → KeyValue → Prop
  | .float32 a, .float32 b =>
    (isNan32 a = true ∧ isNan32 b = true) ∨ (isZero32 a = true ∧ isZero32 b = true) ∨ a = b
  | .float64 a, .float64 b =>
    (isNan64 a = true ∧ isNan64 b = true) ∨ (isZero64 a = true ∧ isZero64 b = true) ∨ a = b
  | .utf8 a, .utf8 b | .utf8 a, .utf8Owned b | .utf8Owned a, .utf8 b
  | .utf8Owned a, .utf8Owned b => a = b
  | a, b => a = b

end Stillflow.Engine
