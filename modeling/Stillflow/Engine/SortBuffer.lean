import Stillflow.Engine.VerificationMemory
import Stillflow.Lib.ComparisonSort
import Stillflow.Plan.LogicalPlan

/-!
The shared ordering buffer: chunks are admitted under a byte bound, cut into rows and sorted once
with the comparator of the declared lanes. `none` is a panic.
-/

namespace Stillflow.Engine.Sort

open Stillflow.Core Stillflow.Plan Lib Lib.Fallible Lib.ComparisonSort

/-- The Arrow types whose arrays hold integers. -/
inductive IntegerType where
  | int8
  | int16
  | int32
  | int64
  | uint8
  | uint16
  | uint32
  | uint64
  | date32
  | timestamp (unit : TimeUnit) (timezone : Option String)
  deriving DecidableEq

inductive DataType where
  | integer (type : IntegerType)
  | float32
  | float64
  | other (name : String)
  deriving DecidableEq

/-- The type parameters of `PrimitiveArray`: a timestamp's unit is one, its timezone is not. -/
inductive PrimitiveType where
  | int8
  | int16
  | int32
  | int64
  | uint8
  | uint16
  | uint32
  | uint64
  | date32
  | timestamp (unit : TimeUnit)
  deriving DecidableEq

def IntegerType.primitive : IntegerType → PrimitiveType
  | .int8 => .int8
  | .int16 => .int16
  | .int32 => .int32
  | .int64 => .int64
  | .uint8 => .uint8
  | .uint16 => .uint16
  | .uint32 => .uint32
  | .uint64 => .uint64
  | .date32 => .date32
  | .timestamp unit _ => .timestamp unit

/-- One value of an array, floats by their bits. -/
inductive Cell where
  | integer (type : IntegerType) (value : Option Int)
  | float32 (bits : Option (BitVec 32))
  | float64 (bits : Option (BitVec 64))
  | other (name : String) (value : Option (List UInt8))
  deriving DecidableEq

namespace Cell

def dataType : Cell → DataType
  | integer type _ => .integer type
  | float32 _ => .float32
  | float64 _ => .float64
  | other name _ => .other name

def isNull : Cell → Bool
  | integer _ value => value.isNone
  | float32 bits => bits.isNone
  | float64 bits => bits.isNone
  | other _ value => value.isNone

/-- `as_primitive::<T>().value(0)`. -/
def asPrimitive (target : PrimitiveType) : Cell → Option Int
  | integer type value => if type.primitive = target then some (value.getD 0) else none
  | _ => none

end Cell

abbrev Row := List Cell

structure RecordBatch where
  schema : List DataType
  rows : List Row
  memorySize : Nat
  conforms : ∀ row ∈ rows, row.map Cell.dataType = schema

structure SortLane where
  columnIndex : Nat
  direction : SortDirection
  nulls : NullPlacement
  deriving DecidableEq

def placementOrdering (nulls : NullPlacement) (leftIsNull : Bool) : Ordering :=
  match nulls, leftIsNull with
  | .first, true | .last, false => .lt
  | .first, false | .last, true => .gt

def comparePrimitive (target : PrimitiveType) (left right : Cell) : Option Ordering := do
  let left ← left.asPrimitive target
  let right ← right.asPrimitive target
  return compare left right

/-- The sign-flipped bit pattern. -/
def flip {width : Nat} (bits : BitVec width) : BitVec width :=
  let sign : BitVec width := BitVec.ofNat width 1 <<< (width - 1)
  if bits &&& sign ≠ 0 then ~~~bits else bits ||| sign

def compareTotalF64 : Cell → Cell → Option Ordering
  | .float64 left, .float64 right =>
    some (compare (flip (left.getD 0)).toNat (flip (right.getD 0)).toNat)
  | _, _ => none

def compareTotalF32 : Cell → Cell → Option Ordering
  | .float32 left, .float32 right =>
    some (compare (flip (left.getD 0)).toNat (flip (right.getD 0)).toNat)
  | _, _ => none

def compareValues (left right : Cell) : Option Ordering :=
  match left.dataType with
  | .integer .int8 => comparePrimitive .int8 left right
  | .integer .int16 => comparePrimitive .int16 left right
  | .integer .int32 => comparePrimitive .int32 left right
  | .integer .int64 => comparePrimitive .int64 left right
  | .integer .uint8 => comparePrimitive .uint8 left right
  | .integer .uint16 => comparePrimitive .uint16 left right
  | .integer .uint32 => comparePrimitive .uint32 left right
  | .integer .uint64 => comparePrimitive .uint64 left right
  | .float32 => compareTotalF32 left right
  | .float64 => compareTotalF64 left right
  | .integer .date32 => comparePrimitive .date32 left right
  | .integer (.timestamp _ _) => comparePrimitive (.timestamp .nanosecond) left right
  | .other _ => some .eq

def directed : SortDirection → Ordering → Ordering
  | .ascending, ordering => ordering
  | .descending, ordering => ordering.swap

def SortLane.compare (lane : SortLane) (left right : Row) : Option Ordering := do
  let leftColumn ← left[lane.columnIndex]?
  let rightColumn ← right[lane.columnIndex]?
  match leftColumn.isNull, rightColumn.isNull with
  | true, true => some .eq
  | true, false => some (placementOrdering lane.nulls true)
  | false, true => some (placementOrdering lane.nulls false)
  | false, false => do
    let ordering ← compareValues leftColumn rightColumn
    return directed lane.direction ordering

def compareRows (left right : Row) : List SortLane → Option Ordering
  | [] => some .eq
  | lane :: lanes =>
    match lane.compare left right with
    | some .eq => compareRows left right lanes
    | ordering => ordering

inductive Halt where
  | panic
  | error (error : EngineError)
  deriving DecidableEq

def isOrderedArrowType : DataType → Bool
  | .integer _ | .float32 | .float64 => true
  | .other _ => false

def checkOrderedTypes (schema : List DataType) (lanes : List SortLane) : Except Halt Unit :=
  lanes.forM fun lane =>
    match schema[lane.columnIndex]? with
    | none => .error .panic
    | some dataType => require (isOrderedArrowType dataType = true)
        (.error (.typeError "sort key column type is not ordered"))

/-- The tracker's live payloads; its report is left out. -/
structure MemoryTracker where
  envelopeBytes : Nat
  workingBytes : Nat
  remainderBytes : Nat
  operatorStateBytes : Nat
  peakLimit : Nat
  envelopeLive : Bool
  polarsLive : Bool
  incomingLive : Bool
  remainderLive : Bool
  deriving DecidableEq

namespace MemoryTracker

def livePayloads (tracker : MemoryTracker) : Nat :=
  tracker.envelopeLive.toNat + (tracker.polarsLive || tracker.incomingLive).toNat +
    tracker.remainderLive.toNat

def engineBytes (tracker : MemoryTracker) : Nat :=
  saturatingAdd (saturatingAdd (saturatingAdd tracker.envelopeBytes tracker.workingBytes)
    tracker.remainderBytes) tracker.operatorStateBytes

def peakExceeded : EngineError :=
  .boundExceeded "engine live columnar payloads or peak bytes exceeded"

def refresh (tracker : MemoryTracker) : Except EngineError MemoryTracker := do
  require (¬(tracker.polarsLive = true ∧ tracker.incomingLive = true)) peakExceeded
  require (tracker.livePayloads ≤ 3) peakExceeded
  require (tracker.engineBytes ≤ tracker.peakLimit) peakExceeded
  return tracker

def holdPolars (tracker : MemoryTracker) (bytes : Nat) : Except EngineError MemoryTracker := do
  require (bytes ≤ maxBatchBytes) (.internal "polars working set exceeded MAX_BATCH_BYTES")
  refresh { tracker with polarsLive := true, incomingLive := false, workingBytes := bytes }

def dropPolars (tracker : MemoryTracker) : Except EngineError MemoryTracker :=
  refresh { tracker with
    polarsLive := false
    workingBytes := if tracker.incomingLive then tracker.workingBytes else 0 }

end MemoryTracker

def maxSortInputBytes : Nat := maxOperatorStateBytes

def sortOrderBytesPerRow : Nat := 8

structure SortBuffer where
  lanes : List SortLane
  chunks : List RecordBatch
  bytes : Nat
  typesChecked : Bool

namespace SortBuffer

def new (lanes : List SortLane) : SortBuffer := ⟨lanes, [], 0, false⟩

def charge (batch : RecordBatch) : Nat :=
  saturatingAdd batch.memorySize (saturatingMul batch.rows.length sortOrderBytesPerRow)

/-- The types of the first chunk are checked. -/
def checkTypes (buffer : SortBuffer) (batch : RecordBatch) : Except Halt Unit :=
  if buffer.typesChecked then .ok () else checkOrderedTypes batch.schema buffer.lanes

/-- A chunk over the bound releases the buffer, which may fail on its own. -/
def refuse (tracker : MemoryTracker) : Except Halt (SortBuffer × MemoryTracker) := do
  let _ ← tracker.dropPolars.mapError .error
  .error (.error (.boundExceeded "sort input exceeds MAX_SORT_INPUT_BYTES"))

def push (state : SortBuffer × MemoryTracker) (batch : RecordBatch) :
    Except Halt (SortBuffer × MemoryTracker) := do
  state.1.checkTypes batch
  if saturatingAdd state.1.bytes (charge batch) > maxSortInputBytes then refuse state.2
  else
    let held ← (state.2.holdPolars (charge batch)).mapError .error
    return ({ state.1 with
      typesChecked := true
      bytes := saturatingAdd state.1.bytes (charge batch)
      chunks := state.1.chunks ++ [batch] }, held)

def rows (buffer : SortBuffer) : List Row := buffer.chunks.flatMap (·.rows)

/-- The ordered rows and the payload bytes they keep alive; `sortBy` is `slice::sort_by`. -/
def finish (sortBy : (n : Nat) → Sorter n) (buffer : SortBuffer) :
    Option ((List Row × Nat) × SortBuffer) := do
  let payload := (buffer.chunks.map (·.memorySize)).foldl saturatingAdd 0
  let rows := buffer.rows
  let order ← (sortBy rows.length).run fun left right =>
    compareRows (rows.get left) (rows.get right) buffer.lanes
  return ((order.map rows.get, payload), { buffer with chunks := [] })

end SortBuffer

end Stillflow.Engine.Sort
