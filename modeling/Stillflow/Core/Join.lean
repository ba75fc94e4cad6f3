import Stillflow.Core.Logical

/-! The least upper bound of two logical types. -/

namespace Stillflow.Core

def TimeUnit.rank : TimeUnit → Nat
  | .second => 0
  | .millisecond => 1
  | .microsecond => 2
  | .nanosecond => 3

def TimeUnit.max (a b : TimeUnit) : TimeUnit := if a.rank ≤ b.rank then b else a

def signedRank : LogicalType → Option Nat
  | .int8 => some 8
  | .int16 => some 16
  | .int32 => some 32
  | .int64 => some 64
  | _ => none

def signedType : Nat → LogicalType
  | 8 => .int8
  | 16 => .int16
  | 32 => .int32
  | _ => .int64

def unsignedRank : LogicalType → Option Nat
  | .uint8 => some 8
  | .uint16 => some 16
  | .uint32 => some 32
  | .uint64 => some 64
  | _ => none

def unsignedType : Nat → LogicalType
  | 8 => .uint8
  | 16 => .uint16
  | 32 => .uint32
  | _ => .uint64

def floatRank : LogicalType → Option Nat
  | .float32 => some 32
  | .float64 => some 64
  | _ => none

def isNumeric (dataType : LogicalType) : Bool :=
  (signedRank dataType).isSome || (unsignedRank dataType).isSome || (floatRank dataType).isSome

/-- The early returns of `least_upper_bound`: equality, `Null`, and the numeric families. -/
def flatJoin (self other : LogicalType) : Option LogicalType :=
  if self = other then some self
  else if self = .null then some other
  else if other = .null then some self
  else match signedRank self, signedRank other with
  | some l, some r => some (signedType (Nat.max l r))
  | _, _ =>
    match unsignedRank self, unsignedRank other with
    | some l, some r => some (unsignedType (Nat.max l r))
    | _, _ =>
      match floatRank self, floatRank other with
      | some l, some r => some (if Nat.max l r = 32 then .float32 else .float64)
      | _, _ => if isNumeric self && isNumeric other then some .float64 else none

mutual

def LogicalType.leastUpperBound (self other : LogicalType) : Except LogicalError LogicalType :=
  match flatJoin self other with
  | some joined => .ok joined
  | none =>
    match self, other with
    | .timestamp unit timezone, .timestamp unit' timezone' =>
      if timezone = timezone' then .ok (.timestamp (unit.max unit') timezone)
      else .error (.incompatibleTypes (.timestamp unit timezone) (.timestamp unit' timezone'))
    | .list left, .list right => do return .list (← left.leastUpperBound right)
    | .struct left, .struct right =>
      if left.length = right.length then do
        return .struct (← joinStructFields (.incompatibleTypes (.struct left) (.struct right))
          left right)
      else .error (.incompatibleTypes (.struct left) (.struct right))
    | self, other => .error (.incompatibleTypes self other)

/-- The zipped fields of two structs of one length; `mismatch` reports the two structs. -/
def joinStructFields (mismatch : LogicalError) :
    List LogicalField → List LogicalField → Except LogicalError (List LogicalField)
  | ⟨id, name, dataType, nullable, metadata⟩ :: left, r :: right =>
    if id ≠ r.id ∨ name ≠ r.name ∨ metadata ≠ r.metadata then .error mismatch
    else do
      let joined ← dataType.leastUpperBound r.dataType
      let rest ← joinStructFields mismatch left right
      return ⟨id, name, joined, nullable || r.nullable, metadata⟩ :: rest
  | _, _ => .ok []

end

example : LogicalType.leastUpperBound (.list .int8) (.list .uint16) = .ok (.list .float64) := by
  decide

end Stillflow.Core
