import Stillflow.Engine.SortBuffer

/-! The comparator as an order of keys. -/

namespace Stillflow.Engine.Sort

open Stillflow.Core Stillflow.Plan Lib Lib.Fallible Lib.ComparisonSort Option

variable {a b : Cell} {l r : Row} {lane : SortLane} {lanes : List SortLane}
  {schema : List DataType}

theorem not_ne_or {width : Nat} {sign u : BitVec width} (hu : u &&& sign ≠ 0) (v : BitVec width) :
    ~~~u ≠ v ||| sign := by
  intro heq
  apply hu
  ext i hi
  have hbit := congrArg (fun w : BitVec width => w[i]) heq
  simp only [BitVec.getElem_not, BitVec.getElem_or] at hbit
  rw [BitVec.getElem_and, BitVec.ofNat_eq_ofNat, BitVec.getElem_zero]
  cases hi : u[i] <;> simp_all

theorem or_and_not {width : Nat} {sign u : BitVec width} (hu : u &&& sign = 0) :
    (u ||| sign) &&& ~~~sign = u := by
  ext i hi
  have hbit := congrArg (fun w : BitVec width => w[i]) hu
  simp only [BitVec.getElem_and, BitVec.ofNat_eq_ofNat, BitVec.getElem_zero] at hbit
  rw [BitVec.getElem_and, BitVec.getElem_or, BitVec.getElem_not]
  cases hi : u[i] <;> simp_all

/-- The sign bit tells the two cases apart, so the bits can be read back. -/
theorem flip_injective {width : Nat} {x y : BitVec width} (h : flip x = flip y) : x = y := by
  simp only [flip] at h
  split_ifs at h with hx hy hy
  · simpa using h
  · exact absurd h (not_ne_or hx y)
  · exact absurd h.symm (not_ne_or hy x)
  · rw [← or_and_not (not_not.mp hx), ← or_and_not (not_not.mp hy), h]

namespace Cell

/-- What a lane compares; `none` is NULL. -/
def key : Cell → Option Int
  | integer _ value => value
  | float32 bits => bits.map fun bits => ((flip bits).toNat : Int)
  | float64 bits => bits.map fun bits => ((flip bits).toNat : Int)
  | other _ value => value.map fun _ => 0

/-- A timestamp that `compare_values` takes for nanoseconds although it is not. -/
def Misread : Cell → Prop
  | integer (.timestamp unit _) value => unit ≠ .nanosecond ∧ value ≠ none
  | _ => False

theorem isNull_eq (a : Cell) : a.isNull = a.key.isNone := by
  cases a <;> simp [isNull, key]

theorem key_injective (hab : a.dataType = b.dataType) (ha : isOrderedArrowType a.dataType = true)
    (h : a.key = b.key) : a = b := by
  have hbits : ∀ {width : Nat} (x y : Option (BitVec width)),
      x.map (fun bits => ((flip bits).toNat : Int)) = y.map (fun bits => ((flip bits).toNat : Int)) →
        x = y := by
    intro width x y hxy
    refine map_injective (fun u v huv => flip_injective ?_) hxy
    exact BitVec.eq_of_toNat_eq (Int.ofNat_inj.mp huv)
  cases a with
  | integer type value =>
    cases b <;> simp_all [dataType, key]
  | float32 bits =>
    cases b with
    | float32 bits' => exact congrArg float32 (hbits bits bits' h)
    | integer | float64 | other => cases hab
  | float64 bits =>
    cases b with
    | float64 bits' => exact congrArg float64 (hbits bits bits' h)
    | integer | float32 | other => cases hab
  | other name value => cases ha

end Cell

/-- The order of a lane on keys. -/
def keyOrder (direction : SortDirection) (nulls : NullPlacement) : Option Int → Option Int → Ordering
  | none, none => .eq
  | none, some _ => placementOrdering nulls true
  | some _, none => placementOrdering nulls false
  | some x, some y => directed direction (compare x y)

def nullRank (nulls : NullPlacement) (key : Option Int) : Int :=
  match nulls, key with
  | .first, none | .last, some _ => 0
  | .first, some _ | .last, none => 1

def signedKey (direction : SortDirection) (key : Option Int) : Int :=
  match direction with
  | .ascending => key.getD 0
  | .descending => -key.getD 0

theorem compare_natCast (m n : Nat) : compare (m : Int) n = compare m n := by
  rcases lt_trichotomy m n with h | h | h
  · rw [compare_lt_iff_lt.mpr h, compare_lt_iff_lt.mpr (Int.ofNat_lt.mpr h)]
  · rw [h, compare_eq_iff_eq.mpr rfl, compare_eq_iff_eq.mpr rfl]
  · rw [compare_gt_iff_gt.mpr h, compare_gt_iff_gt.mpr (Int.ofNat_lt.mpr h)]

theorem compare_neg (x y : Int) : compare (-x) (-y) = (compare x y).swap := by
  rcases lt_trichotomy x y with h | h | h
  · rw [compare_gt_iff_gt.mpr (show -x > -y by omega), compare_lt_iff_lt.mpr h]
    rfl
  · rw [h, compare_eq_iff_eq.mpr rfl, compare_eq_iff_eq.mpr rfl]
    rfl
  · rw [compare_lt_iff_lt.mpr (show -x < -y by omega), compare_gt_iff_gt.mpr h]
    rfl

theorem keyOrder_eq (direction : SortDirection) (nulls : NullPlacement) :
    keyOrder direction nulls =
      compareLex (compareOn (nullRank nulls)) (compareOn (signedKey direction)) := by
  have hlt : compare (0 : Int) 1 = .lt := rfl
  have hgt : compare (1 : Int) 0 = .gt := rfl
  funext a b
  cases a <;> cases b <;> cases nulls <;> cases direction <;>
    simp [keyOrder, compareLex, compareOn, nullRank, signedKey, placementOrdering, directed,
      compare_neg, hlt, hgt]

instance transCmp_keyOrder (direction : SortDirection) (nulls : NullPlacement) :
    Std.TransCmp (keyOrder direction nulls) := by
  rw [keyOrder_eq]
  infer_instance

theorem transCmp_pull {α β : Type} {cmp : β → β → Ordering} [Std.TransCmp cmp] (f : α → β) :
    Std.TransCmp fun x y => cmp (f x) (f y) where
  eq_swap := Std.OrientedCmp.eq_swap
  isLE_trans := Std.TransCmp.isLE_trans

theorem compareValues_misread (ha : a.Misread) (b : Cell) : compareValues a b = none := by
  match a, ha with
  | .integer (.timestamp unit timezone) value, ha =>
    simp [compareValues, Cell.dataType, comparePrimitive, Cell.asPrimitive,
      IntegerType.primitive, ha.1]

theorem comparePrimitive_same (type : IntegerType) (x y : Int) :
    comparePrimitive type.primitive (.integer type (some x)) (.integer type (some y)) =
      some (compare x y) := by
  simp [comparePrimitive, Cell.asPrimitive]

theorem compareValues_read {x y : Int} (hab : a.dataType = b.dataType)
    (ho : isOrderedArrowType a.dataType = true) (hnot : ¬a.Misread) (ha : a.key = some x)
    (hb : b.key = some y) : compareValues a b = some (compare x y) := by
  cases a with
  | integer type value =>
    cases b with
    | integer type' value' =>
      obtain rfl : type = type' := by simpa [Cell.dataType] using hab
      obtain rfl : value = some x := ha
      obtain rfl : value' = some y := hb
      cases type with
      | timestamp unit timezone =>
        obtain rfl : unit = .nanosecond := by simpa [Cell.Misread] using hnot
        exact comparePrimitive_same (.timestamp .nanosecond timezone) x y
      | int8 => exact comparePrimitive_same .int8 x y
      | int16 => exact comparePrimitive_same .int16 x y
      | int32 => exact comparePrimitive_same .int32 x y
      | int64 => exact comparePrimitive_same .int64 x y
      | uint8 => exact comparePrimitive_same .uint8 x y
      | uint16 => exact comparePrimitive_same .uint16 x y
      | uint32 => exact comparePrimitive_same .uint32 x y
      | uint64 => exact comparePrimitive_same .uint64 x y
      | date32 => exact comparePrimitive_same .date32 x y
    | float32 | float64 | other => cases hab
  | float32 bits =>
    cases b with
    | float32 bits' =>
      obtain ⟨u, rfl, rfl⟩ := map_eq_some_iff.mp ha
      obtain ⟨v, rfl, rfl⟩ := map_eq_some_iff.mp hb
      exact congrArg some (compare_natCast _ _).symm
    | integer | float64 | other => cases hab
  | float64 bits =>
    cases b with
    | float64 bits' =>
      obtain ⟨u, rfl, rfl⟩ := map_eq_some_iff.mp ha
      obtain ⟨v, rfl, rfl⟩ := map_eq_some_iff.mp hb
      exact congrArg some (compare_natCast _ _).symm
    | integer | float32 | other => cases hab
  | other name value => cases ho

/-- The two cells of a lane, of one ordered type. -/
structure LaneCells (lane : SortLane) (l r : Row) (a b : Cell) : Prop where
  left : l[lane.columnIndex]? = some a
  right : r[lane.columnIndex]? = some b
  same : a.dataType = b.dataType
  ordered : isOrderedArrowType a.dataType = true

theorem Cell.Misread.key_ne_none (h : a.Misread) : a.key ≠ none := by
  match a, h with
  | .integer (.timestamp unit timezone) value, h => exact h.2

theorem Cell.Misread.of_same (h : a.Misread) (hab : a.dataType = b.dataType) (hb : b.key ≠ none) :
    b.Misread := by
  match a, h with
  | .integer (.timestamp unit timezone) value, h =>
    cases b with
    | integer type value' =>
      obtain rfl : IntegerType.timestamp unit timezone = type := by
        simpa [Cell.dataType] using hab
      exact ⟨h.1, hb⟩
    | float32 | float64 | other => cases hab

theorem LaneCells.compare_misread (h : LaneCells lane l r a b) (ha : a.Misread) (hb : b.Misread) :
    lane.compare l r = none := by
  obtain ⟨x, hx⟩ := ne_none_iff_exists'.mp ha.key_ne_none
  obtain ⟨y, hy⟩ := ne_none_iff_exists'.mp hb.key_ne_none
  simp [SortLane.compare, h.left, h.right, Cell.isNull_eq, hx, hy, compareValues_misread ha]

theorem LaneCells.compare_read (h : LaneCells lane l r a b) (hnot : ¬(a.Misread ∧ b.Misread)) :
    lane.compare l r = some (keyOrder lane.direction lane.nulls a.key b.key) := by
  simp only [SortLane.compare, h.left, h.right, Cell.isNull_eq, bind_eq_bind,
    bind_some]
  cases ha : a.key with
  | none => cases hb : b.key <;> rfl
  | some x =>
    cases hb : b.key with
    | none => rfl
    | some y =>
      have hread : ¬a.Misread := fun hm => hnot ⟨hm, hm.of_same h.same (by simp [hb])⟩
      simp [compareValues_read h.same h.ordered hread ha hb, keyOrder]

theorem LaneCells.compare_eq_none_iff (h : LaneCells lane l r a b) :
    lane.compare l r = none ↔ a.Misread ∧ b.Misread := by
  constructor
  · intro hnone
    by_contra hnot
    rw [h.compare_read hnot] at hnone
    cases hnone
  · intro hm
    exact h.compare_misread hm.1 hm.2

theorem keyOrder_eq_iff {direction : SortDirection} {nulls : NullPlacement} {x y : Option Int} :
    keyOrder direction nulls x y = .eq ↔ x = y := by
  cases x <;> cases y <;> cases nulls <;> cases direction <;>
    simp [keyOrder, placementOrdering, directed]

end Stillflow.Engine.Sort
