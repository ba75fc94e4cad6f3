import Stillflow.Engine.LaneOrder
import Stillflow.Lib.FirstFault

/-! When the buffer sorts. -/

namespace Stillflow.Engine.Sort

open Stillflow.Core Stillflow.Plan Lib Lib.Fallible Lib.ComparisonSort List

variable {a b : Cell} {l r : Row} {lane : SortLane} {lanes : List SortLane}
  {schema : List DataType} {n : Nat}

/-- One cell comes strictly before another: NULLs where the lane puts them, in either direction. -/
def SortLane.Precedes (lane : SortLane) (a b : Cell) : Prop :=
  match a.key, b.key with
  | none, none => False
  | none, some _ => lane.nulls = .first
  | some _, none => lane.nulls = .last
  | some x, some y =>
    match lane.direction with
    | .ascending => x < y
    | .descending => y < x

def Agree (lane : SortLane) (l r : Row) : Prop := l[lane.columnIndex]? = r[lane.columnIndex]?

/-- The first lane on which two rows differ puts one before the other. -/
def RowBefore (lanes : List SortLane) (l r : Row) : Prop :=
  ∃ earlier lane later a b, lanes = earlier ++ lane :: later ∧ (∀ e ∈ earlier, Agree e l r) ∧
    l[lane.columnIndex]? = some a ∧ r[lane.columnIndex]? = some b ∧ lane.Precedes a b

/-- Two rows agree up to a lane on which both hold a misread timestamp. -/
def Clash (lanes : List SortLane) (l r : Row) : Prop :=
  ∃ earlier lane later a b, lanes = earlier ++ lane :: later ∧ (∀ e ∈ earlier, Agree e l r) ∧
    l[lane.columnIndex]? = some a ∧ r[lane.columnIndex]? = some b ∧ a.Misread ∧ b.Misread

/-- A permutation of the rows, ordered lane by lane, with ties in input order. -/
def StablySorted (lanes : List SortLane) (rows sorted : List Row) : Prop :=
  ∃ order : List (Fin rows.length), order.Perm (List.finRange rows.length) ∧
    sorted = order.map rows.get ∧
    order.Pairwise fun i j =>
      (compareRows (rows.get i) (rows.get j) lanes = some .lt ∧
        RowBefore lanes (rows.get i) (rows.get j)) ∨
      (compareRows (rows.get i) (rows.get j) lanes = some .eq ∧
        (∀ lane ∈ lanes, Agree lane (rows.get i) (rows.get j)) ∧ i < j)

def SchemaRow (schema : List DataType) : Type :=
  { row : Row // row.map Cell.dataType = schema }

/-- The comparator never fails on rows of the schema and is a total preorder there. -/
def TotalPreorder (schema : List DataType) (lanes : List SortLane) : Prop :=
  ∃ cmp : SchemaRow schema → SchemaRow schema → Ordering, Std.TransCmp cmp ∧
    ∀ l r, compareRows l.val r.val lanes = some (cmp l r)

/-- Every timestamp lane has nanoseconds. -/
def NanosecondLanes (schema : List DataType) (lanes : List SortLane) : Prop :=
  ∀ lane ∈ lanes, ∀ unit timezone,
    schema[lane.columnIndex]? = some (.integer (.timestamp unit timezone)) → unit = .nanosecond

/-- The lanes find their cells in both rows. -/
def Comparable (lanes : List SortLane) (l r : Row) : Prop :=
  ∀ lane ∈ lanes, ∃ a b, LaneCells lane l r a b

theorem LaneCells.agree_iff (h : LaneCells lane l r a b) : Agree lane l r ↔ a = b := by
  rw [Agree, h.left, h.right, Option.some.injEq]

/-- A lane decides a tie exactly between equal cells, misread ones apart. -/
theorem LaneCells.compare_eq_iff (h : LaneCells lane l r a b) :
    lane.compare l r = some .eq ↔ a = b ∧ ¬a.Misread := by
  constructor
  · intro heq
    have hnot : ¬(a.Misread ∧ b.Misread) := by
      rw [← h.compare_eq_none_iff, heq]
      exact Option.some_ne_none _
    rw [h.compare_read hnot, Option.some.injEq, keyOrder_eq_iff] at heq
    have hab := Cell.key_injective h.same h.ordered heq
    subst hab
    exact ⟨rfl, fun hm => hnot ⟨hm, hm⟩⟩
  · intro ⟨hab, hm⟩
    subst hab
    rw [h.compare_read fun hboth => hm hboth.1, Option.some.injEq, keyOrder_eq_iff]

theorem compareRows_cons (l r : Row) (lane : SortLane) (lanes : List SortLane) :
    compareRows l r (lane :: lanes) =
      if lane.compare l r = some .eq then compareRows l r lanes else lane.compare l r := by
  rw [compareRows]
  split
  · next h => rw [if_pos h]
  · next h => rw [if_neg h]

theorem clash_cons (h : LaneCells lane l r a b) :
    Clash (lane :: lanes) l r ↔
      (a.Misread ∧ b.Misread) ∨ (a = b ∧ Clash lanes l r) := by
  constructor
  · rintro ⟨earlier, first, later, c, d, heq, hagree, hc, hd, hm⟩
    cases earlier with
    | nil =>
      obtain ⟨rfl, rfl⟩ := List.cons.inj heq
      rw [h.left] at hc
      rw [h.right] at hd
      cases hc
      cases hd
      exact .inl hm
    | cons e earlier =>
      obtain ⟨rfl, rfl⟩ := List.cons.inj heq
      rw [forall_mem_cons] at hagree
      exact .inr ⟨h.agree_iff.mp hagree.1, earlier, first, later, c, d, rfl, hagree.2, hc, hd, hm⟩
  · rintro (hm | ⟨hab, earlier, first, later, c, d, rfl, hagree, hc, hd, hm⟩)
    · exact ⟨[], lane, lanes, a, b, rfl, by simp, h.left, h.right, hm⟩
    · refine ⟨lane :: earlier, first, later, c, d, rfl, ?_, hc, hd, hm⟩
      exact forall_mem_cons.mpr ⟨h.agree_iff.mpr hab, hagree⟩

theorem compareRows_eq_none_iff (h : Comparable lanes l r) :
    compareRows l r lanes = none ↔ Clash lanes l r := by
  induction lanes with
  | nil => simp [compareRows, Clash]
  | cons lane lanes ih =>
    obtain ⟨⟨a, b, hcells⟩, hrest⟩ := forall_mem_cons.mp h
    rw [compareRows_cons, clash_cons hcells, ← hcells.compare_eq_none_iff]
    split_ifs with heq
    · rw [ih hrest, heq]
      simp [(hcells.compare_eq_iff.mp heq).1]
    · constructor
      · exact .inl
      · rintro (hnone | ⟨hab, hclash⟩)
        · exact hnone
        · by_contra hsome
          rw [hcells.compare_eq_none_iff] at hsome
          exact heq (hcells.compare_eq_iff.mpr ⟨hab, fun hm => hsome ⟨hm, hab ▸ hm⟩⟩)

theorem LaneCells.precedes (h : LaneCells lane l r a b) (hlt : lane.compare l r = some .lt) :
    lane.Precedes a b := by
  have hnot : ¬(a.Misread ∧ b.Misread) := by
    rw [← h.compare_eq_none_iff, hlt]
    exact Option.some_ne_none _
  rw [h.compare_read hnot, Option.some.injEq] at hlt
  unfold SortLane.Precedes
  cases ha : a.key <;> cases hb : b.key <;> cases hn : lane.nulls <;> cases hd : lane.direction <;>
    simp_all [keyOrder, placementOrdering, directed, compare_lt_iff_lt, compare_gt_iff_gt]

theorem compareRows_lt (h : Comparable lanes l r) (hlt : compareRows l r lanes = some .lt) :
    RowBefore lanes l r := by
  induction lanes with
  | nil => cases hlt
  | cons lane lanes ih =>
    obtain ⟨⟨a, b, hcells⟩, hrest⟩ := forall_mem_cons.mp h
    rw [compareRows_cons] at hlt
    split_ifs at hlt with hlane
    · obtain ⟨earlier, first, later, c, d, rfl, hagree, hc, hd, hp⟩ := ih hrest hlt
      have hfirst := hcells.agree_iff.mpr (hcells.compare_eq_iff.mp hlane).1
      exact ⟨lane :: earlier, first, later, c, d, rfl,
        forall_mem_cons.mpr ⟨hfirst, hagree⟩, hc, hd, hp⟩
    · exact ⟨[], lane, lanes, a, b, rfl, by simp, hcells.left, hcells.right, hcells.precedes hlt⟩

theorem compareRows_eq (h : Comparable lanes l r) (heq : compareRows l r lanes = some .eq) :
    ∀ lane ∈ lanes, Agree lane l r := by
  induction lanes with
  | nil => simp
  | cons lane lanes ih =>
    obtain ⟨⟨a, b, hcells⟩, hrest⟩ := forall_mem_cons.mp h
    rw [compareRows_cons] at heq
    split_ifs at heq with hlane
    · have hagree := hcells.agree_iff.mpr (hcells.compare_eq_iff.mp hlane).1
      exact forall_mem_cons.mpr ⟨hagree, ih hrest heq⟩
    · exact absurd heq hlane

variable {ι : Type}

open Classical in
/-- The key of a cell where misread timestamps are put in an order of their own. -/
noncomputable def openKey (tie : ι → Int) (rows : ι → Row) (lane : SortLane) (i : ι) :
    Option Int :=
  (rows i)[lane.columnIndex]?.bind fun a => if a.Misread then some (tie i) else a.key

noncomputable def completion (tie : ι → Int) (rows : ι → Row) (lanes : List SortLane) :
    ι → ι → Ordering :=
  lexOrder (lanes.map fun lane i j =>
    keyOrder lane.direction lane.nulls (openKey tie rows lane i) (openKey tie rows lane j))

instance transCmp_completion (tie : ι → Int) (rows : ι → Row) (lanes : List SortLane) :
    Std.TransCmp (completion tie rows lanes) := by
  apply transCmp_lexOrder
  intro cmp hcmp
  obtain ⟨lane, -, rfl⟩ := List.mem_map.mp hcmp
  exact transCmp_pull (openKey tie rows lane)

theorem completion_cons (tie : ι → Int) (rows : ι → Row) (lane : SortLane)
    (lanes : List SortLane) (i j : ι) :
    completion tie rows (lane :: lanes) i j =
      (keyOrder lane.direction lane.nulls (openKey tie rows lane i) (openKey tie rows lane j)).then
        (completion tie rows lanes i j) := rfl

section

variable {tie : ι → Int} {rows : ι → Row} {i j : ι}

theorem openKey_misread (hi : (rows i)[lane.columnIndex]? = some a) (ha : a.Misread) :
    openKey tie rows lane i = some (tie i) := by
  simp [openKey, hi, ha]

theorem openKey_read (hi : (rows i)[lane.columnIndex]? = some a) (ha : ¬a.Misread) :
    openKey tie rows lane i = a.key := by
  simp [openKey, hi, ha]

/-- Where a lane's comparison succeeds, every completion gives the same answer. -/
theorem LaneCells.completes (h : LaneCells lane (rows i) (rows j) a b)
    (hnot : ¬(a.Misread ∧ b.Misread)) :
    keyOrder lane.direction lane.nulls (openKey tie rows lane i) (openKey tie rows lane j) =
      keyOrder lane.direction lane.nulls a.key b.key := by
  by_cases ha : a.Misread
  · have hb : ¬b.Misread := fun hb => hnot ⟨ha, hb⟩
    have hnull : b.key = none := by
      by_contra hkey
      exact hb (ha.of_same h.same hkey)
    obtain ⟨x, hx⟩ := Option.ne_none_iff_exists'.mp ha.key_ne_none
    rw [openKey_misread h.left ha, openKey_read h.right hb, hnull, hx]
    rfl
  · by_cases hb : b.Misread
    · have hnull : a.key = none := by
        by_contra hkey
        exact ha (hb.of_same h.same.symm hkey)
      obtain ⟨y, hy⟩ := Option.ne_none_iff_exists'.mp hb.key_ne_none
      rw [openKey_read h.left ha, openKey_misread h.right hb, hnull, hy]
      rfl
    · rw [openKey_read h.left ha, openKey_read h.right hb]

theorem LaneCells.completion_some {o : Ordering} (h : LaneCells lane (rows i) (rows j) a b)
    (ho : lane.compare (rows i) (rows j) = some o) :
    keyOrder lane.direction lane.nulls (openKey tie rows lane i) (openKey tie rows lane j) = o := by
  have hnot : ¬(a.Misread ∧ b.Misread) := by
    rw [← h.compare_eq_none_iff, ho]
    exact Option.some_ne_none _
  rw [h.completes hnot]
  rw [h.compare_read hnot] at ho
  exact Option.some.inj ho

theorem completion_some {o : Ordering} (h : Comparable lanes (rows i) (rows j))
    (ho : compareRows (rows i) (rows j) lanes = some o) : completion tie rows lanes i j = o := by
  induction lanes with
  | nil => exact Option.some.inj ho
  | cons lane lanes ih =>
    obtain ⟨⟨a, b, hcells⟩, hrest⟩ := forall_mem_cons.mp h
    rw [compareRows_cons] at ho
    split_ifs at ho with hlane
    · rw [completion_cons, hcells.completion_some hlane]
      exact ih hrest ho
    · have hkey : keyOrder lane.direction lane.nulls (openKey tie rows lane i)
          (openKey tie rows lane j) = o := hcells.completion_some ho
      have hne : o ≠ .eq := fun heq => hlane (heq ▸ ho)
      rw [completion_cons, hkey]
      cases o <;> first | rfl | exact absurd rfl hne

end

theorem completion_none {rows : ι → Row} {i j : ι} (h : Comparable lanes (rows i) (rows j))
    (hnone : compareRows (rows i) (rows j) lanes = none) :
    ∃ direction, ∀ tie : ι → Int, tie i ≠ tie j →
      completion tie rows lanes i j = directed direction (compare (tie i) (tie j)) := by
  induction lanes with
  | nil => cases hnone
  | cons lane lanes ih =>
    obtain ⟨⟨a, b, hcells⟩, hrest⟩ := forall_mem_cons.mp h
    rw [compareRows_cons] at hnone
    split_ifs at hnone with hlane
    · obtain ⟨direction, hdirection⟩ := ih hrest hnone
      refine ⟨direction, fun tie hne => ?_⟩
      rw [completion_cons, hcells.completion_some hlane]
      exact hdirection tie hne
    · refine ⟨lane.direction, fun tie hne => ?_⟩
      obtain ⟨ha, hb⟩ := hcells.compare_eq_none_iff.mp hnone
      rw [completion_cons, openKey_misread hcells.left ha, openKey_misread hcells.right hb]
      have hdecided : directed lane.direction (compare (tie i) (tie j)) ≠ .eq := by
        cases lane.direction <;> simpa [directed] using hne
      show (directed lane.direction (compare (tie i) (tie j))).then _ = _
      cases hdir : directed lane.direction (compare (tie i) (tie j)) with
      | eq => exact absurd hdir hdecided
      | lt => rfl
      | gt => rfl

variable {sortBy : (n : Nat) → Sorter n} {rows : List Row}

def NoClash (lanes : List SortLane) (rows : List Row) : Prop :=
  ∀ i j : Fin rows.length, i ≠ j → ¬Clash lanes (rows.get i) (rows.get j)

/-- The order in which `finish` returns the rows. -/
def sortedOrder (sortBy : (n : Nat) → Sorter n) (lanes : List SortLane) (rows : List Row) :
    Option (List (Fin rows.length)) :=
  (sortBy rows.length).run fun i j => compareRows (rows.get i) (rows.get j) lanes

theorem directed_neg (direction : SortDirection) (x y : Int) :
    directed direction (compare (-x) (-y)) = (directed direction (compare x y)).swap := by
  rw [compare_neg]
  cases direction <;> rfl

/-- Two rows in a clash have a completion for either order. -/
theorem sortedOrder_of_clash (hsort : StableSort sortBy)
    (hrows : ∀ i j, Comparable lanes (rows.get i) (rows.get j)) {i j : Fin rows.length}
    (hne : i ≠ j) (hclash : Clash lanes (rows.get i) (rows.get j)) :
    sortedOrder sortBy lanes rows = none := by
  have hnone := (compareRows_eq_none_iff (hrows i j)).mpr hclash
  obtain ⟨direction, hdirection⟩ := completion_none (hrows i j) hnone
  have hint : (i : Int) ≠ (j : Int) := by
    simpa [Fin.ext_iff] using hne
  have hup := hdirection (fun k => (k : Int)) hint
  have hdown := hdirection (fun k => -(k : Int)) (by simpa using hint)
  rw [directed_neg] at hdown
  have hagree : ∀ (tie : Fin rows.length → Int) (i j : Fin rows.length) (o : Ordering), i ≠ j →
      compareRows (rows.get i) (rows.get j) lanes = some o →
        completion tie rows.get lanes i j = o :=
    fun tie i j o _ ho => completion_some (hrows i j) ho
  cases hdir : directed direction (compare (i : Int) (j : Int)) with
  | lt =>
    rw [hdir] at hup hdown
    exact hsort.run_eq_none hne _ _ (hagree _) (hagree _) hup hdown
  | gt =>
    rw [hdir] at hup hdown
    exact hsort.run_eq_none hne _ _ (hagree _) (hagree _) hdown hup
  | eq =>
    have heq : compare (i : Int) (j : Int) = .eq := by
      cases direction <;> simpa [directed] using hdir
    exact absurd (compare_eq_iff_eq.mp heq) hint

theorem sortedOrder_of_noClash (hsort : StableSort sortBy)
    (hrows : ∀ i j, Comparable lanes (rows.get i) (rows.get j)) (h : NoClash lanes rows) :
    ∃ order, sortedOrder sortBy lanes rows = some order ∧
      StablySorted lanes rows (order.map rows.get) := by
  have htotal : ∀ i j : Fin rows.length, i ≠ j →
      compareRows (rows.get i) (rows.get j) lanes =
        some (completion (fun i : Fin rows.length => (i : Int)) rows.get lanes i j) := by
    intro i j hne
    obtain ⟨o, ho⟩ := Option.ne_none_iff_exists'.mp
      (mt (compareRows_eq_none_iff (hrows i j)).mp (h i j hne))
    rw [ho, completion_some (hrows i j) ho]
  obtain ⟨order, hrun, horder⟩ := hsort.run_of_total _ htotal
  refine ⟨order, hrun, order, horder.perm, rfl, ?_⟩
  have hnodup : order.Nodup := horder.perm.nodup_iff.mpr (nodup_finRange _)
  refine (horder.sorted.and hnodup).imp ?_
  rintro i j ⟨hlt | ⟨heq, hij⟩, hne⟩
  · have hcmp := htotal i j hne
    rw [hlt] at hcmp
    exact .inl ⟨hcmp, compareRows_lt (hrows i j) hcmp⟩
  · have hcmp := htotal i j hne
    rw [heq] at hcmp
    exact .inr ⟨hcmp, compareRows_eq (hrows i j) hcmp, hij⟩

theorem ordered_of_check (h : checkOrderedTypes schema lanes = .ok ()) (hlane : lane ∈ lanes) :
    ∃ dataType, schema[lane.columnIndex]? = some dataType ∧ isOrderedArrowType dataType = true := by
  have hone := FirstFault.forM_eq_ok.mp h lane hlane
  cases hcol : schema[lane.columnIndex]? with
  | none => simp [hcol] at hone
  | some dataType =>
    rw [hcol] at hone
    exact ⟨dataType, rfl, require_eq_ok.mp hone⟩

theorem comparable_of_check (h : checkOrderedTypes schema lanes = .ok ())
    (hl : l.map Cell.dataType = schema) (hr : r.map Cell.dataType = schema) :
    Comparable lanes l r := by
  intro lane hlane
  obtain ⟨dataType, hcol, hordered⟩ := ordered_of_check h hlane
  have hleft := hcol
  have hright := hcol
  rw [← hl, getElem?_map, Option.map_eq_some_iff] at hleft
  rw [← hr, getElem?_map, Option.map_eq_some_iff] at hright
  obtain ⟨a, ha, rfl⟩ := hleft
  obtain ⟨b, hb, hsame⟩ := hright
  exact ⟨a, b, ha, hb, hsame.symm, hordered⟩

def DataType.sample : DataType → Cell
  | .integer type => .integer type (some 0)
  | .float32 => .float32 (some 0)
  | .float64 => .float64 (some 0)
  | .other name => .other name (some [])

theorem DataType.sample_dataType (dataType : DataType) : dataType.sample.dataType = dataType := by
  cases dataType <;> rfl

theorem not_clash_of_nanosecond (h : NanosecondLanes schema lanes)
    (hl : l.map Cell.dataType = schema) : ¬Clash lanes l r := by
  rintro ⟨earlier, lane, later, a, b, rfl, -, ha, -, hm, -⟩
  match a, hm with
  | .integer (.timestamp unit timezone) value, hm =>
    refine hm.1 (h lane (by simp) unit timezone ?_)
    rw [← hl, getElem?_map, ha]
    rfl

theorem totalPreorder_iff (h : checkOrderedTypes schema lanes = .ok ()) :
    TotalPreorder schema lanes ↔ NanosecondLanes schema lanes := by
  constructor
  · rintro ⟨cmp, -, hcmp⟩ lane hlane unit timezone hcol
    by_contra hunit
    have hrow : (schema.map DataType.sample).map Cell.dataType = schema := by
      rw [map_map]
      exact (map_congr_left fun dataType _ => dataType.sample_dataType).trans (map_id _)
    have hcell : (schema.map DataType.sample)[lane.columnIndex]? =
        some (.integer (.timestamp unit timezone) (some 0)) := by
      rw [getElem?_map, hcol]
      rfl
    have hmisread : (Cell.integer (.timestamp unit timezone) (some 0)).Misread :=
      ⟨hunit, Option.some_ne_none 0⟩
    obtain ⟨earlier, later, rfl⟩ := append_of_mem hlane
    have hclash : Clash (earlier ++ lane :: later) (schema.map DataType.sample)
        (schema.map DataType.sample) :=
      ⟨earlier, lane, later, _, _, rfl, fun _ _ => rfl, hcell, hcell, hmisread, hmisread⟩
    have hnone := (compareRows_eq_none_iff (comparable_of_check h hrow hrow)).mpr hclash
    rw [hcmp ⟨_, hrow⟩ ⟨_, hrow⟩] at hnone
    cases hnone
  · intro hnano
    refine ⟨completion (fun _ => 0) (fun row => row.val) lanes, inferInstance, fun l r => ?_⟩
    have hcomparable := comparable_of_check h l.property r.property
    have hsome : compareRows l.val r.val lanes ≠ none :=
      mt (compareRows_eq_none_iff hcomparable).mp (not_clash_of_nanosecond hnano l.property)
    obtain ⟨o, ho⟩ := Option.ne_none_iff_exists'.mp hsome
    rw [ho, completion_some hcomparable ho]

theorem push_eq_ok {state state' : SortBuffer × MemoryTracker} {batch : RecordBatch}
    (h : SortBuffer.push state batch = .ok state') :
    state'.1 = { state.1 with
        typesChecked := true
        bytes := saturatingAdd state.1.bytes (SortBuffer.charge batch)
        chunks := state.1.chunks ++ [batch] } ∧
      saturatingAdd state.1.bytes (SortBuffer.charge batch) ≤ maxSortInputBytes ∧
      state.2.holdPolars (SortBuffer.charge batch) = .ok state'.2 := by
  obtain ⟨_, -, h⟩ := of_bind h
  split_ifs at h with hbound
  · obtain ⟨_, -, h⟩ := of_bind h
    cases h
  · obtain ⟨held, hheld, h⟩ := of_bind h
    cases h
    exact ⟨rfl, Nat.le_of_not_lt hbound, mapError_eq_ok.mp hheld⟩

def pushAll (state : SortBuffer × MemoryTracker) (chunks : List RecordBatch) :
    Except Halt (SortBuffer × MemoryTracker) :=
  chunks.foldlM SortBuffer.push state

theorem pushAll_eq_ok {state state' : SortBuffer × MemoryTracker} {chunks : List RecordBatch}
    (h : pushAll state chunks = .ok state') :
    state'.1.lanes = state.1.lanes ∧ state'.1.chunks = state.1.chunks ++ chunks := by
  induction chunks generalizing state with
  | nil =>
    cases h
    simp
  | cons batch chunks ih =>
    rw [pushAll, foldlM_cons] at h
    obtain ⟨middle, hpush, hrest⟩ := of_bind h
    obtain ⟨hbuffer, -, -⟩ := push_eq_ok hpush
    obtain ⟨hlanes, hchunks⟩ := ih hrest
    rw [hbuffer] at hlanes hchunks
    exact ⟨hlanes, by rw [hchunks, append_assoc]; rfl⟩

theorem pushAll_new {tracker : MemoryTracker} {chunks : List RecordBatch}
    {state : SortBuffer × MemoryTracker}
    (h : pushAll (SortBuffer.new lanes, tracker) chunks = .ok state) :
    state.1.lanes = lanes ∧ state.1.rows = chunks.flatMap (·.rows) := by
  obtain ⟨hlanes, hchunks⟩ := pushAll_eq_ok h
  refine ⟨hlanes, ?_⟩
  rw [SortBuffer.rows, hchunks]
  rfl

def finishedRows (sortBy : (n : Nat) → Sorter n) (buffer : SortBuffer) : Option (List Row) :=
  (buffer.finish sortBy).map fun result => result.1.1

theorem finishedRows_eq (sortBy : (n : Nat) → Sorter n) (buffer : SortBuffer) :
    finishedRows sortBy buffer =
      (sortedOrder sortBy buffer.lanes buffer.rows).map fun order => order.map buffer.rows.get := by
  simp [finishedRows, SortBuffer.finish, sortedOrder, Option.map_eq_bind, Option.bind_assoc]

theorem finishedRows_stable_iff (hsort : StableSort sortBy) {buffer : SortBuffer}
    (hrows : ∀ i j, Comparable buffer.lanes (buffer.rows.get i) (buffer.rows.get j)) :
    (∃ sorted, finishedRows sortBy buffer = some sorted ∧
      StablySorted buffer.lanes buffer.rows sorted) ↔ NoClash buffer.lanes buffer.rows := by
  rw [finishedRows_eq]
  constructor
  · rintro ⟨sorted, hsorted, -⟩ i j hne hclash
    rw [sortedOrder_of_clash hsort hrows hne hclash] at hsorted
    cases hsorted
  · intro h
    obtain ⟨order, hrun, hstable⟩ := sortedOrder_of_noClash hsort hrows h
    exact ⟨order.map buffer.rows.get, by rw [hrun]; rfl, hstable⟩

/-- Sorting succeeds and is stable on exactly the rows that do not clash, however they were cut
into chunks, and the comparator is a total preorder on exactly the schemas with nanosecond
timestamps. -/
theorem sort_buffer_stable (hsort : StableSort sortBy)
    (hcheck : checkOrderedTypes schema lanes = .ok ()) :
    (TotalPreorder schema lanes ↔ NanosecondLanes schema lanes) ∧
    ∀ (tracker : MemoryTracker) (chunks : List RecordBatch) (state : SortBuffer × MemoryTracker),
      (∀ chunk ∈ chunks, chunk.schema = schema) →
      pushAll (SortBuffer.new lanes, tracker) chunks = .ok state →
      ((∃ sorted, finishedRows sortBy state.1 = some sorted ∧
        StablySorted lanes (chunks.flatMap (·.rows)) sorted) ↔
          NoClash lanes (chunks.flatMap (·.rows))) ∧
      ∀ (tracker' : MemoryTracker) (chunks' : List RecordBatch)
        (state' : SortBuffer × MemoryTracker),
        pushAll (SortBuffer.new lanes, tracker') chunks' = .ok state' →
        chunks'.flatMap (·.rows) = chunks.flatMap (·.rows) →
        finishedRows sortBy state'.1 = finishedRows sortBy state.1 := by
  refine ⟨totalPreorder_iff hcheck, fun tracker chunks state hschema hpush => ?_⟩
  obtain ⟨hlanes, hrows⟩ := pushAll_new hpush
  constructor
  · have hconforms : ∀ row ∈ state.1.rows, row.map Cell.dataType = schema := by
      intro row hrow
      rw [hrows] at hrow
      obtain ⟨chunk, hchunk, hrow⟩ := mem_flatMap.mp hrow
      rw [← hschema chunk hchunk]
      exact chunk.conforms row hrow
    rw [← hlanes] at hcheck
    have hcomparable : ∀ i j, Comparable state.1.lanes (state.1.rows.get i) (state.1.rows.get j) :=
      fun i j => comparable_of_check hcheck (hconforms _ (get_mem _ i))
        (hconforms _ (get_mem _ j))
    have hiff := finishedRows_stable_iff hsort hcomparable
    rwa [hlanes, hrows] at hiff
  · intro tracker' chunks' state' hpush' hsame
    obtain ⟨hlanes', hrows'⟩ := pushAll_new hpush'
    rw [finishedRows_eq, finishedRows_eq, hlanes', hlanes, hrows', hrows, hsame]

def integerBatch (type : IntegerType) (values : List (Option Int)) : RecordBatch where
  schema := [.integer type]
  rows := values.map fun value => [.integer type value]
  memorySize := 128
  conforms := by simp [Cell.dataType]

def freshTracker : MemoryTracker where
  envelopeBytes := 0
  workingBytes := 0
  remainderBytes := 0
  operatorStateBytes := maxOperatorStateBytes
  peakLimit := 3 * maxBatchBytes + maxOperatorStateBytes
  envelopeLive := false
  polarsLive := false
  incomingLive := false
  remainderLive := false

def keyLane : SortLane := ⟨0, .ascending, .last⟩

/-- Two chunks of microsecond timestamps are accepted and then cannot be sorted. -/
theorem microsecond_rows_panic :
    ∃ state, pushAll (SortBuffer.new [keyLane], freshTracker)
        [integerBatch (.timestamp .microsecond none) [some 2],
          integerBatch (.timestamp .microsecond none) [some 1]] = .ok state ∧
      finishedRows insertionSorter state.1 = none :=
  ⟨_, rfl, by decide⟩

theorem int64_rows_sorted :
    ∃ state sorted, pushAll (SortBuffer.new [keyLane], freshTracker)
        [integerBatch .int64 [some 2, none], integerBatch .int64 [some 1]] = .ok state ∧
      finishedRows insertionSorter state.1 = some sorted ∧
      StablySorted [keyLane] [[.integer .int64 (some 2)], [.integer .int64 none],
        [.integer .int64 (some 1)]] sorted := by
  have hcheck : checkOrderedTypes [.integer .int64] [keyLane] = .ok () := rfl
  have hnano : NanosecondLanes [.integer .int64] [keyLane] := by
    intro lane hlane unit timezone hcol
    rw [mem_singleton.mp hlane] at hcol
    cases hcol
  have hrun := (sort_buffer_stable insertionSorter_stable hcheck).2 freshTracker
    [integerBatch .int64 [some 2, none], integerBatch .int64 [some 1]] _
    (by simp [integerBatch]) rfl
  obtain ⟨sorted, hsorted, hstable⟩ := hrun.1.mpr fun i j _ =>
    not_clash_of_nanosecond hnano (by fin_cases i <;> rfl)
  exact ⟨_, sorted, rfl, hsorted, hstable⟩

end Stillflow.Engine.Sort
