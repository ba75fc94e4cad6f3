import Stillflow.Engine.Profile
import Stillflow.Lib.Retained

/-! When profiling a conforming table succeeds. -/

namespace Stillflow.Engine

open Stillflow.Core Stillflow.Plan Lib Lib.Fallible Lib.SelfDelimiting List

/-- A cell of the Arrow array that carries a logical type. -/
def cellConforms : LogicalType → AnyValue → Bool
  | .list _, _ | .struct _, _ => true
  | _, .null => true
  | .boolean, .boolean _ | .int8, .int8 _ | .int16, .int16 _ | .int32, .int32 _
  | .int64, .int64 _ | .uint8, .uint8 _ | .uint16, .uint16 _ | .uint32, .uint32 _
  | .uint64, .uint64 _ | .float32, .float32 _ | .float64, .float64 _ | .utf8, .string _
  | .binary, .binary _ | .date32, .date _ => true
  | .timestamp unit timezone, .datetime _ unit' timezone' => unit = unit' && timezone = timezone'
  | _, _ => false

def rowConforms (schema : LogicalSchema) (row : List AnyValue) : Prop :=
  List.Forall₂ (fun field cell => cellConforms field.dataType cell = true) schema.fields row

/-- The schema and every row of the envelopes are the declared ones. -/
def StreamConforms (schema : LogicalSchema) (stream : List ProfileEnvelope) : Prop :=
  ∀ envelope ∈ stream, envelope.schema = schema ∧ ∀ row ∈ envelope.rows, rowConforms schema row

def streamRows (stream : List ProfileEnvelope) : List (List AnyValue) :=
  stream.flatMap ProfileEnvelope.rows

namespace ResolvedColumn

/-- The distinct entries of a column, with their costs. -/
def entries (column : ResolvedColumn) (rows : List (List AnyValue)) : Finset (AnyValue × Nat) :=
  (rows.filterMap fun row => distinctEntry (columnStateFor column.logical)
    (column.cell row)).toFinset

end ResolvedColumn

def rowCells (columns : List ResolvedColumn) (row : List AnyValue) :
    List (LogicalType × AnyValue) :=
  columns.map fun column => (column.logical, column.cell row)

/-- The keys of the rows that have one. -/
def rowKeys (columns : List ResolvedColumn) (rows : List (List AnyValue)) : Finset KeyBytes :=
  (rows.filterMap fun row => (rowKey (rowCells columns row) []).toOption.join).toFinset

structure WithinProfileBounds (resolved : List ResolvedColumn) (stream : List ProfileEnvelope) :
    Prop where
  rows : (streamRows stream).length ≤ profileMaxRows
  bytes : (stream.map ProfileEnvelope.byteCount).sum ≤ profileMaxScanBytes
  columns : resolved.length ≤ profileMaxColumns
  distinct : ∀ column ∈ resolved,
    (column.entries (streamRows stream)).card ≤ profileMaxDistinctEntriesPerColumn ∧
      ∑ entry ∈ column.entries (streamRows stream), entry.2 ≤ profileStateByteBudget
  keys : (rowKeys resolved (streamRows stream)).card ≤ profileMaxFullRowDistinctEntries ∧
    ∑ key ∈ rowKeys resolved (streamRows stream), (key.length + 24) ≤ profileStateByteBudget

/-- A timestamp type with a zone, other than in seconds. -/
def LogicalType.isZoned : LogicalType → Bool
  | .timestamp .second _ => false
  | .timestamp _ timezone => timezone.isSome
  | _ => false

def cellBytes : AnyValue → Nat
  | .null => 1
  | .boolean _ | .int8 _ | .uint8 _ => 2
  | .int16 _ | .uint16 _ => 3
  | .int32 _ | .uint32 _ | .float32 _ | .date _ => 5
  | .int64 _ | .uint64 _ | .float64 _ => 9
  | .string text | .stringOwned text => 5 + (utf8Bytes text).length
  | .binary bytes => 5 + bytes.length
  | .datetime _ .second _ => 9
  | .datetime _ _ _ => 11
  -- a key ends before its first list or struct
  | .nested _ _ => 0

def keyCells (cells : List (LogicalType × AnyValue)) : List (LogicalType × AnyValue) :=
  cells.takeWhile fun cell => !LogicalType.isNested cell.1

/-- No value of a zoned timestamp, and a key that fits the buffer after `used` bytes. -/
def CellsFit (used : Nat) (cells : List (LogicalType × AnyValue)) : Prop :=
  (∀ cell ∈ keyCells cells, LogicalType.isZoned cell.1 = true → cell.2 = .null) ∧
    used + ((keyCells cells).map fun cell => cellBytes cell.2).sum ≤ maxDedupKeyBytes

/-- Every row whose key is built fits: all of them, or the first when a list or struct column ends
the counting of rows. -/
def KeysFit (columns : List ResolvedColumn) (rows : List (List AnyValue)) : Prop :=
  ∀ row ∈ if columns.any (LogicalType.isNested ·.logical) then rows.take 1 else rows,
    CellsFit 0 (rowCells columns row)

/-- `write` appends `n` bytes exactly when they fit. -/
def Writes (write : KeyBytes → Except EngineError KeyBytes) (n : Nat) : Prop :=
  ∀ out : KeyBytes, out.length ≤ maxDedupKeyBytes →
    (out.length + n ≤ maxDedupKeyBytes → ∃ out', write out = .ok out' ∧
      out'.length = out.length + n) ∧
    (maxDedupKeyBytes < out.length + n → ∃ e, write out = .error e)

theorem writes_push (byte : UInt8) : Writes (fun out => out.push byte) 1 := by
  intro out hout
  dsimp only
  unfold KeyBytes.push require
  constructor
  · intro hfit
    rw [if_pos (by omega)]
    exact ⟨_, rfl, by simp⟩
  · intro hover
    rw [if_neg (by omega)]
    exact ⟨_, rfl⟩

theorem writes_extendFromSlice (slice : List UInt8) :
    Writes (fun out => out.extendFromSlice slice) slice.length := by
  intro out hout
  dsimp only
  unfold KeyBytes.extendFromSlice require
  constructor
  · intro hfit
    rw [if_pos (by omega)]
    exact ⟨_, rfl, by simp⟩
  · intro hover
    rw [if_neg (by omega)]
    exact ⟨_, rfl⟩

theorem Writes.bind {f g : KeyBytes → Except EngineError KeyBytes} {m n : Nat} (hf : Writes f m)
    (hg : Writes g n) : Writes (fun out => f out >>= g) (m + n) := by
  intro out hout
  have hfirst := hf out hout
  dsimp only
  constructor
  · intro hfit
    have ⟨mid, hmid, hlength⟩ := hfirst.1 (by omega)
    have ⟨last, hlast, hlength'⟩ := (hg mid (by omega)).1 (by omega)
    exact ⟨last, by rw [hmid, ok_bind, hlast], by omega⟩
  · intro hover
    by_cases hm : out.length + m ≤ maxDedupKeyBytes
    · have ⟨mid, hmid, hlength⟩ := hfirst.1 hm
      have ⟨e, he⟩ := (hg mid (by omega)).2 (by omega)
      exact ⟨e, by rw [hmid, ok_bind, he]⟩
    · have ⟨e, he⟩ := hfirst.2 (by omega)
      exact ⟨e, by rw [he, error_bind]⟩

theorem writes_extendCounted (bytes : List UInt8) :
    Writes (fun out => extendCounted out bytes) (4 + bytes.length) := by
  have hcount := writes_extendFromSlice (leBytes 4 (bytes.length % 2 ^ 32))
  rw [length_leBytes] at hcount
  exact hcount.bind (writes_extendFromSlice bytes)

theorem writes_leBytes (width n : Nat) :
    Writes (fun out => out.extendFromSlice (leBytes width n)) width := by
  have h := writes_extendFromSlice (leBytes width n)
  rwa [length_leBytes] at h

variable {cell : AnyValue} {logical : LogicalType}

theorem writes_encodeSecond {timezone : Option String}
    (h : cellConforms (.timestamp .second timezone) cell = true) :
    Writes (encodeSecond cell) (cellBytes cell) := by
  cases cell with
  | null => exact writes_push 0x00
  | datetime epoch unit zone =>
    obtain rfl : TimeUnit.second = unit := by simp [cellConforms] at h; exact h.1
    have hepoch := writes_extendFromSlice (leBytes 8 epoch.toUInt64.toNat).reverse
    rw [length_reverse, length_leBytes] at hepoch
    exact (writes_push 0xFF).bind hepoch
  | _ => simp [cellConforms] at h

theorem writes_tagged (logical : LogicalType) (value : KeyValue) {n : Nat}
    (hpaused : rejectPausedKeyType logical = .ok ())
    (hpayload : Writes (encodePayload logical value) n) (hvalue : value ≠ .null := by simp)
    (hlogical : logical ≠ .null := by simp) :
    Writes (encodeComponent logical value) (1 + n) := by
  have h := (writes_push (componentTag logical)).bind hpayload
  intro out hout
  unfold encodeComponent
  rw [hpaused, ok_bind, if_neg hvalue, if_neg hlogical]
  exact h out hout

theorem writes_counted (logical : LogicalType) (value : KeyValue) {n : Nat}
    (hpaused : rejectPausedKeyType logical = .ok ())
    (hpayload : Writes (encodePayload logical value) (4 + n)) (hvalue : value ≠ .null := by simp)
    (hlogical : logical ≠ .null := by simp) :
    Writes (encodeComponent logical value) (5 + n) := by
  have h := writes_tagged logical value hpaused hpayload hvalue hlogical
  rwa [← Nat.add_assoc] at h

theorem writes_naive {unit : TimeUnit} {epoch : Int64} :
    Writes (encodePayload (.timestamp unit none) (.timestamp epoch unit none)) 10 := by
  have h := (writes_push (timestampUnitTag unit)).bind
    ((writes_push 0x00).bind (writes_leBytes 8 epoch.toUInt64.toNat))
  intro out hout
  unfold encodePayload encodeTimestamp
  simp only [require, if_pos, ok_bind]
  exact h out hout

theorem writes_encodeComponent_null (hpaused : rejectPausedKeyType logical = .ok ()) :
    Writes (encodeComponent logical .null) 1 := by
  intro out hout
  unfold encodeComponent
  rw [hpaused, ok_bind, if_pos rfl]
  exact writes_push 0x00 out hout

theorem writes_encodeCell_null (hnested : LogicalType.isNested logical = false) :
    Writes (encodeCell logical .null) (cellBytes .null) := by
  have hwrites := @writes_encodeComponent_null logical
  cases logical with
  | list | struct => simp [LogicalType.isNested] at hnested
  | null => exact writes_push 0x00
  | timestamp unit timezone =>
    cases unit with
    | second => exact writes_push 0x00
    | _ => exact hwrites rfl
  | _ => exact hwrites rfl

theorem writes_encodeCell (hconf : cellConforms logical cell = true)
    (hnested : LogicalType.isNested logical = false)
    (hzoned : LogicalType.isZoned logical = true → cell = .null) :
    Writes (encodeCell logical cell) (cellBytes cell) := by
  by_cases hcell : cell = .null
  · rw [hcell]
    exact writes_encodeCell_null hnested
  -- the pairs of a type and a value that do not conform go first
  cases logical <;> cases cell <;> try (simp_all [cellConforms, LogicalType.isNested]; done)
  case timestamp.datetime unit timezone epoch unit' zone =>
    by_cases hsecond : unit = .second
    · subst hsecond
      exact writes_encodeSecond hconf
    have hpaused : rejectPausedKeyType (.timestamp unit timezone) = .ok () := by
      cases unit <;> first | rfl | exact absurd rfl hsecond
    have hsame : unit = unit' ∧ timezone = zone := by simpa [cellConforms] using hconf
    obtain ⟨rfl, rfl⟩ := hsame
    cases timezone with
    | some zone => cases unit <;> first | exact absurd rfl hsecond | cases hzoned rfl
    | none =>
      have h := writes_tagged (.timestamp unit none) (.timestamp epoch unit none) hpaused
        writes_naive
      cases unit <;> first | exact absurd rfl hsecond | exact h
  case boolean.boolean v => exact writes_tagged .boolean (.boolean v) rfl (writes_push _)
  case int8.int8 v => exact writes_tagged .int8 (.int8 v) rfl (writes_push _)
  case int16.int16 v => exact writes_tagged .int16 (.int16 v) rfl (writes_leBytes 2 _)
  case int32.int32 v => exact writes_tagged .int32 (.int32 v) rfl (writes_leBytes 4 _)
  case int64.int64 v => exact writes_tagged .int64 (.int64 v) rfl (writes_leBytes 8 _)
  case uint8.uint8 v => exact writes_tagged .uint8 (.uint8 v) rfl (writes_push _)
  case uint16.uint16 v => exact writes_tagged .uint16 (.uint16 v) rfl (writes_leBytes 2 _)
  case uint32.uint32 v => exact writes_tagged .uint32 (.uint32 v) rfl (writes_leBytes 4 _)
  case uint64.uint64 v => exact writes_tagged .uint64 (.uint64 v) rfl (writes_leBytes 8 _)
  case float32.float32 v => exact writes_tagged .float32 (.float32 v) rfl (writes_leBytes 4 _)
  case float64.float64 v => exact writes_tagged .float64 (.float64 v) rfl (writes_leBytes 8 _)
  case date32.date v => exact writes_tagged .date32 (.date32 v) rfl (writes_leBytes 4 _)
  case utf8.string text =>
    exact writes_counted .utf8 (.utf8Owned text) rfl (writes_extendCounted _)
  case binary.binary bytes =>
    exact writes_counted .binary (.binary bytes) rfl (writes_extendCounted _)

theorem encodeCell_zoned (out : KeyBytes) (hconf : cellConforms logical cell = true)
    (hzoned : LogicalType.isZoned logical = true) (hcell : cell ≠ .null) :
    ∃ e, encodeCell logical cell out = .error e := by
  have hfail : ∀ (unit : TimeUnit) (zone : String) (epoch : Int64),
      ∃ e, encodeComponent (.timestamp unit (some zone)) (.timestamp epoch unit none) out =
        .error e := by
    intro unit zone epoch
    cases hrun : encodeComponent (.timestamp unit (some zone)) (.timestamp epoch unit none) out with
    | error e => exact ⟨e, rfl⟩
    | ok written =>
      obtain ⟨_, -, h⟩ := of_bind hrun
      rw [if_neg (by simp), if_neg (by simp)] at h
      obtain ⟨tagged, -, h⟩ := of_bind h
      obtain ⟨_, -, h⟩ := of_bind h
      obtain ⟨_, -, h⟩ := of_bind h
      cases h
  cases logical with
  | timestamp unit timezone =>
    cases timezone with
    | none => cases unit <;> cases hzoned
    | some zone =>
      cases cell with
      | null => exact absurd rfl hcell
      | datetime epoch unit' zone' =>
        have hsame : unit = unit' ∧ some zone = zone' := by simpa [cellConforms] using hconf
        obtain ⟨rfl, rfl⟩ := hsame
        cases unit with
        | second => cases hzoned
        | millisecond => exact hfail .millisecond zone epoch
        | microsecond => exact hfail .microsecond zone epoch
        | nanosecond => exact hfail .nanosecond zone epoch
      | _ => simp [cellConforms] at hconf
  | _ => cases hzoned

theorem keyCells_cons_of_nested {cell : LogicalType × AnyValue}
    (cells : List (LogicalType × AnyValue)) (h : LogicalType.isNested cell.1 = true) :
    keyCells (cell :: cells) = [] := by
  simp [keyCells, h]

theorem keyCells_cons {cell : LogicalType × AnyValue} (cells : List (LogicalType × AnyValue))
    (h : LogicalType.isNested cell.1 = false) :
    keyCells (cell :: cells) = cell :: keyCells cells := by
  simp [keyCells, h]

theorem rowKey_isOk_iff {cells : List (LogicalType × AnyValue)} (out : KeyBytes)
    (hconf : ∀ cell ∈ cells, cellConforms cell.1 cell.2 = true)
    (hout : out.length ≤ maxDedupKeyBytes) :
    (∃ key, rowKey cells out = .ok key) ↔ CellsFit out.length cells := by
  induction cells generalizing out with
  | nil =>
    constructor
    · intro _
      exact ⟨by simp [keyCells], by simpa [keyCells] using hout⟩
    · intro _
      exact ⟨some out, rfl⟩
  | cons cell cells ih =>
    unfold rowKey
    by_cases hnested : LogicalType.isNested cell.1 = true
    · rw [if_pos hnested, CellsFit, keyCells_cons_of_nested cells hnested]
      constructor
      · intro _
        exact ⟨by simp, by simpa using hout⟩
      · intro _
        exact ⟨none, rfl⟩
    · rw [Bool.not_eq_true] at hnested
      have hcell := hconf cell (by simp)
      have hrest : ∀ c ∈ cells, cellConforms c.1 c.2 = true :=
        fun c hc => hconf c (mem_cons_of_mem _ hc)
      rw [if_neg (by simp [hnested]), CellsFit, keyCells_cons cells hnested, map_cons,
        sum_cons]
      by_cases hbad : LogicalType.isZoned cell.1 = true ∧ cell.2 ≠ .null
      · have ⟨e, he⟩ := encodeCell_zoned out hcell hbad.1 hbad.2
        rw [he, error_bind]
        constructor
        · rintro ⟨key, hkey⟩
          cases hkey
        · intro h
          exact absurd (h.1 cell (by simp) hbad.1) hbad.2
      · have hnull : LogicalType.isZoned cell.1 = true → cell.2 = .null := by
          intro hz
          by_contra hne
          exact hbad ⟨hz, hne⟩
        have hwrites := writes_encodeCell hcell hnested hnull out hout
        by_cases hfit : out.length + cellBytes cell.2 ≤ maxDedupKeyBytes
        · have ⟨mid, hmid, hlength⟩ := hwrites.1 hfit
          rw [hmid, ok_bind, ih mid hrest (by omega), CellsFit, hlength]
          constructor
          · intro h
            refine ⟨?_, by omega⟩
            intro c hc
            cases hc with
            | head => exact hnull
            | tail _ hc => exact h.1 c hc
          · intro h
            exact ⟨fun c hc => h.1 c (mem_cons_of_mem _ hc), by omega⟩
        · have ⟨e, he⟩ := hwrites.2 (by omega)
          rw [he, error_bind]
          constructor
          · rintro ⟨key, hkey⟩
            cases hkey
          · intro h
            omega

theorem rowKey_eq_none_iff {cells : List (LogicalType × AnyValue)} {out : KeyBytes}
    {key : Option KeyBytes} (h : rowKey cells out = .ok key) :
    key = none ↔ cells.any (fun cell => LogicalType.isNested cell.1) = true := by
  induction cells generalizing out with
  | nil =>
    cases h
    simp
  | cons cell cells ih =>
    unfold rowKey at h
    by_cases hnested : LogicalType.isNested cell.1 = true
    · rw [if_pos hnested] at h
      cases h
      simp [hnested]
    · rw [if_neg hnested] at h
      obtain ⟨mid, -, hrest⟩ := of_bind h
      rw [ih hrest, any_cons]
      simp [hnested]

namespace FullRowState

variable {columns : List ResolvedColumn} {rows : List (List AnyValue)} {state : FullRowState}

theorem observe_overflow (h : state.overflow = true) (rows : List (List AnyValue)) :
    observe columns state rows = .ok state := by
  induction rows with
  | nil => rfl
  | cons row rows ih =>
    rw [observe, foldlM_cons, observeRow, if_pos h, ok_bind]
    exact ih

theorem observeRow_eq (h : state.overflow = false) (row : List AnyValue) :
    observeRow columns state row = do
      match ← rowKey (rowCells columns row) [] with
      | none => return overflowed
      | some key => return state.insert key := by
  rw [observeRow, if_neg (by simp [h])]
  rfl

theorem any_rowCells (row : List AnyValue) :
    (rowCells columns row).any (fun cell => LogicalType.isNested cell.1) =
      columns.any (LogicalType.isNested ·.logical) := by
  simp [rowCells, any_map, Function.comp_def]

theorem observe_isOk_iff_of_nested
    (hconf : ∀ row ∈ rows, ∀ cell ∈ rowCells columns row, cellConforms cell.1 cell.2 = true)
    (hnested : columns.any (LogicalType.isNested ·.logical) = true)
    (hstate : state.overflow = false) :
    (∃ next, observe columns state rows = .ok next) ↔
      ∀ row ∈ rows.take 1, CellsFit 0 (rowCells columns row) := by
  cases rows with
  | nil => simp [observe]
  | cons row rows =>
    have hkey := rowKey_isOk_iff [] (hconf row (by simp)) (Nat.zero_le _)
    rw [take_succ_cons, take_zero, forall_mem_singleton]
    rw [observe, foldlM_cons, observeRow_eq hstate]
    constructor
    · rintro ⟨next, h⟩
      obtain ⟨_, hrow, -⟩ := of_bind h
      obtain ⟨key, hrow, -⟩ := of_bind hrow
      exact hkey.mp ⟨key, hrow⟩
    · intro hfit
      have ⟨key, hrow⟩ := hkey.mpr hfit
      have hnone : key = none := by
        rw [rowKey_eq_none_iff hrow, any_rowCells]
        exact hnested
      subst hnone
      rw [hrow, ok_bind, pure_eq_ok, ok_bind]
      exact ⟨_, observe_overflow rfl rows⟩

theorem insert_retained {all : Finset KeyBytes} {key : KeyBytes}
    (hcard : all.card ≤ profileMaxFullRowDistinctEntries)
    (hbytes : ∑ key ∈ all, (key.length + 24) ≤ profileStateByteBudget)
    (hstate : state.overflow = false)
    (hkept : Retained (fun key : KeyBytes => key.length + 24) all state.keys state.bytes)
    (hkey : key ∈ all) : (state.insert key).overflow = false ∧
      Retained (fun key : KeyBytes => key.length + 24) all (state.insert key).keys
        (state.insert key).bytes := by
  unfold insert
  by_cases hmem : key ∈ state.keys
  · rw [if_pos hmem]
    exact ⟨hstate, hkept⟩
  · have hnext := hkept.cons hkey hmem
    have hlength := hnext.length_le
    have hcost := hnext.cost_le
    rw [length_cons] at hlength
    dsimp only at hcost ⊢
    rw [if_neg hmem, if_neg (by omega)]
    exact ⟨hstate, hnext⟩

theorem observe_isOk_iff {all : Finset KeyBytes}
    (hconf : ∀ row ∈ rows, ∀ cell ∈ rowCells columns row, cellConforms cell.1 cell.2 = true)
    (hflat : columns.any (LogicalType.isNested ·.logical) = false)
    (hcard : all.card ≤ profileMaxFullRowDistinctEntries)
    (hbytes : ∑ key ∈ all, (key.length + 24) ≤ profileStateByteBudget)
    (hall : ∀ row ∈ rows, ∀ key, rowKey (rowCells columns row) [] = .ok (some key) → key ∈ all)
    (hstate : state.overflow = false)
    (hkept : Retained (fun key : KeyBytes => key.length + 24) all state.keys state.bytes) :
    (∃ next, observe columns state rows = .ok next) ↔
      ∀ row ∈ rows, CellsFit 0 (rowCells columns row) := by
  induction rows generalizing state with
  | nil => simp [observe]
  | cons row rows ih =>
    have hkey := rowKey_isOk_iff [] (hconf row (by simp)) (Nat.zero_le _)
    have ih := fun state => @ih state
      (fun r hr => hconf r (mem_cons_of_mem _ hr))
      (fun r hr => hall r (mem_cons_of_mem _ hr))
    rw [observe, foldlM_cons, observeRow_eq hstate, forall_mem_cons, ← length_nil,
      ← hkey]
    cases hrow : rowKey (rowCells columns row) [] with
    | error e => simp
    | ok key =>
      cases key with
      | none =>
        have hany := (rowKey_eq_none_iff hrow).mp rfl
        rw [any_rowCells, hflat] at hany
        cases hany
      | some key =>
        have hnext := insert_retained hcard hbytes hstate hkept (hall row (by simp) key hrow)
        rw [ok_bind]
        dsimp only
        rw [pure_eq_ok, ok_bind]
        have hrest := ih (state.insert key) hnext.1 hnext.2
        rw [observe] at hrest
        rw [hrest]
        simp

end FullRowState

/-- A running column whose distinct values are entries of the whole stream. -/
structure ColumnKept (rows : List (List AnyValue)) (column : ColumnRuntime)
    (resolved : ResolvedColumn) : Prop where
  state : column.state = columnStateFor resolved.logical
  retained : ∃ pairs : List (AnyValue × Nat), pairs.map Prod.fst = column.distinct ∧
    Retained Prod.snd (resolved.entries rows) pairs column.stateBytes

/-- What the distinct-state bound says of one column. -/
def DistinctBound (rows : List (List AnyValue)) (resolved : ResolvedColumn) : Prop :=
  (resolved.entries rows).card ≤ profileMaxDistinctEntriesPerColumn ∧
    ∑ entry ∈ resolved.entries rows, entry.2 ≤ profileStateByteBudget

namespace ColumnKept

variable {all rows : List (List AnyValue)} {column : ColumnRuntime} {resolved : ResolvedColumn}

theorem observeCell (h : ColumnKept all column resolved) (hbound : DistinctBound all resolved)
    {row : List AnyValue} (hrow : row ∈ all) :
    ∃ next, column.observeCell (resolved.cell row) = .ok next ∧ ColumnKept all next resolved := by
  unfold ColumnRuntime.observeCell
  rw [h.state]
  cases hentry : distinctEntry (columnStateFor resolved.logical) (resolved.cell row) with
  | none => exact ⟨column, rfl, h⟩
  | some entry =>
    dsimp only
    by_cases hmem : entry.1 ∈ column.distinct
    · rw [if_pos hmem]
      exact ⟨column, rfl, h⟩
    · have ⟨pairs, hpairs, hretained⟩ := h.retained
      have hnew : entry ∉ pairs := by
        intro hin
        apply hmem
        rw [← hpairs]
        exact mem_map_of_mem hin
      have hall : entry ∈ resolved.entries all := by
        rw [ResolvedColumn.entries, mem_toFinset, mem_filterMap]
        exact ⟨row, hrow, hentry⟩
      have hnext := hretained.cons hall hnew
      have hcost := hnext.cost_le.trans hbound.2
      rw [if_neg hmem, require, if_pos hcost, ok_bind, pure_eq_ok]
      have hkeys : (entry :: pairs).map Prod.fst = entry.1 :: column.distinct := by
        rw [map_cons, hpairs]
      exact ⟨_, rfl, rfl, entry :: pairs, hkeys, hnext⟩

theorem closeBatch (h : ColumnKept all column resolved) (hbound : DistinctBound all resolved) :
    column.closeBatch = column := by
  have ⟨pairs, hpairs, hretained⟩ := h.retained
  have hlength := hretained.length_le.trans hbound.1
  unfold ColumnRuntime.closeBatch
  rw [if_neg]
  rw [← hpairs, length_map]
  omega

theorem observe (h : ColumnKept all column resolved) (hbound : DistinctBound all resolved)
    (hrows : ∀ row ∈ rows, row ∈ all) :
    ∃ next, column.observe resolved rows = .ok next ∧ ColumnKept all next resolved := by
  have hfold : ∀ column, ColumnKept all column resolved → ∃ next,
      (rows.map resolved.cell).foldlM ColumnRuntime.observeCell column = .ok next ∧
        ColumnKept all next resolved := by
    induction rows with
    | nil => exact fun column h => ⟨column, rfl, h⟩
    | cons row rows ih =>
      intro column h
      have ⟨mid, hmid, hkept⟩ := h.observeCell hbound (hrows row (by simp))
      have ⟨next, hnext, hlast⟩ := ih (fun r hr => hrows r (mem_cons_of_mem _ hr)) mid hkept
      exact ⟨next, by rw [map_cons, foldlM_cons, hmid, ok_bind, hnext], hlast⟩
  let counted := { column with nullCount := column.nullCount +
    (rows.map resolved.cell).countP (isNullAt resolved.logical) }
  have ⟨next, hnext, hkept⟩ := hfold counted ⟨h.state, h.retained⟩
  refine ⟨next, ?_, hkept⟩
  unfold ColumnRuntime.observe
  dsimp only
  rw [hnext, ok_bind, hkept.closeBatch hbound, pure_eq_ok]

theorem mapM_observe {columns : List ColumnRuntime} {resolved : List ResolvedColumn}
    (h : Forall₂ (ColumnKept all) columns resolved)
    (hbound : ∀ column ∈ resolved, DistinctBound all column) (hrows : ∀ row ∈ rows, row ∈ all) :
    ∃ next, ((columns.zip resolved).mapM fun (column, resolved) => column.observe resolved rows) =
      .ok next ∧ Forall₂ (ColumnKept all) next resolved := by
  induction h with
  | nil => exact ⟨[], rfl, .nil⟩
  | cons hfirst _ ih =>
    have ⟨head, hhead, hkept⟩ := hfirst.observe (hbound _ (by simp)) hrows
    have ⟨tail, htail, hrest⟩ := ih fun c hc => hbound c (mem_cons_of_mem _ hc)
    refine ⟨head :: tail, ?_, .cons hkept hrest⟩
    rw [zip_cons_cons, mapM_cons, htail]
    dsimp only
    rw [hhead, ok_bind, ok_bind, pure_eq_ok]

end ColumnKept

namespace ProfileRun

variable {schema : LogicalSchema} {resolved : List ResolvedColumn} {all : List (List AnyValue)}

theorem scan_isOk_iff (hbound : ∀ column ∈ resolved, DistinctBound all column)
    {stream : List ProfileEnvelope} {run : ProfileRun}
    (hschema : ∀ envelope ∈ stream, envelope.schema = schema)
    (hall : ∀ row ∈ streamRows stream, row ∈ all)
    (hrows : run.rowCountScanned + (streamRows stream).length ≤ profileMaxRows)
    (hbytes : run.scannedBytes + (stream.map ProfileEnvelope.byteCount).sum ≤ profileMaxScanBytes)
    (hkept : Forall₂ (ColumnKept all) run.columns resolved) :
    (∃ last, run.scan schema resolved stream = .ok last) ↔
      ∃ state, run.fullRow.observe resolved (streamRows stream) = .ok state := by
  induction stream generalizing run with
  | nil => exact ⟨fun _ => ⟨_, rfl⟩, fun _ => ⟨_, rfl⟩⟩
  | cons envelope rest ih =>
    have hsplit : streamRows (envelope :: rest) = envelope.rows ++ streamRows rest :=
      flatMap_cons
    rw [hsplit] at hall hrows
    rw [length_append] at hrows
    rw [map_cons, sum_cons] at hbytes
    have hview : run.view envelope = envelope.rows := by
      unfold view
      rw [if_neg (by omega)]
    have hown : ∀ row ∈ envelope.rows, row ∈ all :=
      fun row hrow => hall row (mem_append_left _ hrow)
    have ⟨columns, hcolumns, hnext⟩ := ColumnKept.mapM_observe hkept hbound hown
    unfold scan
    rw [if_neg (by omega), if_neg (by simp [hschema envelope (by simp)]), hview, hsplit,
      FullRowState.observe, foldlM_append]
    unfold admitEnvelope
    rw [hview]
    dsimp only
    rw [hcolumns, ok_bind]
    cases hfull : run.fullRow.observe resolved envelope.rows with
    | error e =>
      rw [FullRowState.observe] at hfull
      rw [hfull]
      simp
    | ok state =>
      have hlater := @ih
        ⟨run.rowCountScanned + envelope.rows.length, run.scannedBytes + envelope.byteCount,
          run.truncated || profileMaxRows < run.rowCountScanned + envelope.rows.length,
          columns, state⟩
        (fun e he => hschema e (mem_cons_of_mem _ he))
        (fun row hrow => hall row (mem_append_right _ hrow))
        (by dsimp only; omega) (by dsimp only; omega) hnext
      rw [FullRowState.observe] at hfull
      rw [hfull, ok_bind, ok_bind, pure_eq_ok, ok_bind, if_neg (lt_irrefl _)]
      exact hlater

theorem initial_kept (rows : List (List AnyValue)) (resolved : List ResolvedColumn) :
    Forall₂ (ColumnKept rows) (initial resolved).columns resolved := by
  unfold initial
  rw [forall₂_map_left_iff, forall₂_same]
  intro column _
  exact ⟨rfl, [], rfl, .nil⟩

end ProfileRun

variable {schema : LogicalSchema} {columns : ProfileColumns} {resolved : List ResolvedColumn}

theorem resolveColumns_mem (h : resolveColumns schema columns = .ok resolved)
    {column : ResolvedColumn} (hcolumn : column ∈ resolved) :
    ∃ field, schema.fields[column.index]? = some field ∧ column.logical = field.dataType := by
  cases columns with
  | all =>
    cases h
    have ⟨entry, hentry, hcolumn⟩ := mem_map.mp hcolumn
    subst hcolumn
    exact ⟨entry.1, mem_zipIdx_iff_getElem?.mp hentry, rfl⟩
  | explicit names =>
    have hrel := forall₂_of_mapM_ok h
    clear h
    induction hrel with
    | nil => cases hcolumn
    | cons hname _ ih =>
      cases hcolumn with
      | tail _ hcolumn => exact ih hcolumn
      | head =>
        unfold resolveColumn at hname
        split at hname
        · rename_i field index hfind
          cases hname
          exact ⟨field, mem_zipIdx_iff_getElem?.mp (mem_of_find?_eq_some hfind), rfl⟩
        · cases hname

theorem rowCells_conform (h : resolveColumns schema columns = .ok resolved)
    {row : List AnyValue} (hrow : rowConforms schema row) :
    ∀ cell ∈ rowCells resolved row, cellConforms cell.1 cell.2 = true := by
  intro cell hcell
  have ⟨column, hcolumn, heq⟩ := mem_map.mp hcell
  subst heq
  have ⟨field, hfield, hlogical⟩ := resolveColumns_mem h hcolumn
  have ⟨hindex, hget⟩ := List.getElem?_eq_some_iff.mp hfield
  have ⟨hlength, hcells⟩ := List.forall₂_iff_get.mp hrow
  have hcell := hcells column.index hindex (hlength ▸ hindex)
  rw [hlogical, ResolvedColumn.cell, List.getD_eq_getElem _ _ (hlength ▸ hindex), ← hget]
  exact hcell

/-- Profiling a conforming table inside the bounds succeeds exactly when every key it builds
fits. -/
theorem profileBatches_isOk_iff {schema : LogicalSchema} {columns : ProfileColumns}
    {resolved : List ResolvedColumn} {stream : List ProfileEnvelope}
    (hresolved : resolveColumns schema columns = .ok resolved)
    (hconf : StreamConforms schema stream) (hbounds : WithinProfileBounds resolved stream) :
    (∃ profile, profileBatches schema columns stream = .ok profile) ↔
      KeysFit resolved (streamRows stream) := by
  have hcells : ∀ row ∈ streamRows stream, ∀ cell ∈ rowCells resolved row,
      cellConforms cell.1 cell.2 = true := by
    intro row hrow
    have ⟨envelope, henvelope, hin⟩ := mem_flatMap.mp hrow
    exact rowCells_conform hresolved ((hconf envelope henvelope).2 row hin)
  have hscan := ProfileRun.scan_isOk_iff hbounds.distinct (fun e he => (hconf e he).1)
    (fun _ h => h) (by rw [ProfileRun.initial, Nat.zero_add]; exact hbounds.rows)
    (by rw [ProfileRun.initial, Nat.zero_add]; exact hbounds.bytes) (ProfileRun.initial_kept _ resolved)
  have hrun : (∃ profile, profileBatches schema columns stream = .ok profile) ↔
      ∃ last, (ProfileRun.initial resolved).scan schema resolved stream = .ok last := by
    unfold profileBatches
    rw [hresolved, ok_bind, require, if_pos hbounds.columns, ok_bind]
    constructor
    · rintro ⟨profile, h⟩
      obtain ⟨last, hlast, -⟩ := of_bind h
      exact ⟨last, hlast⟩
    · rintro ⟨last, hlast⟩
      exact ⟨_, by rw [hlast, ok_bind, pure_eq_ok]⟩
  rw [hrun, hscan, KeysFit]
  by_cases hnested : resolved.any (LogicalType.isNested ·.logical) = true
  · rw [if_pos hnested]
    exact FullRowState.observe_isOk_iff_of_nested hcells hnested rfl
  · rw [if_neg hnested]
    apply FullRowState.observe_isOk_iff hcells (by simpa using hnested) hbounds.keys.1
      hbounds.keys.2 _ rfl .nil
    intro row hrow key hkey
    rw [rowKeys, mem_toFinset, mem_filterMap]
    exact ⟨row, hrow, by rw [hkey]; rfl⟩

def instants (timezone : Option String) : LogicalSchema × List ProfileEnvelope :=
  let schema := ⟨1, [⟨1, "at", .timestamp .millisecond timezone, true, ∅⟩], ∅⟩
  (schema, [⟨schema, 0, 64, [[.datetime 5 .millisecond timezone]]⟩])

theorem instants_conform (timezone : Option String) :
    StreamConforms (instants timezone).1 (instants timezone).2 := by
  intro envelope henvelope
  rw [mem_singleton.mp henvelope]
  refine ⟨rfl, fun row hrow => ?_⟩
  rw [mem_singleton.mp hrow]
  exact .cons (by simp [cellConforms]) .nil

theorem utcInstants_bounds :
    WithinProfileBounds [⟨0, .timestamp .millisecond (some "UTC"), "at"⟩]
      (instants (some "UTC")).2 := by
  constructor <;> decide +kernel

theorem naiveInstants_bounds :
    WithinProfileBounds [⟨0, .timestamp .millisecond none, "at"⟩] (instants none).2 := by
  constructor <;> decide +kernel

/-- A table with one zoned timestamp is refused. -/
theorem utcInstants_refused : StreamConforms (instants (some "UTC")).1 (instants (some "UTC")).2 ∧
    WithinProfileBounds [⟨0, .timestamp .millisecond (some "UTC"), "at"⟩]
      (instants (some "UTC")).2 ∧
    profileBatches (instants (some "UTC")).1 .all (instants (some "UTC")).2 = .error (.internal
      "dedup key timestamp timezone presence drifted from the working schema") :=
  ⟨instants_conform _, utcInstants_bounds, by decide +kernel⟩

theorem naiveInstants_profiled :
    KeysFit [⟨0, .timestamp .millisecond none, "at"⟩] (streamRows (instants none).2) ∧
      ∃ profile, profileBatches (instants none).1 .all (instants none).2 = .ok profile := by
  have hprofiled : ∃ profile, profileBatches (instants none).1 .all (instants none).2 =
      .ok profile := exists_of_isOk (by decide +kernel)
  exact ⟨(profileBatches_isOk_iff rfl (instants_conform none) naiveInstants_bounds).mp hprofiled,
    hprofiled⟩

end Stillflow.Engine
