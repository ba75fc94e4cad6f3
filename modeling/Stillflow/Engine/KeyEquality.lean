import Stillflow.Engine.KeyEncoding

/-!
The key buffer determines the key tuple: each component can be split off in one way only, up to
the equality of keys.
-/

namespace Stillflow.Engine

open Stillflow.Core Stillflow.Plan Lib.Fallible Lib.SelfDelimiting List

variable {a b x y : List UInt8} {declared : LogicalType} {out out' : KeyBytes}
  {v value w : KeyValue}

theorem canonicalFloat32Bits_eq_iff (a b : UInt32) :
    canonicalFloat32Bits a = canonicalFloat32Bits b ↔
      (isNan32 a = true ∧ isNan32 b = true) ∨ (isZero32 a = true ∧ isZero32 b = true) ∨ a = b := by
  have hnan : isNan32 0x7FC00000 = true := by decide
  have hzero : isZero32 0 = true := by decide
  have hnotnan : isNan32 0 = false := by decide
  have hnotzero : isZero32 0x7FC00000 = false := by decide
  have hdisj : ∀ c, isNan32 c = true → isZero32 c = true → False := by
    intro c hc hz
    simp only [isNan32, isZero32, Bool.and_eq_true, beq_iff_eq, bne_iff_ne] at hc hz
    apply hc.2
    rw [show (0x7FFFFF : UInt32) = 0x7FFFFFFF &&& 0x7FFFFF by decide, ← UInt32.and_assoc, hz]
    simp
  unfold canonicalFloat32Bits
  grind

theorem canonicalFloat64Bits_eq_iff (a b : UInt64) :
    canonicalFloat64Bits a = canonicalFloat64Bits b ↔
      (isNan64 a = true ∧ isNan64 b = true) ∨ (isZero64 a = true ∧ isZero64 b = true) ∨ a = b := by
  have hnan : isNan64 0x7FF8000000000000 = true := by decide
  have hzero : isZero64 0 = true := by decide
  have hnotnan : isNan64 0 = false := by decide
  have hnotzero : isZero64 0x7FF8000000000000 = false := by decide
  have hdisj : ∀ c, isNan64 c = true → isZero64 c = true → False := by
    intro c hc hz
    simp only [isNan64, isZero64, Bool.and_eq_true, beq_iff_eq, bne_iff_ne] at hc hz
    apply hc.2
    rw [show (0xFFFFFFFFFFFFF : UInt64) = 0x7FFFFFFFFFFFFFFF &&& 0xFFFFFFFFFFFFF by decide,
      ← UInt64.and_assoc, hz]
    simp
  unfold canonicalFloat64Bits
  grind

/-- The bytes a component that is not null puts after its tag. -/
inductive Payload : LogicalType → KeyValue → List UInt8 → Prop where
  | boolean (b : Bool) : Payload .boolean (.boolean b) [if b then 1 else 0]
  | int8 (v : Int8) : Payload .int8 (.int8 v) [v.toUInt8]
  | int16 (v : Int16) : Payload .int16 (.int16 v) (leBytes 2 v.toUInt16.toNat)
  | int32 (v : Int32) : Payload .int32 (.int32 v) (leBytes 4 v.toUInt32.toNat)
  | int64 (v : Int64) : Payload .int64 (.int64 v) (leBytes 8 v.toUInt64.toNat)
  | uint8 (v : UInt8) : Payload .uint8 (.uint8 v) [v]
  | uint16 (v : UInt16) : Payload .uint16 (.uint16 v) (leBytes 2 v.toNat)
  | uint32 (v : UInt32) : Payload .uint32 (.uint32 v) (leBytes 4 v.toNat)
  | uint64 (v : UInt64) : Payload .uint64 (.uint64 v) (leBytes 8 v.toNat)
  | float32 (v : UInt32) : Payload .float32 (.float32 v) (leBytes 4 (canonicalFloat32Bits v).toNat)
  | float64 (v : UInt64) : Payload .float64 (.float64 v) (leBytes 8 (canonicalFloat64Bits v).toNat)
  | utf8 (t : String) : Payload .utf8 (.utf8 t) (leBytes 4 (utf8Bytes t).length ++ utf8Bytes t)
  | utf8Owned (t : String) :
    Payload .utf8 (.utf8Owned t) (leBytes 4 (utf8Bytes t).length ++ utf8Bytes t)
  | binary (bytes : List UInt8) :
    Payload .binary (.binary bytes) (leBytes 4 bytes.length ++ bytes)
  | date32 (v : Int32) : Payload .date32 (.date32 v) (leBytes 4 v.toUInt32.toNat)
  | naive (unit : TimeUnit) (epoch : Int64) :
    Payload (.timestamp unit none) (.timestamp epoch unit none)
      (timestampUnitTag unit :: 0x00 :: leBytes 8 epoch.toUInt64.toNat)
  | zoned (unit : TimeUnit) (zone : String) (epoch : Int64) :
    Payload (.timestamp unit (some zone)) (.timestamp epoch unit (some zone))
      (timestampUnitTag unit :: 0x01 ::
        (leBytes 4 (utf8Bytes zone).length ++ utf8Bytes zone ++ leBytes 8 epoch.toUInt64.toNat))

/-- The values a component of the declared type can have. -/
def HasType (declared : LogicalType) (value : KeyValue) : Prop :=
  value = .null ∨ ∃ bytes, Payload declared value bytes

/-- The bytes one component appends. -/
inductive Component : LogicalType → KeyValue → List UInt8 → Prop where
  | null (declared : LogicalType) : Component declared .null [0x00]
  | tagged {declared : LogicalType} {value : KeyValue} {bytes : List UInt8}
    (h : Payload declared value bytes) :
    Component declared value (componentTag declared :: bytes)

theorem Payload.ne_null (h : Payload declared v a) : v ≠ .null ∧ componentTag declared ≠ 0x00 := by
  cases h <;> exact ⟨nofun, nofun⟩

theorem push_eq_ok {byte : UInt8} (h : out.push byte = .ok out') :
    out' = out ++ [byte] ∧ out'.length ≤ maxDedupKeyBytes := by
  obtain ⟨_, hlen, h⟩ := of_bind h
  cases h
  rw [require_eq_ok] at hlen
  simpa using hlen

theorem extendFromSlice_eq_ok {slice : List UInt8} (hout : out.length ≤ maxDedupKeyBytes)
    (h : out.extendFromSlice slice = .ok out') :
    out' = out ++ slice ∧ out'.length ≤ maxDedupKeyBytes := by
  obtain ⟨_, hlen, h⟩ := of_bind h
  cases h
  rw [require_eq_ok] at hlen
  refine ⟨rfl, ?_⟩
  rw [length_append]
  omega

/-- The truncated length is the length, because the bytes behind it fit the buffer. -/
theorem extendCounted_eq_ok {bytes : List UInt8} (hout : out.length ≤ maxDedupKeyBytes)
    (h : extendCounted out bytes = .ok out') :
    out' = out ++ (leBytes 4 bytes.length ++ bytes) ∧ out'.length ≤ maxDedupKeyBytes := by
  obtain ⟨mid, hmid, h⟩ := of_bind h
  have hm := extendFromSlice_eq_ok hout hmid
  have ho := extendFromSlice_eq_ok hm.2 h
  have hsmall : bytes.length < 2 ^ 32 := by
    have := ho.2
    rw [ho.1, length_append, maxDedupKeyBytes] at this
    omega
  refine ⟨?_, ho.2⟩
  rw [ho.1, hm.1, Nat.mod_eq_of_lt hsmall, append_assoc]

theorem encodeTimestamp_eq_ok {unit valueUnit : TimeUnit} {timezone valueTimezone : Option String}
    {epoch : Int64} (h : encodeTimestamp unit timezone epoch valueUnit valueTimezone out = .ok out') :
    ∃ bytes, Payload (.timestamp unit timezone) (.timestamp epoch valueUnit valueTimezone) bytes ∧
      out' = out ++ bytes ∧ out'.length ≤ maxDedupKeyBytes := by
  obtain ⟨_, hunit, hbody⟩ := of_bind h
  obtain rfl : unit = valueUnit := require_eq_ok.mp hunit
  obtain ⟨o₁, h₁, h⟩ := of_bind hbody
  have ho₁ := push_eq_ok h₁
  match timezone, valueTimezone, h with
  | none, none, h =>
    obtain ⟨o₂, h₂, h⟩ := of_bind h
    have ho₂ := push_eq_ok h₂
    have ho := extendFromSlice_eq_ok ho₂.2 h
    refine ⟨_, .naive unit epoch, ?_, ho.2⟩
    rw [ho.1, ho₂.1, ho₁.1]
    simp
  | some expected, some actual, h =>
    obtain ⟨_, hzone, hzoned⟩ := of_bind h
    obtain rfl : expected = actual := require_eq_ok.mp hzone
    obtain ⟨o₂, h₂, hafter⟩ := of_bind hzoned
    obtain ⟨o₃, h₃, hepoch⟩ := of_bind hafter
    have ho₂ := push_eq_ok h₂
    have ho₃ := extendCounted_eq_ok ho₂.2 h₃
    have ho := extendFromSlice_eq_ok ho₃.2 hepoch
    refine ⟨_, .zoned unit expected epoch, ?_, ho.2⟩
    rw [ho.1, ho₃.1, ho₂.1, ho₁.1]
    simp
  | none, some actual, h => cases h
  | some expected, none, h => cases h

theorem encodePayload_eq_ok (hout : out.length ≤ maxDedupKeyBytes)
    (h : encodePayload declared value out = .ok out') :
    ∃ bytes, Payload declared value bytes ∧ out' = out ++ bytes ∧
      out'.length ≤ maxDedupKeyBytes := by
  unfold encodePayload at h
  split at h
  · exact ⟨_, .boolean _, push_eq_ok h⟩
  · exact ⟨_, .int8 _, push_eq_ok h⟩
  · exact ⟨_, .int16 _, extendFromSlice_eq_ok hout h⟩
  · exact ⟨_, .int32 _, extendFromSlice_eq_ok hout h⟩
  · exact ⟨_, .int64 _, extendFromSlice_eq_ok hout h⟩
  · exact ⟨_, .uint8 _, push_eq_ok h⟩
  · exact ⟨_, .uint16 _, extendFromSlice_eq_ok hout h⟩
  · exact ⟨_, .uint32 _, extendFromSlice_eq_ok hout h⟩
  · exact ⟨_, .uint64 _, extendFromSlice_eq_ok hout h⟩
  · exact ⟨_, .float32 _, extendFromSlice_eq_ok hout h⟩
  · exact ⟨_, .float64 _, extendFromSlice_eq_ok hout h⟩
  · exact ⟨_, .utf8 _, extendCounted_eq_ok hout h⟩
  · exact ⟨_, .utf8Owned _, extendCounted_eq_ok hout h⟩
  · exact ⟨_, .binary _, extendCounted_eq_ok hout h⟩
  · exact ⟨_, .date32 _, extendFromSlice_eq_ok hout h⟩
  · exact encodeTimestamp_eq_ok h
  · cases h

theorem encodeComponent_eq_ok (htype : HasType declared value)
    (h : encodeComponent declared value out = .ok out') :
    ∃ bytes, Component declared value bytes ∧ out' = out ++ bytes ∧
      out'.length ≤ maxDedupKeyBytes := by
  obtain ⟨_, -, h⟩ := of_bind h
  obtain rfl | ⟨bytes, hpayload⟩ := htype
  · rw [if_pos rfl] at h
    exact ⟨_, .null declared, push_eq_ok h⟩
  · have hdeclared : declared ≠ .null := fun heq => hpayload.ne_null.2 (by rw [heq]; rfl)
    rw [if_neg hpayload.ne_null.1, if_neg hdeclared] at h
    obtain ⟨o₁, h₁, h⟩ := of_bind h
    have ho₁ := push_eq_ok h₁
    obtain ⟨bytes, hbytes, ho, hlen⟩ := encodePayload_eq_ok ho₁.2 h
    refine ⟨_, .tagged hbytes, ?_, hlen⟩
    rw [ho, ho₁.1, append_assoc, singleton_append]

theorem int16_eq {a b : Int16} (h : a.toUInt16 = b.toUInt16) : a = b :=
  Int16.toBitVec_inj.mp (congrArg UInt16.toBitVec h)

theorem int32_eq {a b : Int32} (h : a.toUInt32 = b.toUInt32) : a = b :=
  Int32.toBitVec_inj.mp (congrArg UInt32.toBitVec h)

theorem int64_eq {a b : Int64} (h : a.toUInt64 = b.toUInt64) : a = b :=
  Int64.toBitVec_inj.mp (congrArg UInt64.toBitVec h)

theorem counted_append_inj (ha : a.length ≤ maxDedupKeyBytes) (hb : b.length ≤ maxDedupKeyBytes)
    (h : (leBytes 4 a.length ++ a) ++ x = (leBytes 4 b.length ++ b) ++ y) : a = b ∧ x = y := by
  have hsmall : maxDedupKeyBytes < 256 ^ 4 := by decide
  exact (selfDelimitingOn_leBytes 4).lengthPrefixed Function.injective_id a b x y
    (ha.trans_lt hsmall) (hb.trans_lt hsmall) h

/-- Payloads of one type followed by anything agree only on equal keys, and then so does what
follows. -/
theorem Payload.append_inj (hv : Payload declared v a) (hw : Payload declared w b)
    (ha : a.length ≤ maxDedupKeyBytes) (hb : b.length ≤ maxDedupKeyBytes) (h : a ++ x = b ++ y) :
    v.Same w ∧ x = y := by
  cases hv with
  | boolean p =>
    cases hw with
    | boolean q =>
      obtain ⟨hhead, hrest⟩ := cons.inj h
      refine ⟨?_, hrest⟩
      cases p <;> cases q <;> first | rfl | (exfalso; revert hhead; decide)
  | int8 p =>
    cases hw with
    | int8 q =>
      obtain ⟨hhead, hrest⟩ := cons.inj h
      exact ⟨congrArg KeyValue.int8 (Int8.toBitVec_inj.mp (congrArg UInt8.toBitVec hhead)), hrest⟩
  | int16 p =>
    cases hw with
    | int16 q =>
      have hsplit := Wire.split (a := p.toUInt16) (b := q.toUInt16) h
      exact ⟨congrArg KeyValue.int16 (int16_eq hsplit.1), hsplit.2⟩
  | int32 p =>
    cases hw with
    | int32 q =>
      have hsplit := Wire.split (a := p.toUInt32) (b := q.toUInt32) h
      exact ⟨congrArg KeyValue.int32 (int32_eq hsplit.1), hsplit.2⟩
  | int64 p =>
    cases hw with
    | int64 q =>
      have hsplit := Wire.split (a := p.toUInt64) (b := q.toUInt64) h
      exact ⟨congrArg KeyValue.int64 (int64_eq hsplit.1), hsplit.2⟩
  | uint8 p =>
    cases hw with
    | uint8 q =>
      obtain ⟨hhead, hrest⟩ := cons.inj h
      exact ⟨congrArg KeyValue.uint8 hhead, hrest⟩
  | uint16 p =>
    cases hw with
    | uint16 q => exact (Wire.split (a := p) (b := q) h).imp_left (congrArg KeyValue.uint16)
  | uint32 p =>
    cases hw with
    | uint32 q => exact (Wire.split (a := p) (b := q) h).imp_left (congrArg KeyValue.uint32)
  | uint64 p =>
    cases hw with
    | uint64 q => exact (Wire.split (a := p) (b := q) h).imp_left (congrArg KeyValue.uint64)
  | float32 p =>
    cases hw with
    | float32 q => exact (Wire.split h).imp_left (canonicalFloat32Bits_eq_iff p q).mp
  | float64 p =>
    cases hw with
    | float64 q => exact (Wire.split h).imp_left (canonicalFloat64Bits_eq_iff p q).mp
  | utf8 p | utf8Owned p =>
    rw [length_append] at ha
    cases hw with
    | utf8 q | utf8Owned q =>
      rw [length_append] at hb
      obtain ⟨hbytes, hrest⟩ := counted_append_inj (by omega) (by omega) h
      exact ⟨utf8Bytes_injective hbytes, hrest⟩
  | binary p =>
    rw [length_append] at ha
    cases hw with
    | binary q =>
      rw [length_append] at hb
      obtain ⟨hbytes, hrest⟩ := counted_append_inj (by omega) (by omega) h
      exact ⟨congrArg KeyValue.binary hbytes, hrest⟩
  | date32 p =>
    cases hw with
    | date32 q =>
      have hsplit := Wire.split (a := p.toUInt32) (b := q.toUInt32) h
      exact ⟨congrArg KeyValue.date32 (int32_eq hsplit.1), hsplit.2⟩
  | naive unit p =>
    cases hw with
    | naive _ q =>
      have hrest := (cons.inj (cons.inj h).2).2
      have hsplit := Wire.split (a := p.toUInt64) (b := q.toUInt64) hrest
      exact ⟨congrArg (KeyValue.timestamp · unit none) (int64_eq hsplit.1), hsplit.2⟩
  | zoned unit zone p =>
    cases hw with
    | zoned _ _ q =>
      have hrest := (cons.inj (cons.inj h).2).2
      simp only [append_eq, append_assoc, append_cancel_left_eq] at hrest
      have hsplit := Wire.split (a := p.toUInt64) (b := q.toUInt64) hrest
      exact ⟨congrArg (KeyValue.timestamp · unit (some zone)) (int64_eq hsplit.1), hsplit.2⟩

theorem Payload.eq_of_same (hv : Payload declared v a) (hw : Payload declared w b) (h : v.Same w) :
    a = b := by
  cases hv with
  | float32 p =>
    cases hw with
    | float32 q => rw [(canonicalFloat32Bits_eq_iff p q).mpr h]
  | float64 p =>
    cases hw with
    | float64 q => rw [(canonicalFloat64Bits_eq_iff p q).mpr h]
  | utf8 p | utf8Owned p =>
    cases hw with
    | utf8 q | utf8Owned q => rw [show p = q from h]
  | _ =>
    cases hw
    cases h
    rfl

theorem KeyValue.Same.eq_null (h : v.Same .null) : v = .null := by
  cases v <;> exact h

theorem Component.append_inj (hv : Component declared v a) (hw : Component declared w b)
    (ha : a.length ≤ maxDedupKeyBytes) (hb : b.length ≤ maxDedupKeyBytes) (h : a ++ x = b ++ y) :
    v.Same w ∧ x = y := by
  cases hv with
  | null =>
    cases hw with
    | null => exact ⟨rfl, (cons.inj h).2⟩
    | tagged hq => exact absurd (cons.inj h).1.symm hq.ne_null.2
  | tagged hp =>
    cases hw with
    | null => exact absurd (cons.inj h).1 hp.ne_null.2
    | tagged hq =>
      rw [length_cons] at ha hb
      exact hp.append_inj hq (by omega) (by omega) (cons.inj h).2

theorem Component.eq_of_same (hv : Component declared v a) (hw : Component declared w b)
    (h : v.Same w) : a = b := by
  cases hv with
  | null =>
    cases hw with
    | null => rfl
    | tagged hq => exact absurd h.symm hq.ne_null.1
  | tagged hp =>
    cases hw with
    | null => exact absurd h.eq_null hp.ne_null.1
    | tagged hq => rw [hp.eq_of_same hq h]

theorem keyComponent_hasType {cell : AnyValue} (h : keyComponent declared cell = .ok value) :
    HasType declared value := by
  unfold keyComponent at h
  split at h
  case h_17 unit timezone epoch valueUnit valueTimezone =>
    split_ifs at h
    cases h
    cases timezone with
    | none => exact .inr ⟨_, .naive unit epoch⟩
    | some zone => exact .inr ⟨_, .zoned unit zone epoch⟩
  all_goals cases h
  all_goals first
    | exact .inl rfl
    | exact .inr ⟨_, by constructor⟩

/-- The bytes of a key tuple: its components' bytes, one after the other. -/
inductive KeyCode : List LogicalType → List KeyValue → List UInt8 → Prop where
  | nil : KeyCode [] [] []
  | cons {declared : LogicalType} {types : List LogicalType} {value : KeyValue}
    {values : List KeyValue} {head bytes : List UInt8} (hhead : Component declared value head)
    (hrest : KeyCode types values bytes) :
    KeyCode (declared :: types) (value :: values) (head ++ bytes)

theorem encodeKey_eq_ok {cells : List (LogicalType × AnyValue)}
    (hout : out.length ≤ maxDedupKeyBytes) (h : encodeKey cells out = .ok out') :
    ∃ values bytes, keyTuple cells = .ok values ∧ KeyCode (cells.map (·.1)) values bytes ∧
      out' = out ++ bytes ∧ out'.length ≤ maxDedupKeyBytes := by
  induction cells generalizing out with
  | nil =>
    cases h
    exact ⟨[], [], rfl, .nil, by simp, hout⟩
  | cons cell cells ih =>
    obtain ⟨value, hvalue, h⟩ := of_bind h
    obtain ⟨mid, hmid, h⟩ := of_bind h
    obtain ⟨head, hhead, hm, hlen⟩ := encodeComponent_eq_ok (keyComponent_hasType hvalue) hmid
    obtain ⟨values, bytes, htuple, hcode, ho, hfinal⟩ := ih hlen h
    refine ⟨value :: values, head ++ bytes, ?_, .cons hhead hcode, ?_, hfinal⟩
    · rw [keyTuple] at htuple ⊢
      rw [mapM_cons, hvalue, ok_bind, htuple, ok_bind, pure_eq_ok]
    · rw [ho, hm, append_assoc]

theorem KeyCode.same_of_eq {types : List LogicalType} {vs ws : List KeyValue}
    (hv : KeyCode types vs a) (hw : KeyCode types ws b) (ha : a.length ≤ maxDedupKeyBytes)
    (hb : b.length ≤ maxDedupKeyBytes) (h : a = b) : Forall₂ KeyValue.Same vs ws := by
  induction hv generalizing ws b with
  | nil =>
    cases hw
    exact .nil
  | cons hhead hrest ih =>
    cases hw with
    | cons hhead' hrest' =>
      rw [length_append] at ha hb
      obtain ⟨hsame, htail⟩ := hhead.append_inj hhead' (by omega) (by omega) h
      exact .cons hsame (ih hrest' (by omega) (by omega) htail)

theorem KeyCode.eq_of_same {types : List LogicalType} {vs ws : List KeyValue}
    (hv : KeyCode types vs a) (hw : KeyCode types ws b) (h : Forall₂ KeyValue.Same vs ws) :
    a = b := by
  induction hv generalizing ws b with
  | nil =>
    cases hw
    rfl
  | cons hhead hrest ih =>
    cases hw with
    | cons hhead' hrest' =>
      cases h with
      | cons hsame htail => rw [hhead.eq_of_same hhead' hsame, ih hrest' htail]

/-- Two rows of the same key columns have the same key bytes exactly when their key tuples are
equal component by component. -/
theorem encodeKey_eq_iff {cells cells' : List (LogicalType × AnyValue)}
    (htypes : cells.map (·.1) = cells'.map (·.1)) {a b : KeyBytes}
    (ha : encodeKey cells [] = .ok a) (hb : encodeKey cells' [] = .ok b) :
    ∃ values values', keyTuple cells = .ok values ∧ keyTuple cells' = .ok values' ∧
      (a = b ↔ Forall₂ KeyValue.Same values values') := by
  obtain ⟨values, bytes, htuple, hcode, rfl, hlen⟩ := encodeKey_eq_ok (Nat.zero_le _) ha
  obtain ⟨values', bytes', htuple', hcode', rfl, hlen'⟩ := encodeKey_eq_ok (Nat.zero_le _) hb
  rw [htypes] at hcode
  exact ⟨values, values', htuple, htuple', hcode.same_of_eq hcode' hlen hlen',
    hcode.eq_of_same hcode'⟩

end Stillflow.Engine
