import Stillflow.Core.Join

/-!
The least upper bound is a partial semilattice: scalars join in a finite table, timestamps by unit,
lists and structs by their parts, and types of different shapes have no bound. `Null` is below
everything.
-/

namespace Stillflow.Core

/-- The least upper bound, where it is defined. -/
def LogicalType.join (a b : LogicalType) : Option LogicalType := (a.leastUpperBound b).toOption

open LogicalType (join)

variable {a b c : LogicalType} {f g : LogicalField} {l r : List LogicalField}

inductive Numeric where
  | signed (rank : Fin 4)
  | unsigned (rank : Fin 4)
  | float (rank : Fin 2)
  deriving DecidableEq, Fintype

inductive Rigid where
  | boolean
  | utf8
  | binary
  | date32
  deriving DecidableEq

instance : Fintype Rigid := ⟨{.boolean, .utf8, .binary, .date32}, fun r => by cases r <;> decide⟩

inductive Scalar where
  | numeric (m : Numeric)
  | rigid (r : Rigid)
  deriving DecidableEq, Fintype

def Scalar.dataType : Scalar → LogicalType
  | .numeric (.signed 0) => .int8
  | .numeric (.signed 1) => .int16
  | .numeric (.signed 2) => .int32
  | .numeric (.signed _) => .int64
  | .numeric (.unsigned 0) => .uint8
  | .numeric (.unsigned 1) => .uint16
  | .numeric (.unsigned 2) => .uint32
  | .numeric (.unsigned _) => .uint64
  | .numeric (.float 0) => .float32
  | .numeric (.float _) => .float64
  | .rigid .boolean => .boolean
  | .rigid .utf8 => .utf8
  | .rigid .binary => .binary
  | .rigid .date32 => .date32

/-- Within a family the wider type; across families the widest float. -/
def Numeric.join : Numeric → Numeric → Numeric
  | .signed i, .signed j => .signed (max i j)
  | .unsigned i, .unsigned j => .unsigned (max i j)
  | .float i, .float j => .float (max i j)
  | _, _ => .float 1

def Scalar.join : Scalar → Scalar → Option Scalar
  | .numeric m, .numeric n => some (.numeric (m.join n))
  | .rigid r, .rigid s => if r = s then some (.rigid r) else none
  | _, _ => none

theorem Numeric.join_comm (m n : Numeric) : m.join n = n.join m := by
  cases m <;> cases n <;> simp [Numeric.join, max_comm]

theorem Numeric.join_assoc (m n p : Numeric) : (m.join n).join p = m.join (n.join p) := by
  have hleft : ∀ i : Fin 2, max i 1 = 1 := by decide
  have hright : ∀ i : Fin 2, max 1 i = 1 := by decide
  cases m <;> cases n <;> cases p <;> simp [Numeric.join, max_assoc, hleft, hright]

theorem Scalar.join_comm (x y : Scalar) : x.join y = y.join x := by
  cases x with
  | numeric m =>
    cases y with
    | numeric n => simp [Scalar.join, Numeric.join_comm]
    | rigid s => rfl
  | rigid r =>
    cases y with
    | numeric n => rfl
    | rigid s =>
      by_cases h : r = s
      · simp [Scalar.join, h]
      · simp [Scalar.join, h, Ne.symm h]

theorem Scalar.join_assoc (x y z : Scalar) :
    ((x.join y).bind fun w => w.join z) = (y.join z).bind fun w => x.join w := by
  cases x <;> cases y <;> cases z
  case numeric.numeric.numeric => simp [Scalar.join, Numeric.join_assoc]
  case rigid.rigid.rigid r s t =>
    by_cases hrs : r = s
    · by_cases hst : s = t <;> simp [Scalar.join, hrs, hst]
    · by_cases hst : s = t <;> simp [Scalar.join, hrs, hst]
      simp [← hst, hrs]
  case rigid.rigid.numeric r s m => by_cases hrs : r = s <;> simp [Scalar.join, hrs]
  case numeric.rigid.rigid m r s => by_cases hrs : r = s <;> simp [Scalar.join, hrs]
  all_goals rfl

theorem join_scalar (x y : Scalar) :
    join x.dataType y.dataType = (x.join y).map Scalar.dataType := by
  revert x y
  decide

inductive Shape where
  | null
  | scalar
  | timestamp
  | list
  | struct
  deriving DecidableEq

def shape : LogicalType → Shape
  | .null => .null
  | .timestamp _ _ => .timestamp
  | .list _ => .list
  | .struct _ => .struct
  | _ => .scalar

/-- A type by its shape. -/
inductive View : LogicalType → Prop
  | null : View .null
  | scalar (x : Scalar) : View x.dataType
  | timestamp (u : TimeUnit) (z : Option String) : View (.timestamp u z)
  | list (a : LogicalType) : View (.list a)
  | struct (l : List LogicalField) : View (.struct l)

theorem view (a : LogicalType) : View a := by
  cases a with
  | null => exact .null
  | int8 => exact .scalar (.numeric (.signed 0))
  | int16 => exact .scalar (.numeric (.signed 1))
  | int32 => exact .scalar (.numeric (.signed 2))
  | int64 => exact .scalar (.numeric (.signed 3))
  | uint8 => exact .scalar (.numeric (.unsigned 0))
  | uint16 => exact .scalar (.numeric (.unsigned 1))
  | uint32 => exact .scalar (.numeric (.unsigned 2))
  | uint64 => exact .scalar (.numeric (.unsigned 3))
  | float32 => exact .scalar (.numeric (.float 0))
  | float64 => exact .scalar (.numeric (.float 1))
  | boolean => exact .scalar (.rigid .boolean)
  | utf8 => exact .scalar (.rigid .utf8)
  | binary => exact .scalar (.rigid .binary)
  | date32 => exact .scalar (.rigid .date32)
  | timestamp u z => exact .timestamp u z
  | list a => exact .list a
  | struct l => exact .struct l

@[simp] theorem shape_dataType (x : Scalar) : shape x.dataType = .scalar := by
  revert x
  decide

@[simp] theorem shape_null : shape .null = .null := rfl

@[simp] theorem shape_timestamp (u : TimeUnit) (z : Option String) :
    shape (.timestamp u z) = .timestamp := rfl

@[simp] theorem shape_list (a : LogicalType) : shape (.list a) = .list := rfl

@[simp] theorem shape_struct (l : List LogicalField) : shape (.struct l) = .struct := rfl

theorem eq_null (h : shape a = .null) : a = .null := by
  cases view a with
  | null => rfl
  | _ => simp at h

theorem exists_scalar (h : shape a = .scalar) : ∃ x : Scalar, a = x.dataType := by
  cases view a with
  | scalar x => exact ⟨x, rfl⟩
  | _ => simp at h

theorem exists_timestamp (h : shape a = .timestamp) : ∃ u z, a = .timestamp u z := by
  cases view a with
  | timestamp u z => exact ⟨u, z, rfl⟩
  | _ => simp at h

theorem exists_list (h : shape a = .list) : ∃ x, a = .list x := by
  cases view a with
  | list x => exact ⟨x, rfl⟩
  | _ => simp at h

theorem exists_struct (h : shape a = .struct) : ∃ l, a = .struct l := by
  cases view a with
  | struct l => exact ⟨l, rfl⟩
  | _ => simp at h

theorem leastUpperBound_of_flatJoin (h : flatJoin a b = some c) : a.leastUpperBound b = .ok c := by
  unfold LogicalType.leastUpperBound
  rw [h]

@[simp] theorem leastUpperBound_self (a : LogicalType) : a.leastUpperBound a = .ok a :=
  leastUpperBound_of_flatJoin (if_pos rfl)

@[simp] theorem null_leastUpperBound (a : LogicalType) :
    LogicalType.leastUpperBound .null a = .ok a := by
  apply leastUpperBound_of_flatJoin
  unfold flatJoin
  by_cases h : .null = a
  · rw [if_pos h, h]
  · rw [if_neg h, if_pos rfl]

@[simp] theorem leastUpperBound_null (a : LogicalType) :
    LogicalType.leastUpperBound a .null = .ok a := by
  apply leastUpperBound_of_flatJoin
  unfold flatJoin
  by_cases h : a = .null
  · rw [if_pos h]
  · rw [if_neg h, if_neg h, if_pos rfl]

@[simp] theorem join_self (a : LogicalType) : join a a = some a := by
  rw [join, leastUpperBound_self]
  rfl

@[simp] theorem null_join (a : LogicalType) : join .null a = some a := by
  rw [join, null_leastUpperBound]
  rfl

@[simp] theorem join_null (a : LogicalType) : join a .null = some a := by
  rw [join, leastUpperBound_null]
  rfl

theorem join_of_shape_ne (ha : shape a ≠ .null) (hb : shape b ≠ .null) (h : shape a ≠ shape b) :
    join a b = none := by
  cases a <;> cases b <;>
    first | exact absurd rfl h | exact absurd rfl ha | exact absurd rfl hb | rfl

theorem join_timestamp (u u' : TimeUnit) (z z' : Option String) :
    join (.timestamp u z) (.timestamp u' z') =
      if z = z' then some (.timestamp (u.max u') z) else none := by
  have hself : ∀ u : TimeUnit, u.max u = u := by
    intro u
    cases u <;> rfl
  rw [join, LogicalType.leastUpperBound, flatJoin]
  by_cases hz : z = z'
  · subst hz
    by_cases hu : u = u'
    · subst hu
      simp [hself]
      rfl
    · simp [hu, signedRank, unsignedRank, floatRank, isNumeric]
      rfl
  · simp [hz, signedRank, unsignedRank, floatRank, isNumeric]
    rfl

theorem join_list (a b : LogicalType) : join (.list a) (.list b) = (join a b).map .list := by
  by_cases h : a = b
  · subst h
    simp
  · rw [join, LogicalType.leastUpperBound, flatJoin]
    simp only [LogicalType.list.injEq, h, signedRank, unsignedRank, floatRank, isNumeric]
    rw [join]
    cases a.leastUpperBound b <;> rfl

/-- Struct fields join one by one; key, name and metadata must agree. -/
def fieldsJoin : List LogicalField → List LogicalField → Option (List LogicalField)
  | [], [] => some []
  | f :: l, g :: r =>
    if f.id ≠ g.id ∨ f.name ≠ g.name ∨ f.metadata ≠ g.metadata then none
    else (join f.dataType g.dataType).bind fun joined => (fieldsJoin l r).map fun rest =>
      ⟨f.id, f.name, joined, f.nullable || g.nullable, f.metadata⟩ :: rest
  | _, _ => none

theorem fieldsJoin_self (l : List LogicalField) : fieldsJoin l l = some l := by
  induction l with
  | nil => rfl
  | cons f l ih =>
    obtain ⟨id, name, dataType, nullable, metadata⟩ := f
    simp [fieldsJoin, ih]

theorem fieldsJoin_of_length_ne (h : l.length ≠ r.length) : fieldsJoin l r = none := by
  induction l generalizing r with
  | nil =>
    cases r with
    | nil => exact absurd rfl h
    | cons g r => rfl
  | cons f l ih =>
    cases r with
    | nil => rfl
    | cons g r =>
      have hrest := @ih r (by simpa using h)
      rw [fieldsJoin, hrest]
      split_ifs
      · rfl
      · cases join f.dataType g.dataType <;> rfl

theorem joinStructFields_toOption (mismatch : LogicalError) (h : l.length = r.length) :
    (joinStructFields mismatch l r).toOption = fieldsJoin l r := by
  induction l generalizing r with
  | nil =>
    cases r with
    | nil => rfl
    | cons g r => cases h
  | cons f l ih =>
    cases r with
    | nil => cases h
    | cons g r =>
      have hrest := @ih r (by simpa using h)
      obtain ⟨id, name, dataType, nullable, metadata⟩ := f
      rw [joinStructFields, fieldsJoin, ← hrest, join]
      split_ifs
      · rfl
      · cases dataType.leastUpperBound g.dataType with
        | error e => rfl
        | ok joined =>
          cases joinStructFields mismatch l r <;> rfl

theorem join_struct (l r : List LogicalField) :
    join (.struct l) (.struct r) = (fieldsJoin l r).map .struct := by
  by_cases h : l = r
  · subst h
    simp [fieldsJoin_self]
  · rw [join, LogicalType.leastUpperBound, flatJoin]
    simp only [LogicalType.struct.injEq, h, signedRank, unsignedRank, floatRank, isNumeric]
    by_cases hlength : l.length = r.length
    · rw [← joinStructFields_toOption (.incompatibleTypes (.struct l) (.struct r)) hlength]
      simp [hlength]
      cases joinStructFields (.incompatibleTypes (.struct l) (.struct r)) l r <;> rfl
    · rw [fieldsJoin_of_length_ne hlength]
      simp [hlength]
      rfl

theorem TimeUnit.max_comm (u v : TimeUnit) : u.max v = v.max u := by
  cases u <;> cases v <;> rfl

theorem TimeUnit.max_assoc (u v w : TimeUnit) : (u.max v).max w = u.max (v.max w) := by
  cases u <;> cases v <;> cases w <;> rfl

theorem join_comm_of_parts (hlist : ∀ x y, a = .list x → join x y = join y x)
    (hstruct : ∀ l r, a = .struct l → fieldsJoin l r = fieldsJoin r l) : join a b = join b a := by
  by_cases ha : shape a = .null
  · simp [eq_null ha]
  by_cases hb : shape b = .null
  · simp [eq_null hb]
  by_cases h : shape a = shape b
  · cases view a with
    | null => exact absurd rfl ha
    | scalar x =>
      obtain ⟨y, rfl⟩ := exists_scalar (h.symm.trans (shape_dataType x))
      rw [join_scalar, join_scalar, Scalar.join_comm]
    | timestamp u z =>
      obtain ⟨u', z', rfl⟩ := exists_timestamp h.symm
      rw [join_timestamp, join_timestamp]
      by_cases hz : z = z'
      · simp [hz, TimeUnit.max_comm]
      · simp [hz, Ne.symm hz]
    | list x =>
      obtain ⟨y, rfl⟩ := exists_list h.symm
      rw [join_list, join_list, hlist x y rfl]
    | struct l =>
      obtain ⟨r, rfl⟩ := exists_struct h.symm
      rw [join_struct, join_struct, hstruct l r rfl]
  · rw [join_of_shape_ne ha hb h, join_of_shape_ne hb ha (Ne.symm h)]

mutual

theorem join_comm (a b : LogicalType) : join a b = join b a := by
  match a with
  | .list x =>
    exact join_comm_of_parts (fun _ y hx => by cases hx; exact join_comm x y)
      (fun _ _ h => by cases h)
  | .struct l =>
    exact join_comm_of_parts (fun _ _ h => by cases h)
      (fun _ r hl => by cases hl; exact fieldsJoin_comm l r)
  | .null | .boolean | .int8 | .int16 | .int32 | .int64 | .uint8 | .uint16 | .uint32 | .uint64
  | .float32 | .float64 | .utf8 | .binary | .date32 | .timestamp _ _ =>
    exact join_comm_of_parts (fun _ _ h => by cases h) (fun _ _ h => by cases h)

theorem fieldsJoin_comm (l r : List LogicalField) : fieldsJoin l r = fieldsJoin r l := by
  match l, r with
  | [], [] => rfl
  | [], _ :: _ => rfl
  | _ :: _, [] => rfl
  | ⟨id, name, dataType, nullable, metadata⟩ :: l, g :: r =>
    rw [fieldsJoin, fieldsJoin, join_comm dataType g.dataType, fieldsJoin_comm l r]
    by_cases hkey : id = g.id ∧ name = g.name ∧ metadata = g.metadata
    · obtain ⟨rfl, rfl, rfl⟩ := hkey
      simp [Bool.or_comm]
    · have hne : id ≠ g.id ∨ name ≠ g.name ∨ metadata ≠ g.metadata := by tauto
      have hne' : g.id ≠ id ∨ g.name ≠ name ∨ g.metadata ≠ metadata := by
        simpa only [ne_comm] using hne
      rw [if_pos hne, if_pos hne']

end

theorem shape_join (h : join a b = some c) (ha : shape a ≠ .null) (hb : shape b ≠ .null) :
    shape a = shape b ∧ shape c = shape a := by
  by_cases hab : shape a = shape b
  · refine ⟨hab, ?_⟩
    cases view a with
    | null => exact absurd rfl ha
    | scalar x =>
      obtain ⟨y, rfl⟩ := exists_scalar (hab.symm.trans (shape_dataType x))
      rw [join_scalar] at h
      obtain ⟨z, -, rfl⟩ := Option.map_eq_some_iff.mp h
      rw [shape_dataType, shape_dataType]
    | timestamp u z =>
      obtain ⟨u', z', rfl⟩ := exists_timestamp hab.symm
      rw [join_timestamp] at h
      split_ifs at h
      cases h
      rfl
    | list x =>
      obtain ⟨y, rfl⟩ := exists_list hab.symm
      rw [join_list] at h
      obtain ⟨z, -, rfl⟩ := Option.map_eq_some_iff.mp h
      rfl
    | struct l =>
      obtain ⟨r, rfl⟩ := exists_struct hab.symm
      rw [join_struct] at h
      obtain ⟨z, -, rfl⟩ := Option.map_eq_some_iff.mp h
      rfl
  · rw [join_of_shape_ne ha hb hab] at h
    cases h

theorem join_assoc_of_shape_ne (ha : shape a ≠ .null) (hb : shape b ≠ .null) (hc : shape c ≠ .null)
    (h : ¬(shape a = shape b ∧ shape b = shape c)) :
    ((join a b).bind fun d => join d c) = none ∧ ((join b c).bind fun d => join a d) = none := by
  constructor
  · cases hab : join a b with
    | none => rfl
    | some d =>
      obtain ⟨hshape, hd⟩ := shape_join hab ha hb
      refine join_of_shape_ne (by rwa [hd]) hc fun heq => h ⟨hshape, ?_⟩
      rw [← hshape, ← hd, heq]
  · cases hbc : join b c with
    | none => rfl
    | some d =>
      obtain ⟨hshape, hd⟩ := shape_join hbc hb hc
      refine join_of_shape_ne ha (by rwa [hd]) fun heq => h ⟨?_, hshape⟩
      rw [heq, hd]

theorem join_assoc_of_parts
    (hlist : ∀ x y z, a = .list x →
      ((join x y).bind fun w => join w z) = (join y z).bind fun w => join x w)
    (hstruct : ∀ l m r, a = .struct l →
      ((fieldsJoin l m).bind fun w => fieldsJoin w r) =
        (fieldsJoin m r).bind fun w => fieldsJoin l w) :
    ((join a b).bind fun d => join d c) = (join b c).bind fun d => join a d := by
  by_cases ha : shape a = .null
  · simp [eq_null ha]
  by_cases hb : shape b = .null
  · simp [eq_null hb]
  by_cases hc : shape c = .null
  · simp [eq_null hc]
  by_cases h : shape a = shape b ∧ shape b = shape c
  · obtain ⟨hab, hbc⟩ := h
    cases view a with
    | null => exact absurd rfl ha
    | scalar x =>
      obtain ⟨y, rfl⟩ := exists_scalar (hab.symm.trans (shape_dataType x))
      obtain ⟨z, rfl⟩ := exists_scalar (hbc.symm.trans (shape_dataType y))
      have hassoc := congrArg (Option.map Scalar.dataType) (Scalar.join_assoc x y z)
      rw [Option.map_bind, Option.map_bind] at hassoc
      simp only [join_scalar, Option.bind_map]
      simpa only [Function.comp_def, join_scalar] using hassoc
    | timestamp u z =>
      obtain ⟨u', z', rfl⟩ := exists_timestamp hab.symm
      obtain ⟨u'', z'', rfl⟩ := exists_timestamp hbc.symm
      rw [join_timestamp, join_timestamp]
      by_cases hz : z = z'
      · subst hz
        by_cases hz' : z = z''
        · simp [hz', join_timestamp, TimeUnit.max_assoc]
        · simp [hz', join_timestamp]
      · by_cases hz' : z' = z''
        · simp [hz, hz', join_timestamp]
          simp [← hz', hz]
        · simp [hz, hz']
    | list x =>
      obtain ⟨y, rfl⟩ := exists_list hab.symm
      obtain ⟨z, rfl⟩ := exists_list hbc.symm
      have hassoc := congrArg (Option.map LogicalType.list) (hlist x y z rfl)
      rw [Option.map_bind, Option.map_bind] at hassoc
      simp only [join_list, Option.bind_map]
      simpa only [Function.comp_def, join_list] using hassoc
    | struct l =>
      obtain ⟨m, rfl⟩ := exists_struct hab.symm
      obtain ⟨r, rfl⟩ := exists_struct hbc.symm
      have hassoc := congrArg (Option.map LogicalType.struct) (hstruct l m r rfl)
      rw [Option.map_bind, Option.map_bind] at hassoc
      simp only [join_struct, Option.bind_map]
      simpa only [Function.comp_def, join_struct] using hassoc
  · obtain ⟨hleft, hright⟩ := join_assoc_of_shape_ne ha hb hc h
    rw [hleft, hright]

/-- Two fields that may be joined. -/
def SameKey (f g : LogicalField) : Prop := f.id = g.id ∧ f.name = g.name ∧ f.metadata = g.metadata

theorem fieldsJoin_cons_of_sameKey (h : SameKey f g) (l r : List LogicalField) :
    fieldsJoin (f :: l) (g :: r) = (join f.dataType g.dataType).bind fun joined =>
      (fieldsJoin l r).map fun rest =>
        ⟨f.id, f.name, joined, f.nullable || g.nullable, f.metadata⟩ :: rest := by
  rw [fieldsJoin, if_neg]
  unfold SameKey at h
  tauto

theorem fieldsJoin_cons_of_not_sameKey (h : ¬SameKey f g) (l r : List LogicalField) :
    fieldsJoin (f :: l) (g :: r) = none := by
  rw [fieldsJoin, if_pos]
  unfold SameKey at h
  tauto

theorem bind_eq_none_of_forall {α β : Type} {o : Option α} {f : α → Option β}
    (h : ∀ a, o = some a → f a = none) : o.bind f = none := by
  cases o with
  | none => rfl
  | some a => exact h a rfl

theorem fieldsJoin_cons_eq_some {l r w : List LogicalField}
    (h : fieldsJoin (f :: l) (g :: r) = some w) :
    SameKey f g ∧ ∃ e rest, w = e :: rest ∧ SameKey f e := by
  by_cases hkey : SameKey f g
  · rw [fieldsJoin_cons_of_sameKey hkey] at h
    obtain ⟨joined, -, h⟩ := Option.bind_eq_some_iff.mp h
    obtain ⟨rest, -, rfl⟩ := Option.map_eq_some_iff.mp h
    exact ⟨hkey, _, rest, rfl, rfl, rfl, rfl⟩
  · rw [fieldsJoin_cons_of_not_sameKey hkey] at h
    cases h

theorem SameKey.symm (h : SameKey f g) : SameKey g f :=
  ⟨h.1.symm, h.2.1.symm, h.2.2.symm⟩

theorem SameKey.trans {f g e : LogicalField} (h : SameKey f g) (h' : SameKey g e) : SameKey f e :=
  ⟨h.1.trans h'.1, h.2.1.trans h'.2.1, h.2.2.trans h'.2.2⟩

theorem fieldsJoin_assoc_cons {f g e : LogicalField} {l m r : List LogicalField}
    (htype : ((join f.dataType g.dataType).bind fun d => join d e.dataType) =
      (join g.dataType e.dataType).bind fun d => join f.dataType d)
    (hrest : ((fieldsJoin l m).bind fun w => fieldsJoin w r) =
      (fieldsJoin m r).bind fun w => fieldsJoin l w) :
    ((fieldsJoin (f :: l) (g :: m)).bind fun w => fieldsJoin w (e :: r)) =
      (fieldsJoin (g :: m) (e :: r)).bind fun w => fieldsJoin (f :: l) w := by
  by_cases hkeys : SameKey f g ∧ SameKey g e
  · obtain ⟨hfg, hge⟩ := hkeys
    have hleft : ((fieldsJoin (f :: l) (g :: m)).bind fun w => fieldsJoin w (e :: r)) =
        ((join f.dataType g.dataType).bind fun d => join d e.dataType).bind fun joined =>
          ((fieldsJoin l m).bind fun w => fieldsJoin w r).map fun rest =>
            ⟨f.id, f.name, joined, f.nullable || g.nullable || e.nullable, f.metadata⟩ :: rest := by
      have hkey : ∀ joined, SameKey
          ⟨f.id, f.name, joined, f.nullable || g.nullable, f.metadata⟩ e := fun _ => hfg.trans hge
      rw [fieldsJoin_cons_of_sameKey hfg]
      cases join f.dataType g.dataType with
      | none => rfl
      | some d =>
        cases fieldsJoin l m with
        | none => cases h : join d e.dataType <;> simp [h]
        | some w => simp [fieldsJoin_cons_of_sameKey (hkey d)]
    have hright : ((fieldsJoin (g :: m) (e :: r)).bind fun w => fieldsJoin (f :: l) w) =
        ((join g.dataType e.dataType).bind fun d => join f.dataType d).bind fun joined =>
          ((fieldsJoin m r).bind fun w => fieldsJoin l w).map fun rest =>
            ⟨f.id, f.name, joined, f.nullable || g.nullable || e.nullable, f.metadata⟩ :: rest := by
      have hkey : ∀ joined, SameKey f
          ⟨g.id, g.name, joined, g.nullable || e.nullable, g.metadata⟩ := fun _ => hfg
      rw [fieldsJoin_cons_of_sameKey hge]
      cases join g.dataType e.dataType with
      | none => rfl
      | some d =>
        cases fieldsJoin m r with
        | none => cases h : join f.dataType d <;> simp [h]
        | some w => simp [fieldsJoin_cons_of_sameKey (hkey d), Bool.or_assoc]
    rw [hleft, hright, htype, hrest]
  · have hleft : ((fieldsJoin (f :: l) (g :: m)).bind fun w => fieldsJoin w (e :: r)) = none := by
      refine bind_eq_none_of_forall fun w hw => ?_
      obtain ⟨hfg, first, rest, rfl, hfirst⟩ := fieldsJoin_cons_eq_some hw
      refine fieldsJoin_cons_of_not_sameKey (fun hkey => hkeys ⟨hfg, ?_⟩) rest r
      exact hfg.symm.trans (hfirst.trans hkey)
    have hright : ((fieldsJoin (g :: m) (e :: r)).bind fun w => fieldsJoin (f :: l) w) = none := by
      refine bind_eq_none_of_forall fun w hw => ?_
      obtain ⟨hge, first, rest, rfl, hfirst⟩ := fieldsJoin_cons_eq_some hw
      refine fieldsJoin_cons_of_not_sameKey (fun hkey => hkeys ⟨?_, hge⟩) l rest
      exact hkey.trans hfirst.symm
    rw [hleft, hright]

mutual

theorem join_assoc (a b c : LogicalType) :
    ((join a b).bind fun d => join d c) = (join b c).bind fun d => join a d := by
  match a with
  | .list x =>
    exact join_assoc_of_parts (fun _ y z hx => by cases hx; exact join_assoc x y z)
      (fun _ _ _ h => by cases h)
  | .struct l =>
    exact join_assoc_of_parts (fun _ _ _ h => by cases h)
      (fun _ m r hl => by cases hl; exact fieldsJoin_assoc l m r)
  | .null | .boolean | .int8 | .int16 | .int32 | .int64 | .uint8 | .uint16 | .uint32 | .uint64
  | .float32 | .float64 | .utf8 | .binary | .date32 | .timestamp _ _ =>
    exact join_assoc_of_parts (fun _ _ _ h => by cases h) (fun _ _ _ h => by cases h)

theorem fieldsJoin_assoc (l m r : List LogicalField) :
    ((fieldsJoin l m).bind fun w => fieldsJoin w r) =
      (fieldsJoin m r).bind fun w => fieldsJoin l w := by
  match l, m, r with
  | ⟨id, name, dataType, nullable, metadata⟩ :: l, g :: m, e :: r =>
    exact fieldsJoin_assoc_cons (join_assoc dataType g.dataType e.dataType)
      (fieldsJoin_assoc l m r)
  | [], [], [] => rfl
  | [], [], _ :: _ => rfl
  | [], g :: m, [] => rfl
  | [], g :: m, e :: r =>
    symm
    refine bind_eq_none_of_forall fun w hw => ?_
    obtain ⟨-, _, _, rfl, -⟩ := fieldsJoin_cons_eq_some hw
    rfl
  | f :: l, [], [] => rfl
  | f :: l, [], _ :: _ => rfl
  | f :: l, g :: m, [] =>
    refine bind_eq_none_of_forall fun w hw => ?_
    obtain ⟨-, _, _, rfl, -⟩ := fieldsJoin_cons_eq_some hw
    rfl

end

/-- The least upper bound is idempotent, commutative and associative with `Null` as neutral element;
a compound bound is defined in one order exactly when it is in the other. -/
theorem leastUpperBound_semilattice (a b c : LogicalType) :
    a.leastUpperBound a = .ok a ∧
      (a.leastUpperBound b).toOption = (b.leastUpperBound a).toOption ∧
      ((a.leastUpperBound b).toOption.bind fun d => (d.leastUpperBound c).toOption) =
        ((b.leastUpperBound c).toOption.bind fun d => (a.leastUpperBound d).toOption) ∧
      LogicalType.leastUpperBound .null a = .ok a ∧ a.leastUpperBound .null = .ok a :=
  ⟨leastUpperBound_self a, join_comm a b, join_assoc a b c, null_leastUpperBound a,
    leastUpperBound_null a⟩

end Stillflow.Core
