import Mathlib.Data.List.Sort
import Stillflow.Lib.Fallible

/-!
Keyset paging: pages of rows ordered by a key, each continued past the last key of the one before.
-/

namespace Lib.Paging

open Lib.Fallible List

variable {α β κ C E S : Type} [LinearOrder κ] (key : α → κ) {later : List α}

/-- `ORDER BY key ASC`. -/
def ordered (rows : List α) : List α := rows.insertionSort fun a b => key a ≤ key b

/-- `WHERE key > after ORDER BY key ASC LIMIT count`. -/
def select (rows : List α) (after : κ) (count : Nat) : List α :=
  ((ordered key rows).filter fun a => decide (after < key a)).take count

/-- The decoded rows without the extra one, and the cursor of the last of them. -/
def page (decode : α → Except E β) (cursor : β → C) (limit : Nat) (found : List α) :
    Except E (List β × Option C) := do
  let items ← found.mapM decode
  if limit < items.length then
    return (items.dropLast, items.dropLast.getLast?.map cursor)
  else return (items, none)

/-- Following the cursors of a listing from `c` to the end visits these items. -/
inductive Visits (list : Option C → Except E (List β × Option C)) : Option C → List β → Prop where
  | last {c : Option C} {items : List β} (h : list c = .ok (items, none)) : Visits list c items
  | more {c : Option C} {next : C} {items rest : List β} (h : list c = .ok (items, some next))
    (hrest : Visits list (some next) rest) : Visits list c (items ++ rest)

/-- Following the cursors of a listing from `c` ends in a page that fails with this error. -/
inductive Fails (list : Option C → Except E (List β × Option C)) : Option C → E → Prop where
  | here {c : Option C} {e : E} (h : list c = .error e) : Fails list c e
  | more {c : Option C} {next : C} {items : List β} {e : E} (h : list c = .ok (items, some next))
    (hrest : Fails list (some next) e) : Fails list c e

/-- Following the cursors while the listing changes: each page is read in a `Later` state than the
one before it, the last one in the final state. -/
inductive Reads (Later : S → S → Prop) (list : S → Option C → Except E (List β × Option C)) :
    S → Option C → List β → S → Prop where
  | last {s : S} {c : Option C} {items : List β} (h : list s c = .ok (items, none)) :
    Reads Later list s c items s
  | more {s s' t : S} {c : Option C} {next : C} {items rest : List β}
    (h : list s c = .ok (items, some next)) (hlater : Later s s')
    (hrest : Reads Later list s' (some next) rest t) : Reads Later list s c (items ++ rest) t

theorem ordered_perm (rows : List α) : (ordered key rows).Perm rows :=
  perm_insertionSort _ rows

variable {key} {decode : α → Except E β} {cursor : β → C} {limit : Nat} {before : List α}
  {items : List β}

theorem ordered_pairwise {rows : List α} (h : (rows.map key).Nodup) :
    (ordered key rows).Pairwise fun a b => key a < key b := by
  have : Std.Total fun a b : α => key a ≤ key b := ⟨fun a b => le_total (key a) (key b)⟩
  have : IsTrans α fun a b => key a ≤ key b := ⟨fun _ _ _ hab hbc => hab.trans hbc⟩
  have hle : (ordered key rows).Pairwise fun a b => key a ≤ key b :=
    pairwise_insertionSort _ rows
  have hnodup : ((ordered key rows).map key).Nodup :=
    ((ordered_perm key rows).map key).nodup_iff.mpr h
  have hne : (ordered key rows).Pairwise fun a b => key a ≠ key b := pairwise_map.mp hnodup
  exact (hle.and hne).imp fun hab => lt_of_le_of_ne hab.1 hab.2

theorem filter_after {a : α} (h : (before ++ a :: later).Pairwise fun a b => key a < key b) :
    (before ++ a :: later).filter (fun b => decide (key a < key b)) = later := by
  have hsplit := pairwise_append.mp h
  have hcons := pairwise_cons.mp hsplit.2.1
  have hbefore : before.filter (fun b => decide (key a < key b)) = [] := by
    rw [filter_eq_nil_iff]
    intro b hb
    simpa using (hsplit.2.2 b hb a (by simp)).le
  have hlater : later.filter (fun b => decide (key a < key b)) = later := by
    rw [filter_eq_self]
    intro b hb
    simpa using hcons.1 b hb
  rw [filter_append, hbefore, filter_cons_of_neg (by simp), hlater, nil_append]

theorem mapM_eq_ok_iff {l : List α} {bs : List β} :
    l.mapM decode = .ok bs ↔ Forall₂ (fun a b => decode a = .ok b) l bs := by
  refine ⟨forall₂_of_mapM_ok, fun h => ?_⟩
  induction h with
  | nil => rfl
  | cons hab _ ih => rw [mapM_cons, hab, ok_bind, ih, ok_bind, pure_eq_ok]

theorem mapM_eq_error {a : α} {e : E}
    (hbefore : ∀ b ∈ before, ∃ item, decode b = .ok item) (ha : decode a = .error e) :
    (before ++ a :: later).mapM decode = .error e := by
  induction before with
  | nil => rw [nil_append, mapM_cons, ha, error_bind]
  | cons b before ih =>
    obtain ⟨item, hitem⟩ := hbefore b mem_cons_self
    rw [cons_append, mapM_cons, hitem, ok_bind, ih fun b hb => hbefore b (mem_cons_of_mem _ hb),
      error_bind]

theorem exists_forall₂ (h : ∀ a ∈ before, ∃ item, decode a = .ok item) :
    ∃ items, Forall₂ (fun a b => decode a = .ok b) before items := by
  induction before with
  | nil => exact ⟨[], .nil⟩
  | cons a before ih =>
    obtain ⟨item, hitem⟩ := h a mem_cons_self
    obtain ⟨items, hitems⟩ := ih fun a ha => h a (mem_cons_of_mem _ ha)
    exact ⟨item :: items, .cons hitem hitems⟩

theorem forall₂_append_left {R : α → β → Prop} {l l' : List α} {bs : List β}
    (h : Forall₂ R (l ++ l') bs) :
    ∃ cs ds, bs = cs ++ ds ∧ Forall₂ R l cs ∧ Forall₂ R l' ds := by
  induction l generalizing bs with
  | nil => exact ⟨[], bs, rfl, .nil, h⟩
  | cons a l ih =>
    cases h with
    | cons hab h =>
      have ⟨cs, ds, hbs, hcs, hds⟩ := ih h
      exact ⟨_ :: cs, ds, by rw [hbs, cons_append], .cons hab hcs, hds⟩

theorem exists_split {l : List α} {n : Nat} (h : n + 1 < l.length) :
    ∃ before a extra later, l = before ++ a :: extra :: later ∧ before.length = n := by
  refine ⟨l.take n, l[n], l[n + 1], l.drop (n + 1 + 1), ?_, by rw [length_take]; omega⟩
  rw [← drop_eq_getElem_cons, ← drop_eq_getElem_cons, take_append_drop]

theorem page_short {found : List α} (hshort : found.length ≤ limit) {next : Option C} :
    page decode cursor limit found = .ok (items, next) ↔
      Forall₂ (fun a b => decode a = .ok b) found items ∧ next = none := by
  unfold page
  rw [← mapM_eq_ok_iff]
  cases hall : found.mapM decode with
  | error e => simp
  | ok all =>
    have hlength := length_of_mapM_ok hall
    rw [ok_bind, if_neg (by omega)]
    simp [eq_comm]

/-- A page with the extra row: the cursor is that of the row before it. -/
theorem page_full {a extra : α} (hlength : before.length + 1 = limit) {next : Option C} :
    page decode cursor limit (before ++ [a] ++ [extra]) = .ok (items, next) ↔
      ∃ bs b e, Forall₂ (fun a b => decode a = .ok b) before bs ∧ decode a = .ok b ∧
        decode extra = .ok e ∧ items = bs ++ [b] ∧ next = some (cursor b) := by
  unfold page
  constructor
  · intro h
    obtain ⟨all, hall, h⟩ := of_bind h
    obtain ⟨kept, last, rfl, hkept, hlast⟩ := forall₂_append_left (mapM_eq_ok_iff.mp hall)
    obtain ⟨bs, own, rfl, hbs, hown⟩ := forall₂_append_left hkept
    obtain _ | ⟨hb, _ | _⟩ := hown
    obtain _ | ⟨he, _ | _⟩ := hlast
    have hcount := hbs.length_eq
    rw [if_pos (by simp; omega), dropLast_concat, getLast?_concat] at h
    cases h
    exact ⟨bs, _, _, hbs, hb, he, rfl, rfl⟩
  · rintro ⟨bs, b, e, hbs, hb, he, rfl, rfl⟩
    have hcount := hbs.length_eq
    have hall : (before ++ [a] ++ [extra]).mapM decode = .ok (bs ++ [b] ++ [e]) := by
      rw [mapM_eq_ok_iff]
      exact rel_append (rel_append hbs (.cons hb .nil)) (.cons he .nil)
    rw [hall, ok_bind, if_pos (by simp; omega), dropLast_concat, getLast?_concat]
    rfl

/-- The rows past a cursor. -/
def past (key : α → κ) (rows : List α) (after : κ) : List α :=
  (ordered key rows).filter fun a => decide (after < key a)

/-- Continuing past a row that the cursor has not passed leaves what follows it. -/
theorem past_key {rows : List α} {after : κ} {a : α} (h : (rows.map key).Nodup)
    (hsplit : past key rows after = before ++ a :: later) : past key rows (key a) = later := by
  have hmem : a ∈ past key rows after := by simp [hsplit]
  have hlt : after < key a := by simpa using of_mem_filter hmem
  have hnarrow : past key rows (key a) =
      (past key rows after).filter (fun b => decide (key a < key b)) := by
    unfold past
    rw [filter_filter]
    apply filter_congr
    intro b _
    simpa using fun hab : key a < key b => hlt.trans hab
  have hpair : (past key rows after).Pairwise fun a b => key a < key b :=
    (ordered_pairwise h).filter _
  rw [hnarrow, hsplit]
  rw [hsplit] at hpair
  exact filter_after hpair

theorem take_split {a extra : α} (h : before.length + 1 = limit) :
    (before ++ a :: extra :: later).take (limit + 1) = before ++ [a] ++ [extra] := by
  rw [show before ++ a :: extra :: later = (before ++ [a] ++ [extra]) ++ later by simp]
  exact take_left' (by simp; omega)

section Listed

variable {rows : List α} {list : Option C → Except E (List β × Option C)}
  (position : Option C → κ) (Bound : Option C → Prop) (hkeys : (rows.map key).Nodup)
  (hlimit : 0 < limit)
  (hlist : ∀ c, Bound c →
    list c = page decode cursor limit (select key rows (position c) (limit + 1)))
  (hcursor : ∀ row ∈ rows, ∀ b, decode row = .ok b →
    Bound (some (cursor b)) ∧ position (some (cursor b)) = key row)

include hkeys hlimit hlist hcursor

/-- A listing of rows with distinct keys visits exactly the decoded rows in order; an undecodable
row ends every walk. -/
theorem visits_iff (hbound : Bound none) (hstart : ∀ row ∈ rows, position none < key row) :
    Visits list none items ↔
      Forall₂ (fun a b => decode a = .ok b) (ordered key rows) items := by
  have hmem : ∀ row ∈ ordered key rows, row ∈ rows := fun row => (ordered_perm key rows).mem_iff.mp
  -- by the number of rows past the cursor
  have hwalk : ∀ n c items, Bound c → (past key rows (position c)).length = n →
      (Visits list c items ↔
        Forall₂ (fun a b => decode a = .ok b) (past key rows (position c)) items) := by
    intro n
    induction n using Nat.strong_induction_on with
    | _ n ih =>
      intro c items hc hn
      have hpage : list c = page decode cursor limit
        ((past key rows (position c)).take (limit + 1)) := hlist c hc
      by_cases hshort : (past key rows (position c)).length ≤ limit
      · rw [take_of_length_le (by omega)] at hpage
        constructor
        · intro h
          cases h with
          | last h => exact ((page_short hshort).mp (hpage ▸ h)).1
          | more h _ => exact absurd ((page_short hshort).mp (hpage ▸ h)).2 (by simp)
        · intro h
          exact .last (hpage ▸ (page_short hshort).mpr ⟨h, rfl⟩)
      · obtain ⟨before, a, extra, later, hsplit, hlength⟩ :=
          exists_split (show limit - 1 + 1 < (past key rows (position c)).length by omega)
        have hcount : before.length + 1 = limit := by omega
        have hrow : a ∈ rows := by
          apply hmem a
          have ha : a ∈ past key rows (position c) := by simp [hsplit]
          exact mem_of_mem_filter ha
        have hnext : ∀ b, decode a = .ok b → ∀ rest, Visits list (some (cursor b)) rest ↔
            Forall₂ (fun a b => decode a = .ok b) (extra :: later) rest := by
          intro b hb rest
          have hcur := hcursor a hrow b hb
          have hpast := past_key hkeys hsplit
          rw [← hcur.2] at hpast
          have hsmaller : (extra :: later).length < n := by
            rw [← hn, hsplit]
            simp only [length_append, length_cons]
            omega
          have hih := ih _ hsmaller (some (cursor b)) rest hcur.1 (by rw [hpast])
          rwa [hpast] at hih
        rw [hsplit, take_split hcount] at hpage
        rw [hsplit, ← singleton_append, ← append_assoc]
        constructor
        · intro h
          cases h with
          | last h =>
            have ⟨_, _, _, _, _, _, _, hnone⟩ := (page_full hcount).mp (hpage ▸ h)
            cases hnone
          | more h hrest =>
            obtain ⟨bs, b, e, hbs, hb, -, rfl, hsome⟩ := (page_full hcount).mp (hpage ▸ h)
            cases hsome
            exact rel_append (rel_append hbs (.cons hb .nil)) ((hnext b hb _).mp hrest)
        · intro h
          obtain ⟨kept, rest, rfl, hkept, hrest⟩ := forall₂_append_left h
          obtain ⟨bs, own, rfl, hbs, hown⟩ := forall₂_append_left hkept
          obtain _ | ⟨hb, _ | _⟩ := hown
          obtain _ | ⟨he, hlater⟩ := hrest
          have hfull : page decode cursor limit (before ++ [a] ++ [extra]) = _ :=
            (page_full hcount).mpr ⟨bs, _, _, hbs, hb, he, rfl, rfl⟩
          exact .more (hpage ▸ hfull) ((hnext _ hb _).mpr (.cons he hlater))
  have hall := hwalk _ none items hbound rfl
  rwa [past, filter_eq_self.mpr fun row hrow => by simpa using hstart row (hmem row hrow)]
    at hall

/-- The first row that cannot be decoded ends the walk with its error. -/
theorem fails_of_undecodable {c : Option C} (hbound : Bound c) {a : α} {e : E}
    (hsplit : past key rows (position c) = before ++ a :: later)
    (hbefore : ∀ b ∈ before, ∃ item, decode b = .ok item) (ha : decode a = .error e) :
    Fails list c e := by
  -- by the number of rows before the undecodable one
  induction hn : before.length using Nat.strong_induction_on generalizing before c with
  | _ n ih =>
    have hpage : list c = page decode cursor limit
      ((past key rows (position c)).take (limit + 1)) := hlist c hbound
    rw [hsplit] at hpage
    by_cases hshort : before.length ≤ limit
    · rw [take_append, take_of_length_le (by omega),
        show limit + 1 - before.length = limit - before.length + 1 by omega, take_succ_cons] at hpage
      refine .here (hpage.trans ?_)
      unfold page
      rw [mapM_eq_error hbefore ha, error_bind]
    · obtain ⟨kept, last, extra, rest, rfl, hlength⟩ :=
        exists_split (show limit - 1 + 1 < before.length by omega)
      have hcount : kept.length + 1 = limit := by omega
      obtain ⟨items, hitems⟩ := exists_forall₂ fun b (hb : b ∈ kept) => hbefore b (by simp [hb])
      obtain ⟨item, hitem⟩ := hbefore last (by simp)
      obtain ⟨next, hnext⟩ := hbefore extra (by simp)
      rw [append_assoc, cons_append, cons_append, take_split hcount,
        (page_full hcount).mpr ⟨items, item, next, hitems, hitem, hnext, rfl, rfl⟩] at hpage
      have hrow : last ∈ rows := by
        have hmem : last ∈ past key rows (position c) := by simp [hsplit]
        exact (ordered_perm key rows).mem_iff.mp (mem_of_mem_filter hmem)
      obtain ⟨hbound', hposition⟩ := hcursor last hrow item hitem
      have hpast := past_key hkeys (show past key rows (position c) =
        kept ++ last :: (extra :: rest ++ a :: later) by rw [hsplit]; simp)
      rw [← hposition] at hpast
      refine .more hpage (ih (extra :: rest).length ?_ hbound' hpast
        (fun b hb => hbefore b (by simp at hb ⊢; tauto)) rfl)
      rw [← hn]
      simp only [length_append, length_cons]
      omega

end Listed

theorem ordered_prefix {rows added : List α} (hkeys : ((rows ++ added).map key).Nodup)
    (hlt : ∀ a ∈ rows, ∀ b ∈ added, key a < key b) :
    ordered key rows <+: ordered key (rows ++ added) := by
  have hparts := nodup_append.mp (map_append ▸ hkeys)
  refine ⟨ordered key added, Perm.eq_of_pairwise ?_ ?_ (ordered_pairwise hkeys) ?_⟩
  · intro a b _ _ hab hba
    exact absurd hba hab.asymm
  · apply pairwise_append.mpr
    refine ⟨ordered_pairwise hparts.1, ordered_pairwise hparts.2.1, fun a ha b hb => ?_⟩
    exact hlt a ((ordered_perm key rows).mem_iff.mp ha) b ((ordered_perm key added).mem_iff.mp hb)
  · exact ((ordered_perm key rows).append (ordered_perm key added)).trans
      (ordered_perm key (rows ++ added)).symm

/-- A page with a cursor is full, and the cursor is that of a row. -/
theorem page_next {found : List α} {next : C}
    (h : page decode cursor limit found = .ok (items, some next)) :
    limit < found.length ∧ ∃ a ∈ found, ∃ b, decode a = .ok b ∧ cursor b = next := by
  obtain ⟨all, hall, h⟩ := of_bind h
  split_ifs at h with hmore
  · obtain ⟨-, hnext⟩ := Prod.mk.inj (Except.ok.inj h)
    obtain ⟨b, hb, rfl⟩ := Option.map_eq_some_iff.mp hnext
    have hmem := mem_of_mem_dropLast (mem_of_getLast? hb)
    rw [length_of_mapM_ok hall] at hmore
    obtain ⟨i, hi, rfl⟩ := getElem_of_mem hmem
    have hdecode := (forall₂_of_mapM_ok hall).get (length_of_mapM_ok hall ▸ hi) hi
    exact ⟨hmore, _, get_mem _ _, _, hdecode, rfl⟩
  · cases h

/-- Where rows are only added past those that are there, the pages are those of the final state. -/
theorem visits_of_reads {Later : S → S → Prop} {list : S → Option C → Except E (List β × Option C)}
    (rows : S → List α) (position : Option C → κ) (Bound : Option C → Prop)
    (hgrow : ∀ s t, Later s t → ordered key (rows s) <+: ordered key (rows t))
    (hlist : ∀ s c, Bound c →
      list s c = page decode cursor limit (select key (rows s) (position c) (limit + 1)))
    (hcursor : ∀ s, ∀ row ∈ rows s, ∀ b, decode row = .ok b → Bound (some (cursor b)))
    {s t : S} {c : Option C} (hc : Bound c) (h : Reads Later list s c items t) :
    Visits (list t) c items := by
  suffices hboth : ordered key (rows s) <+: ordered key (rows t) ∧ Visits (list t) c items from hboth.2
  induction h with
  | last h => exact ⟨prefix_rfl, .last h⟩
  | @more s s' t c next items rest h hlater _ ih =>
    rw [hlist s c hc] at h
    obtain ⟨hfull, a, ha, b, hb, rfl⟩ := page_next h
    have hrow := (ordered_perm key _).mem_iff.mp (mem_of_mem_filter (mem_of_mem_take ha))
    obtain ⟨hlast, hrest⟩ := ih (hcursor s a hrow b hb)
    have hgrown := (hgrow s s' hlater).trans hlast
    -- a full page is the same page in the final state
    have hsame : select key (rows t) (position c) (limit + 1) =
        select key (rows s) (position c) (limit + 1) := by
      obtain ⟨added, hadded⟩ := hgrown.filter fun a => decide (position c < key a)
      rw [select, length_take] at hfull
      rw [select, ← hadded, take_append_of_le_length (by omega), select]
    rw [← hsame, ← hlist t c hc] at h
    exact ⟨hgrown, .more h hrest⟩

end Lib.Paging
