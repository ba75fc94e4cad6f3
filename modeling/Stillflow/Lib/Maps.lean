import Mathlib

/-! Ordered maps built by inserting entries one after another. -/

namespace Lib.Maps

open Std List

variable {κ β : Type} [Ord κ] [TransOrd κ]

def values (map : ExtTreeMap κ β) : List β := map.toList.map Prod.snd

/-- Insert a list of entries one after another; a later entry replaces an earlier one. -/
def insertAll (map : ExtTreeMap κ β) (entries : List (κ × β)) : ExtTreeMap κ β :=
  entries.foldl (fun map entry => map.insert entry.1 entry.2) map

theorem insertAll_cons (map : ExtTreeMap κ β) (entry : κ × β) (entries : List (κ × β)) :
    insertAll map (entry :: entries) = insertAll (map.insert entry.1 entry.2) entries := rfl

theorem insertAll_append (map : ExtTreeMap κ β) (l l' : List (κ × β)) :
    insertAll map (l ++ l') = insertAll (insertAll map l) l' := by
  unfold insertAll
  rw [foldl_append]

variable [LawfulEqOrd κ] {map : ExtTreeMap κ β} {value : β} {key : κ} {entries : List (κ × β)}

theorem mem_values (key : κ) (h : map[key]? = some value) : value ∈ values map :=
  mem_map.mpr ⟨(key, value), ExtTreeMap.mem_toList_iff_getElem?_eq_some.mpr h, rfl⟩

theorem mem_values_iff : value ∈ values map ↔ ∃ key : κ, map[key]? = some value := by
  constructor
  · intro h
    obtain ⟨entry, hentry, rfl⟩ := mem_map.mp h
    exact ⟨entry.1, ExtTreeMap.mem_toList_iff_getElem?_eq_some.mp hentry⟩
  · rintro ⟨key, h⟩
    exact mem_values key h

theorem getElem?_insert_ne {other : κ} (h : other ≠ key) :
    (map.insert key value)[other]? = map[other]? := by
  rw [ExtTreeMap.getElem?_insert, if_neg]
  intro heq
  exact h (LawfulEqOrd.eq_of_compare heq).symm

theorem insert_same (h : map[key]? = some value) : map.insert key value = map := by
  refine ExtTreeMap.ext_getElem? fun other => ?_
  by_cases hother : other = key
  · subst hother
    rw [ExtTreeMap.getElem?_insert_self, h]
  · rw [getElem?_insert_ne hother]

theorem insert_insert (map : ExtTreeMap κ β) (key : κ) (value : β) :
    (map.insert key value).insert key value = map.insert key value :=
  insert_same ExtTreeMap.getElem?_insert_self

theorem getElem?_insertAll_of_notMem (h : key ∉ entries.map Prod.fst) :
    (insertAll map entries)[key]? = map[key]? := by
  induction entries generalizing map with
  | nil => rfl
  | cons entry entries ih =>
    rw [map_cons, mem_cons, not_or] at h
    rw [insertAll_cons, ih h.2, getElem?_insert_ne h.1]

theorem getElem?_insertAll_of_mem (hn : (entries.map Prod.fst).Nodup) (h : (key, value) ∈ entries) :
    (insertAll map entries)[key]? = some value := by
  induction entries generalizing map with
  | nil => cases h
  | cons entry entries ih =>
    rw [map_cons, nodup_cons] at hn
    rw [insertAll_cons]
    rcases mem_cons.mp h with rfl | h
    · rw [getElem?_insertAll_of_notMem hn.1, ExtTreeMap.getElem?_insert_self]
    · exact ih hn.2 h

/-- Entries that agree on repeated keys can be read back in any order. -/
theorem getElem?_insertAll_of_agree
    (hagree : ∀ entry ∈ entries, ∀ other ∈ entries, entry.1 = other.1 → entry.2 = other.2)
    (h : (key, value) ∈ entries) : (insertAll map entries)[key]? = some value := by
  induction entries generalizing map with
  | nil => cases h
  | cons entry entries ih =>
    rw [insertAll_cons]
    have hrest : ∀ e ∈ entries, ∀ e' ∈ entries, e.1 = e'.1 → e.2 = e'.2 := fun e he e' he' =>
      hagree e (mem_cons_of_mem _ he) e' (mem_cons_of_mem _ he')
    by_cases hkey : key ∈ entries.map Prod.fst
    · obtain ⟨⟨key', value'⟩, hmem, rfl⟩ := mem_map.mp hkey
      have hvalue : value' = value := hagree _ (mem_cons_of_mem _ hmem) _ h rfl
      exact ih hrest (hvalue ▸ hmem)
    · rw [getElem?_insertAll_of_notMem hkey]
      rcases mem_cons.mp h with rfl | h
      · exact ExtTreeMap.getElem?_insert_self
      · exact absurd (mem_map.mpr ⟨_, h, rfl⟩) hkey

theorem getElem?_insertAll_iff (hn : (entries.map Prod.fst).Nodup) :
    (insertAll (∅ : ExtTreeMap κ β) entries)[key]? = some value ↔ (key, value) ∈ entries := by
  constructor
  · intro h
    by_cases hkey : key ∈ entries.map Prod.fst
    · obtain ⟨⟨key', value'⟩, hmem, rfl⟩ := mem_map.mp hkey
      rw [getElem?_insertAll_of_mem hn hmem, Option.some.injEq] at h
      exact h ▸ hmem
    · rw [getElem?_insertAll_of_notMem hkey] at h
      simp at h
  · exact getElem?_insertAll_of_mem hn

theorem toList_insertAll_perm (hn : (entries.map Prod.fst).Nodup) :
    (insertAll (∅ : ExtTreeMap κ β) entries).toList.Perm entries := by
  have hkeys : ((insertAll (∅ : ExtTreeMap κ β) entries).toList.map Prod.fst).Nodup := by
    rw [ExtTreeMap.map_fst_toList_eq_keys]
    exact ExtTreeMap.nodup_keys
  refine (perm_ext_iff_of_nodup (.of_map _ hkeys) (.of_map _ hn)).mpr fun entry => ?_
  rw [ExtTreeMap.mem_toList_iff_getElem?_eq_some, getElem?_insertAll_iff hn]

theorem insertAll_eq_of_mem_iff {distinct : List (κ × β)} (hn : (distinct.map Prod.fst).Nodup)
    (hmem : ∀ entry, entry ∈ entries ↔ entry ∈ distinct) :
    insertAll (∅ : ExtTreeMap κ β) entries = insertAll ∅ distinct := by
  have hagree : ∀ entry ∈ entries, ∀ other ∈ entries, entry.1 = other.1 → entry.2 = other.2 := by
    intro entry hentry other hother heq
    rw [inj_on_of_nodup_map hn ((hmem _).mp hentry) ((hmem _).mp hother) heq]
  refine ExtTreeMap.ext_getElem? fun key => ?_
  by_cases hkey : key ∈ distinct.map Prod.fst
  · obtain ⟨⟨_, value⟩, hentry, rfl⟩ := mem_map.mp hkey
    rw [getElem?_insertAll_of_mem hn hentry,
      getElem?_insertAll_of_agree hagree ((hmem _).mpr hentry)]
  · have habsent : key ∉ entries.map Prod.fst := by
      intro h
      obtain ⟨entry, hentry, rfl⟩ := mem_map.mp h
      exact hkey (mem_map.mpr ⟨entry, (hmem _).mp hentry, rfl⟩)
    rw [getElem?_insertAll_of_notMem hkey, getElem?_insertAll_of_notMem habsent]

end Lib.Maps
