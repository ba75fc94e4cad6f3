import Stillflow.Lib.Fallible

/-! Loops that stop at their first fault. -/

namespace Lib.FirstFault

open Lib.Fallible List

variable {ε α β κ : Type} {check : α → Except ε Unit} {l l' : List α} {key : ε → κ}

theorem forM_cons (a : α) (l : List α) :
    (a :: l).forM check = check a >>= fun _ => l.forM check := rfl

theorem forM_eq_ok : l.forM check = .ok () ↔ ∀ a ∈ l, check a = .ok () := by
  induction l with
  | nil => simp
  | cons a l ih =>
    rw [forM_cons, bind_eq_ok, exists_unit_iff, ih, forall_mem_cons]

theorem mem_of_forM_eq_error {e : ε} (h : l.forM check = .error e) :
    ∃ a ∈ l, check a = .error e := by
  induction l with
  | nil => cases h
  | cons a l ih =>
    rw [forM_cons] at h
    rcases bind_eq_error.mp h with h | ⟨_, -, h⟩
    · exact ⟨a, by simp, h⟩
    · obtain ⟨b, hb, hfault⟩ := ih h
      exact ⟨b, mem_cons_of_mem _ hb, hfault⟩

/-- A loop that no element before `a` can stop stops at `a`. -/
theorem foldlM_append_error {σ : Type} {f : σ → α → Except ε σ} {before after : List α} {a : α}
    {e : ε} (hbefore : ∀ b ∈ before, ∀ s, (f s b).isOk = true) (ha : ∀ s, f s a = .error e) (s : σ) :
    (before ++ a :: after).foldlM f s = .error e := by
  induction before generalizing s with
  | nil => rw [nil_append, foldlM_cons, ha, error_bind]
  | cons b before ih =>
    rw [forall_mem_cons] at hbefore
    obtain ⟨s', hs⟩ := exists_of_isOk (hbefore.1 s)
    rw [cons_append, foldlM_cons, hs, ok_bind, ih hbefore.2]

theorem forM_congr {check' : α → Except ε Unit} (h : ∀ a ∈ l, check a = check' a) :
    l.forM check = l.forM check' := by
  induction l with
  | nil => rfl
  | cons a l ih =>
    rw [forall_mem_cons] at h
    rw [forM_cons, forM_cons, h.1, ih h.2]

/-- Two runs that fail with the same key, or not both. -/
def SameFault (key : ε → κ) (x : Except ε α) (y : Except ε β) : Prop :=
  ∀ e, x = .error e → ∃ e', y = .error e' ∧ key e' = key e

/-- All faults of a list carry one key. -/
def FaultsAgree (key : ε → κ) (check : α → Except ε Unit) (l : List α) : Prop :=
  ∀ a ∈ l, ∀ b ∈ l, ∀ e e', check a = .error e → check b = .error e' → key e = key e'

theorem sameFault_of_eq {x y : Except ε α} (h : x = y) : SameFault key x y :=
  fun e he => ⟨e, h ▸ he, rfl⟩

theorem SameFault.bind {γ : Type} {x y : Except ε α} {f f' : α → Except ε γ} (h : SameFault key x y)
    (hok : ∀ a, x = .ok a → y = .ok a) (hf : ∀ a, x = .ok a → SameFault key (f a) (f' a)) :
    SameFault key (x >>= f) (y >>= f') := by
  intro e he
  cases hx : x with
  | error e' =>
    rw [hx, error_bind] at he
    cases he
    obtain ⟨e', hy, hkey⟩ := h e hx
    exact ⟨e', by rw [hy, error_bind], hkey⟩
  | ok a =>
    rw [hx, ok_bind] at he
    obtain ⟨e', hfault, hkey⟩ := hf a hx e he
    exact ⟨e', by rw [hok a hx, ok_bind, hfault], hkey⟩

theorem SameFault.mapError {ε' : Type} {key' : ε' → κ} {x y : Except ε α} {f : ε → ε'}
    (h : SameFault key x y) (hkey : ∀ e, key' (f e) = key e) :
    SameFault key' (x.mapError f) (y.mapError f) := by
  intro e he
  cases hx : x with
  | ok a =>
    rw [hx] at he
    cases he
  | error e' =>
    rw [hx] at he
    cases he
    obtain ⟨e'', hy, hsame⟩ := h e' hx
    exact ⟨f e'', by rw [hy]; rfl, by rw [hkey, hkey, hsame]⟩

theorem sameFault_of_agree (hperm : l'.Perm l) (h : FaultsAgree key check l) :
    SameFault key (l.forM check) (l'.forM check) := by
  intro e he
  obtain ⟨a, ha, hfault⟩ := mem_of_forM_eq_error he
  cases hrun : l'.forM check with
  | ok u =>
    have hok := forM_eq_ok.mp hrun a (hperm.mem_iff.mpr ha)
    rw [hfault] at hok
    cases hok
  | error e' =>
    obtain ⟨b, hb, hfault'⟩ := mem_of_forM_eq_error hrun
    exact ⟨e', rfl, h b (hperm.mem_iff.mp hb) a ha e' e hfault' hfault⟩

/-- The check fails exactly on the elements with a fault, and with its key. -/
def Describes (key : ε → κ) (check : α → Except ε Unit) (fault : α → Option κ) (l : List α) :
    Prop :=
  ∀ a ∈ l, (check a = .ok () ∧ fault a = none) ∨ ∃ e, check a = .error e ∧ fault a = some (key e)

section Describes

variable {fault : α → Option κ} (h : Describes key check fault l)

include h

theorem Describes.ok_iff : l.forM check = .ok () ↔ ∀ a ∈ l, fault a = none := by
  rw [forM_eq_ok]
  refine forall₂_congr fun a ha => ?_
  rcases h a ha with ⟨hok, hnone⟩ | ⟨e, herror, hfault⟩
  · simp [hok, hnone]
  · simp [herror, hfault]

theorem Describes.fault_iff {a : α} (ha : a ∈ l) {k : κ} :
    fault a = some k ↔ ∃ e, check a = .error e ∧ key e = k := by
  rcases h a ha with ⟨hok, hnone⟩ | ⟨e, herror, hfault⟩
  · simp [hok, hnone]
  · simp [herror, hfault]

theorem Describes.agree_iff : FaultsAgree key check l ↔
    ∀ a ∈ l, ∀ b ∈ l, ∀ k k', fault a = some k → fault b = some k' → k = k' := by
  refine forall₂_congr fun a ha => forall₂_congr fun b hb => ?_
  simp only [h.fault_iff ha, h.fault_iff hb]
  constructor
  · rintro hagree _ _ ⟨e, he, rfl⟩ ⟨e', he', rfl⟩
    exact hagree e e' he he'
  · exact fun hagree e e' he he' => hagree _ _ ⟨e, he, rfl⟩ ⟨e', he', rfl⟩

/-- If all faults agree, any of them is reported, in whatever order. -/
theorem Describes.reports (hagree : FaultsAgree key check l) (hperm : l'.Perm l) {a : α}
    (ha : a ∈ l) {k : κ} (hk : fault a = some k) : ∃ e, l'.forM check = .error e ∧ key e = k := by
  obtain ⟨e, he, rfl⟩ := (h.fault_iff ha).mp hk
  cases hrun : l'.forM check with
  | ok u =>
    rw [forM_eq_ok.mp hrun a (hperm.mem_iff.mpr ha)] at he
    cases he
  | error e' =>
    obtain ⟨b, hb, hfault⟩ := mem_of_forM_eq_error hrun
    exact ⟨e', rfl, hagree b (hperm.mem_iff.mp hb) a ha e' e hfault he⟩

end Describes

/-- Any fault can be made the first one. -/
theorem exists_perm_fault {a : α} {e : ε} (ha : a ∈ l) (he : check a = .error e) :
    ∃ l' : List α, l'.Perm l ∧ l'.forM check = .error e := by
  obtain ⟨before, after, rfl⟩ := append_of_mem ha
  refine ⟨a :: (before ++ after), perm_middle.symm, ?_⟩
  rw [forM_cons, he, error_bind]

/-- The reported key is the same for every order exactly when all faults agree on it. -/
theorem sameFault_iff_agree :
    (∀ l' : List α, l'.Perm l → SameFault key (l.forM check) (l'.forM check)) ↔
      FaultsAgree key check l := by
  constructor
  · intro h a ha b hb e e' he he'
    cases hrun : l.forM check with
    | ok u =>
      have hok := forM_eq_ok.mp hrun a ha
      rw [he] at hok
      cases hok
    | error first =>
      -- whatever comes first here, each of the two faults can come first elsewhere
      have hkey : ∀ {c : α} {f : ε}, c ∈ l → check c = .error f → key f = key first := by
        intro c f hc hf
        obtain ⟨l', hperm, hfirst⟩ := exists_perm_fault hc hf
        obtain ⟨f', hf', hkey⟩ := h l' hperm first hrun
        rw [hfirst] at hf'
        cases hf'
        exact hkey
      rw [hkey ha he, hkey hb he']
  · intro h l' hperm
    exact sameFault_of_agree hperm h

/-- A loop whose steps fail exactly where a check of the element fails. -/
theorem foldlM_of_check {f : β → α → Except ε β} (I : β → Prop)
    (hok : ∀ b, ∀ a ∈ l, I b → check a = .ok () → ∃ b', f b a = .ok b' ∧ I b')
    (herror : ∀ b, ∀ a ∈ l, I b → ∀ e, check a = .error e → f b a = .error e) {b : β} (hb : I b) :
    (∃ b', l.foldlM f b = .ok b' ∧ l.forM check = .ok ()) ∨
      ∃ e, l.foldlM f b = .error e ∧ l.forM check = .error e := by
  induction l generalizing b with
  | nil => exact .inl ⟨b, rfl, rfl⟩
  | cons a l ih =>
    rw [foldlM_cons, forM_cons]
    cases hcheck : check a with
    | error e =>
      rw [herror b a (by simp) hb e hcheck]
      exact .inr ⟨e, rfl, rfl⟩
    | ok u =>
      obtain ⟨b', hb', hI⟩ := hok b a (by simp) hb hcheck
      rw [hb', ok_bind, ok_bind]
      exact ih (fun b a ha => hok b a (mem_cons_of_mem _ ha))
        (fun b a ha => herror b a (mem_cons_of_mem _ ha)) hI

/-- Sorting forgets the order of a list whose elements the order tells apart. -/
theorem insertionSort_eq_of_perm {r : α → α → Prop} [DecidableRel r] (htotal : ∀ a b, r a b ∨ r b a)
    (htrans : ∀ a b c, r a b → r b c → r a c)
    (hanti : ∀ a ∈ l, ∀ b ∈ l, r a b → r b a → a = b) (hperm : l'.Perm l) :
    l'.insertionSort r = l.insertionSort r := by
  have : Std.Total r := ⟨htotal⟩
  have : IsTrans α r := ⟨htrans⟩
  have hsort := (perm_insertionSort r l').trans (hperm.trans (perm_insertionSort r l).symm)
  refine List.Perm.eq_of_pairwise (fun a b ha hb => ?_) (pairwise_insertionSort r l')
    (pairwise_insertionSort r l) hsort
  exact hanti a (hperm.mem_iff.mp ((perm_insertionSort r l').mem_iff.mp ha)) b
    ((perm_insertionSort r l).mem_iff.mp hb)

end Lib.FirstFault
