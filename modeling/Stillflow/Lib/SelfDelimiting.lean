import Mathlib

/-!
Self-delimiting encodings: an encoded value followed by arbitrary further symbols can be split off
in one way only.
-/

namespace Lib.SelfDelimiting

open List

variable {α β γ ι : Type*}

/-- An encoded value of `D` followed by any symbols determines the value and what follows it. -/
def SelfDelimitingOn (D : α → Prop) (enc : α → List β) : Prop :=
  ∀ a b x y, D a → D b → enc a ++ x = enc b ++ y → a = b ∧ x = y

variable {D : α → Prop} {enc : α → List β}

theorem SelfDelimitingOn.eq_of_eq (h : SelfDelimitingOn D enc) {a b : α} (ha : D a) (hb : D b)
    (he : enc a = enc b) : a = b :=
  (h a b [] [] ha hb (by rw [he])).1

theorem selfDelimitingOn_of_length_eq (hinj : ∀ a b, D a → D b → enc a = enc b → a = b)
    (hlen : ∀ a b, D a → D b → (enc a).length = (enc b).length) : SelfDelimitingOn D enc := by
  intro a b x y ha hb h
  obtain ⟨he, hxy⟩ := append_inj h (hlen a b ha hb)
  exact ⟨hinj a b ha hb he, hxy⟩

theorem SelfDelimitingOn.flatMap (h : SelfDelimitingOn D enc) (as bs : List α) (x y : List β)
    (ha : ∀ a ∈ as, D a) (hb : ∀ b ∈ bs, D b) (hlen : as.length = bs.length)
    (he : as.flatMap enc ++ x = bs.flatMap enc ++ y) : as = bs ∧ x = y := by
  induction as generalizing bs with
  | nil =>
    cases bs with
    | nil => exact ⟨rfl, by simpa using he⟩
    | cons b bs => simp at hlen
  | cons a as ih =>
    cases bs with
    | nil => simp at hlen
    | cons b bs =>
      simp only [flatMap_cons, append_assoc] at he
      obtain ⟨rfl, hrest⟩ := h a b _ _ (ha a (by simp)) (hb b (by simp)) he
      obtain ⟨rfl, rfl⟩ := ih bs (fun a ha' => ha a (by simp [ha'])) (fun b hb' => hb b (by simp [hb']))
        (by simpa using hlen) hrest
      exact ⟨rfl, rfl⟩

/-- The length of a payload, encoded in front of it, makes the payload self-delimiting. -/
theorem SelfDelimitingOn.lengthPrefixed {N : Nat} {len : Nat → List β} {payload : α → List β}
    (hl : SelfDelimitingOn (· < N) len) (hp : Function.Injective payload) :
    SelfDelimitingOn (fun a => (payload a).length < N)
      (fun a => len (payload a).length ++ payload a) := by
  intro a b x y ha hb h
  simp only [append_assoc] at h
  obtain ⟨hlen, hrest⟩ := hl _ _ _ _ ha hb h
  obtain ⟨he, hxy⟩ := append_inj hrest hlen
  exact ⟨hp he, hxy⟩

/-- The number of elements, encoded in front of them, makes a sequence self-delimiting. -/
theorem SelfDelimitingOn.counted {N : Nat} {len : Nat → List β}
    (hl : SelfDelimitingOn (· < N) len) (h : SelfDelimitingOn D enc) :
    SelfDelimitingOn (fun as => as.length < N ∧ ∀ a ∈ as, D a)
      (fun as : List α => len as.length ++ as.flatMap enc) := by
  intro as bs x y ha hb he
  simp only [append_assoc] at he
  obtain ⟨hlen, hrest⟩ := hl _ _ _ _ ha.1 hb.1 he
  exact h.flatMap as bs x y ha.2 hb.2 hlen hrest

/-- Little-endian digits of `n` in base 256, `w` of them. -/
def leBytes : Nat → Nat → List UInt8
  | 0, _ => []
  | w + 1, n => UInt8.ofNat (n % 256) :: leBytes w (n / 256)

@[simp] theorem length_leBytes (w n : Nat) : (leBytes w n).length = w := by
  induction w generalizing n with
  | zero => rfl
  | succ w ih => simp [leBytes, ih]

theorem leBytes_inj (w m n : Nat) (hm : m < 256 ^ w) (hn : n < 256 ^ w)
    (h : leBytes w m = leBytes w n) : m = n := by
  induction w generalizing m n with
  | zero => simp at hm hn; omega
  | succ w ih =>
    simp only [leBytes, List.cons.injEq] at h
    obtain ⟨hlow, hhigh⟩ := h
    have hmod : m % 256 = n % 256 := by
      have := congrArg UInt8.toNat hlow
      simpa using this
    have hdiv : m / 256 = n / 256 :=
      ih _ _ (Nat.div_lt_of_lt_mul (by rw [pow_succ] at hm; omega))
        (Nat.div_lt_of_lt_mul (by rw [pow_succ] at hn; omega)) hhigh
    omega

theorem selfDelimitingOn_leBytes (w : Nat) : SelfDelimitingOn (· < 256 ^ w) (leBytes w) :=
  selfDelimitingOn_of_length_eq (leBytes_inj w) (by simp)

theorem selfDelimitingOn_terminated (stop : β) :
    SelfDelimitingOn (stop ∉ ·) (fun symbols : List β => symbols ++ [stop]) := by
  intro as
  induction as with
  | nil =>
    intro bs x y _ hb h
    cases bs with
    | nil => exact ⟨rfl, (List.cons.inj h).2⟩
    | cons b bs =>
      have hstop := (List.cons.inj h).1
      exact absurd (by simp [hstop]) hb
  | cons a as ih =>
    intro bs x y ha hb h
    cases bs with
    | nil =>
      have hstop := (List.cons.inj h).1
      exact absurd (by simp [hstop]) ha
    | cons b bs =>
      have hcons := List.cons.inj h
      have hrest := ih bs x y (not_mem_of_not_mem_cons ha) (not_mem_of_not_mem_cons hb)
        hcons.2
      exact ⟨by rw [hcons.1, hrest.1], hrest.2⟩

theorem SelfDelimitingOn.flatMap_inj (h : SelfDelimitingOn D enc) (hne : ∀ a, enc a ≠ [])
    {as bs : List α} (ha : ∀ a ∈ as, D a) (hb : ∀ b ∈ bs, D b)
    (he : as.flatMap enc = bs.flatMap enc) : as = bs := by
  induction as generalizing bs with
  | nil =>
    cases bs with
    | nil => rfl
    | cons b bs => simp [hne] at he
  | cons a as ih =>
    cases bs with
    | nil => simp [hne] at he
    | cons b bs =>
      have hfirst := h a b _ _ (ha a (by simp)) (hb b (by simp)) he
      rw [hfirst.1, ih (fun a' h' => ha a' (by simp [h'])) (fun b' h' => hb b' (by simp [h']))
        hfirst.2]

/-- Values whose encoding can be split off. -/
class Wire (α : Type*) where
  put : α → List UInt8
  selfDelimiting : SelfDelimitingOn (fun _ => True) put

theorem Wire.split [Wire α] {a b : α} {x y : List UInt8} (h : put a ++ x = put b ++ y) :
    a = b ∧ x = y :=
  selfDelimiting a b x y trivial trivial h

instance [Wire α] [Wire β] : Wire (α × β) where
  put p := Wire.put p.1 ++ Wire.put p.2
  selfDelimiting p q x y _ _ h := by
    simp only [List.append_assoc] at h
    have hfirst := Wire.split h
    have hsecond := Wire.split hfirst.2
    exact ⟨Prod.ext hfirst.1 hsecond.1, hsecond.2⟩

theorem selfDelimitingOn_word {w : Nat} {toNat : α → Nat} (hinj : Function.Injective toNat)
    (hlt : ∀ a, toNat a < 256 ^ w) : SelfDelimitingOn (fun _ => True) (fun a => leBytes w (toNat a)) :=
  selfDelimitingOn_of_length_eq
    (fun a b _ _ h => hinj (leBytes_inj w _ _ (hlt a) (hlt b) h)) (by simp)

instance : Wire UInt8 :=
  ⟨fun v => leBytes 1 v.toNat, selfDelimitingOn_word (fun _ _ => UInt8.toNat_inj.mp) UInt8.toNat_lt⟩

instance : Wire UInt16 :=
  ⟨fun v => leBytes 2 v.toNat, selfDelimitingOn_word (fun _ _ => UInt16.toNat_inj.mp) UInt16.toNat_lt⟩

instance : Wire UInt32 :=
  ⟨fun v => leBytes 4 v.toNat, selfDelimitingOn_word (fun _ _ => UInt32.toNat_inj.mp) UInt32.toNat_lt⟩

instance : Wire UInt64 :=
  ⟨fun v => leBytes 8 v.toNat, selfDelimitingOn_word (fun _ _ => UInt64.toNat_inj.mp) UInt64.toNat_lt⟩

end Lib.SelfDelimiting
