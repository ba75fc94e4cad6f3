import Mathlib

/-!
Comparison sorts as decision trees over the positions of the input, with comparisons that may fail.
-/

namespace Lib.ComparisonSort

open List

/-- A sort of `n` elements: it sees them only through comparisons of different positions. -/
inductive Sorter (n : Nat) where
  | done (order : List (Fin n))
  | ask (left right : Fin n) (different : left ≠ right) (next : Ordering → Sorter n)

variable {n : Nat} {order : List (Fin n)}

def Sorter.run (compare : Fin n → Fin n → Option Ordering) : Sorter n → Option (List (Fin n))
  | .done order => some order
  | .ask left right _ next => (compare left right).bind fun answer => (next answer).run compare

/-- The positions are all there, in the order of `cmp` and, within a tie, in their own order. -/
structure StableOrder (cmp : Fin n → Fin n → Ordering) (order : List (Fin n)) : Prop where
  perm : order.Perm (List.finRange n)
  sorted : order.Pairwise fun i j => cmp i j = .lt ∨ cmp i j = .eq ∧ i < j

/-- Sorts of every length that are stable on every total preorder. -/
def StableSort (sort : (n : Nat) → Sorter n) : Prop :=
  ∀ (n : Nat) (cmp : Fin n → Fin n → Ordering) [Std.TransCmp cmp],
    ∃ order, (sort n).run (fun i j => some (cmp i j)) = some order ∧ StableOrder cmp order

theorem Sorter.run_mono {c d : Fin n → Fin n → Option Ordering}
    (h : ∀ i j o, i ≠ j → c i j = some o → d i j = some o) {s : Sorter n}
    (hrun : s.run c = some order) : s.run d = some order := by
  induction s with
  | done _ => exact hrun
  | ask i j hne next ih =>
    rw [run, Option.bind_eq_some_iff] at hrun
    obtain ⟨o, ho, hrun⟩ := hrun
    rw [run, h i j o hne ho]
    exact ih o hrun

variable {sort : (n : Nat) → Sorter n} {c : Fin n → Fin n → Option Ordering}

/-- Every total preorder that agrees with a successful run orders its result. -/
theorem StableSort.order_of_run (hs : StableSort sort) (hrun : (sort n).run c = some order)
    (cmp : Fin n → Fin n → Ordering) [Std.TransCmp cmp]
    (h : ∀ i j o, i ≠ j → c i j = some o → cmp i j = o) : StableOrder cmp order := by
  obtain ⟨order', hrun', horder⟩ := hs n cmp
  have hsame := Sorter.run_mono (d := fun i j => some (cmp i j))
    (fun i j o hne ho => congrArg some (h i j o hne ho)) hrun
  cases hsame.symm.trans hrun'
  exact horder

theorem StableSort.run_of_total (hs : StableSort sort) (cmp : Fin n → Fin n → Ordering)
    [Std.TransCmp cmp] (h : ∀ i j, i ≠ j → c i j = some (cmp i j)) :
    ∃ order, (sort n).run c = some order ∧ StableOrder cmp order := by
  obtain ⟨order, hrun, horder⟩ := hs n cmp
  refine ⟨order, Sorter.run_mono (fun i j o hne ho => ?_) hrun, horder⟩
  rw [h i j hne]
  exact ho

theorem StableOrder.mem {cmp : Fin n → Fin n → Ordering} (h : StableOrder cmp order) (i : Fin n) :
    i ∈ order :=
  h.perm.mem_iff.mpr (mem_finRange i)

/-- An order left open makes the sort fail: it would have to agree with both of its completions. -/
theorem StableSort.run_eq_none (hs : StableSort sort) {i j : Fin n} (hne : i ≠ j)
    (cmp cmp' : Fin n → Fin n → Ordering) [Std.TransCmp cmp] [Std.TransCmp cmp']
    (h : ∀ i j o, i ≠ j → c i j = some o → cmp i j = o)
    (h' : ∀ i j o, i ≠ j → c i j = some o → cmp' i j = o)
    (hlt : cmp i j = .lt) (hgt : cmp' i j = .gt) : (sort n).run c = none := by
  by_contra hrun
  obtain ⟨order, hrun⟩ := Option.ne_none_iff_exists'.mp hrun
  have ho := hs.order_of_run hrun cmp h
  have ho' := hs.order_of_run hrun cmp' h'
  have hboth := ho.sorted.and ho'.sorted
  have hji : cmp j i = .gt := Std.OrientedCmp.gt_of_lt hlt
  -- Whichever of the two comes first contradicts one of the orders.
  rcases pairwise_iff_getElem.mp hboth with hall
  obtain ⟨a, ha, hai⟩ := getElem_of_mem (ho.mem i)
  obtain ⟨b, hb, hbj⟩ := getElem_of_mem (ho.mem j)
  rcases lt_trichotomy a b with hab | hab | hab
  · have hpair := (hall a b ha hb hab).2
    rw [hai, hbj, hgt] at hpair
    simp at hpair
  · subst hab
    exact hne (hai.symm.trans hbj)
  · have hpair := (hall b a hb ha hab).1
    rw [hai, hbj, hji] at hpair
    simp at hpair

/-- Insert a position before the first that is not smaller. -/
def insertSorter (i : Fin n) (k : List (Fin n) → Sorter n) : List (Fin n) → Sorter n
  | [] => k [i]
  | j :: order =>
    if hne : i ≠ j then
      .ask i j hne fun answer =>
        if answer = .gt then insertSorter i (fun rest => k (j :: rest)) order
        else k (i :: j :: order)
    else k (i :: j :: order)

def sortSuffix : List (Fin n) → (List (Fin n) → Sorter n) → Sorter n
  | [], k => k []
  | i :: rest, k => sortSuffix rest fun order => insertSorter i k order

def insertionSorter (n : Nat) : Sorter n := sortSuffix (List.finRange n) .done

section

variable {cmp : Fin n → Fin n → Ordering} [Std.TransCmp cmp]

theorem insertSorter_run {i : Fin n} (hsmall : ∀ j ∈ order, i < j)
    (hsorted : order.Pairwise fun i j => cmp i j = .lt ∨ cmp i j = .eq ∧ i < j)
    (k : List (Fin n) → Sorter n) :
    ∃ order', order'.Perm (i :: order) ∧
      (order'.Pairwise fun i j => cmp i j = .lt ∨ cmp i j = .eq ∧ i < j) ∧
      (insertSorter i k order).run (fun i j => some (cmp i j)) =
        (k order').run fun i j => some (cmp i j) := by
  induction order generalizing k with
  | nil => exact ⟨[i], .refl _, pairwise_singleton _ _, rfl⟩
  | cons j order ih =>
    rw [forall_mem_cons] at hsmall
    rw [pairwise_cons] at hsorted
    have hne : i ≠ j := hsmall.1.ne
    rw [insertSorter, dif_pos hne, Sorter.run, Option.bind_some]
    by_cases hgt : cmp i j = .gt
    · obtain ⟨order', hperm, hpair, hrun⟩ := ih hsmall.2 hsorted.2 fun rest => k (j :: rest)
      refine ⟨j :: order', (hperm.cons j).trans (.swap i j order), ?_, by rw [if_pos hgt, hrun]⟩
      refine pairwise_cons.mpr ⟨fun x hx => ?_, hpair⟩
      rcases mem_cons.mp (hperm.mem_iff.mp hx) with rfl | hx
      · exact .inl (Std.OrientedCmp.lt_of_gt hgt)
      · exact hsorted.1 x hx
    · refine ⟨i :: j :: order, .refl _, ?_, by rw [if_neg hgt]⟩
      have hle : (cmp i j).isLE = true := by
        cases hcmp : cmp i j <;> simp_all
      refine pairwise_cons.mpr ⟨fun x hx => ?_, pairwise_cons.mpr hsorted⟩
      have hix : i < x := by
        rcases mem_cons.mp hx with rfl | hx
        · exact hsmall.1
        · exact hsmall.2 x hx
      have hlex : (cmp i x).isLE = true := by
        rcases mem_cons.mp hx with rfl | hx
        · exact hle
        · refine Std.TransCmp.isLE_trans hle ?_
          rcases hsorted.1 x hx with h | h <;> simp [h]
      cases hcmp : cmp i x <;> simp_all

theorem sortSuffix_run {positions : List (Fin n)} (hp : positions.Pairwise (· < ·))
    (k : List (Fin n) → Sorter n) :
    ∃ order, order.Perm positions ∧
      (order.Pairwise fun i j => cmp i j = .lt ∨ cmp i j = .eq ∧ i < j) ∧
      (sortSuffix positions k).run (fun i j => some (cmp i j)) =
        (k order).run fun i j => some (cmp i j) := by
  induction positions generalizing k with
  | nil => exact ⟨[], .refl _, .nil, rfl⟩
  | cons i rest ih =>
    rw [pairwise_cons] at hp
    obtain ⟨order, hperm, hpair, hrun⟩ := ih hp.2 fun order => insertSorter i k order
    have hsmall : ∀ j ∈ order, i < j := fun j hj => hp.1 j (hperm.mem_iff.mp hj)
    obtain ⟨order', hperm', hpair', hrun'⟩ := insertSorter_run hsmall hpair k
    exact ⟨order', hperm'.trans (hperm.cons i), hpair', by rw [sortSuffix, hrun, hrun']⟩

end

theorem insertionSorter_stable : StableSort insertionSorter := by
  intro n cmp _
  obtain ⟨order, hperm, hpair, hrun⟩ :=
    @sortSuffix_run n cmp _ _ (pairwise_lt_finRange n) .done
  exact ⟨order, hrun, hperm, hpair⟩

/-- Lists of comparisons, the first that decides. -/
def lexOrder {α : Type*} : List (α → α → Ordering) → α → α → Ordering
  | [] => fun _ _ => .eq
  | cmp :: rest => compareLex cmp (lexOrder rest)

theorem transCmp_lexOrder {α : Type*} {cmps : List (α → α → Ordering)}
    (h : ∀ cmp ∈ cmps, Std.TransCmp cmp) : Std.TransCmp (lexOrder cmps) := by
  induction cmps with
  | nil => exact { eq_swap := rfl, isLE_trans := fun _ _ => rfl }
  | cons cmp cmps ih =>
    rw [forall_mem_cons] at h
    have := h.1
    have := ih h.2
    exact inferInstanceAs (Std.TransCmp (compareLex cmp (lexOrder cmps)))

end Lib.ComparisonSort
