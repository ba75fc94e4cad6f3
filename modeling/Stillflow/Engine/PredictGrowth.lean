import Stillflow.Engine.Predict
import Stillflow.Lib.Lockstep

/-! Predictions grow with the slice. -/

namespace Stillflow.Engine

open Stillflow.Core Stillflow.Plan Lib Lib.Fallible List

variable {a a' b b' k k' : Nat}

theorem saturatingAdd_mono (ha : a ≤ a') (hb : b ≤ b') :
    saturatingAdd a b ≤ saturatingAdd a' b' := by
  unfold saturatingAdd
  omega

theorem saturatingMul_mono (ha : a ≤ a') (hb : b ≤ b') :
    saturatingMul a b ≤ saturatingMul a' b' := by
  unfold saturatingMul
  have := Nat.mul_le_mul ha hb
  omega

theorem divCeil_mono {d : Nat} (h : a ≤ a') : divCeil a d ≤ divCeil a' d := by
  exact Nat.div_le_div_right (by omega)

theorem fixedPhysicalBytes_mono (h : k ≤ k') (slot : Nat) :
    fixedPhysicalBytes k slot ≤ fixedPhysicalBytes k' slot :=
  saturatingAdd_mono (saturatingMul_mono h le_rfl) (divCeil_mono h)

theorem utf8PhysicalBytes_mono (h : k ≤ k') (hb : b ≤ b') :
    utf8PhysicalBytes k b ≤ utf8PhysicalBytes k' b' := by
  have hviews := saturatingMul_mono h (le_refl utf8ViewSlotBytes)
  have hoffsets := saturatingMul_mono (saturatingAdd_mono h (le_refl 1)) (le_refl utf8OffsetSlotBytes)
  exact saturatingAdd_mono (saturatingAdd_mono (saturatingAdd_mono hb hviews) hoffsets)
    (divCeil_mono h)

theorem sliceEnd_mono (array : ArrowArray) (offset : Nat) (h : k ≤ k') :
    sliceEnd array offset k ≤ sliceEnd array offset k' := by
  unfold sliceEnd
  have := saturatingAdd_mono (le_refl offset) h
  omega

theorem sliceRows_append (array : ArrowArray) (offset : Nat) (h : k ≤ k') :
    ∃ rest, sliceRows array offset k' = sliceRows array offset k ++ rest := by
  have hend := sliceEnd_mono array offset h
  unfold sliceRows
  have hsplit : sliceEnd array offset k' - offset = (sliceEnd array offset k - offset) +
      (sliceEnd array offset k' - offset - (sliceEnd array offset k - offset)) := by omega
  rw [hsplit, ← range'_append_1]
  exact ⟨_, rfl⟩

theorem le_foldl {α : Type} {f : Nat → α → Nat} (hf : ∀ n x, n ≤ f n x) (l : List α) (n : Nat) :
    n ≤ l.foldl f n := by
  induction l generalizing n with
  | nil => exact le_rfl
  | cons x l ih => exact (hf n x).trans (ih (f n x))

theorem maxVariableWidth_mono (array : ArrowArray) (offset : Nat) (dataType : LogicalType)
    (h : k ≤ k') :
    maxVariableWidth array offset k dataType ≤ maxVariableWidth array offset k' dataType := by
  unfold maxVariableWidth
  split_ifs
  · exact le_rfl
  · obtain ⟨rest, hrest⟩ := sliceRows_append array offset h
    rw [hrest, foldl_append]
    exact le_foldl (fun _ _ => Nat.le_max_left _ _) _ _

theorem offsetAt_mono (slots : List ArraySlot) (h : a ≤ a') :
    offsetAt slots a ≤ offsetAt slots a' := by
  unfold offsetAt
  obtain ⟨d, rfl⟩ := Nat.exists_eq_add_of_le h
  rw [take_add, map_append, sum_append]
  exact Nat.le_add_right _ _

theorem le_foldl_saturatingAdd (l : List Nat) (f : Nat → Nat) (hn : a ≤ usizeMax) :
    a ≤ l.foldl (fun total row => saturatingAdd total (f row)) a ∧
      l.foldl (fun total row => saturatingAdd total (f row)) a ≤ usizeMax := by
  induction l generalizing a with
  | nil => exact ⟨le_rfl, hn⟩
  | cons row l ih =>
    have hstep : a ≤ saturatingAdd a (f row) ∧ saturatingAdd a (f row) ≤ usizeMax := by
      unfold saturatingAdd
      omega
    obtain ⟨hle, hmax⟩ := ih hstep.2
    exact ⟨hstep.1.trans hle, hmax⟩

theorem variableDataBytes_mono (array : ArrowArray) (offset : Nat) (h : k ≤ k') :
    variableDataBytes array offset k ≤ variableDataBytes array offset k' := by
  have hsum : (sliceRows array offset k).foldl
      (fun total row => saturatingAdd total (array.widthAt row)) 0 ≤
      (sliceRows array offset k').foldl
        (fun total row => saturatingAdd total (array.widthAt row)) 0 := by
    obtain ⟨rest, hrest⟩ := sliceRows_append array offset h
    rw [hrest, foldl_append]
    exact (le_foldl_saturatingAdd rest _ (le_foldl_saturatingAdd _ _ (Nat.zero_le _)).2).1
  unfold variableDataBytes
  split
  · rename_i slots
    have hend := sliceEnd_mono (.bytes .utf8 slots) offset h
    have hoffset := offsetAt_mono slots hend
    split_ifs <;> omega
  · exact hsum

mutual

theorem nestedOrVariableBytes_lockstep {k k' : Nat} (h : k ≤ k') (array : ArrowArray) (offset : Nat)
    (dataType : LogicalType) :
    Lockstep (· ≤ ·) (nestedOrVariableBytes array offset k dataType)
      (nestedOrVariableBytes array offset k' dataType) := by
  unfold nestedOrVariableBytes
  split
  · exact .ok (fixedPhysicalBytes_mono h _)
  · split
    · rename_i inner first slots values _
      by_cases hoffset : offset ≤ slots.length
      · have hend : min (saturatingAdd offset k) slots.length ≤
            min (saturatingAdd offset k') slots.length := by
          have := saturatingAdd_mono (le_refl offset) h
          omega
        have hchild := offsetAt_mono slots hend
        simp only [require, if_pos hoffset, ok_bind]
        refine (nestedOrVariableBytes_lockstep (by omega) values _ inner).bind ?_
        intro bytes bytes' hbytes
        exact .ok (saturatingAdd_mono (saturatingAdd_mono (divCeil_mono h)
          (saturatingMul_mono (saturatingAdd_mono h le_rfl) le_rfl)) hbytes)
      · simp only [require, if_neg hoffset, error_bind]
        exact .error _
    · exact .error _
    · exact structBytes_lockstep h _ offset _ (divCeil_mono h)
    · exact .error _
    · exact .ok (utf8PhysicalBytes_mono h (variableDataBytes_mono _ offset h))

theorem structBytes_lockstep {k k' a b : Nat} (h : k ≤ k') (columns : List ArrowArray) (offset : Nat)
    (fields : List LogicalField) (hab : a ≤ b) :
    Lockstep (· ≤ ·) (structBytes columns offset k fields a)
      (structBytes columns offset k' fields b) := by
  match columns, fields with
  | child :: columns, field :: fields =>
    rw [structBytes, structBytes]
    refine (nestedOrVariableBytes_lockstep h child offset field.dataType).bind ?_
    intro bytes bytes' hbytes
    exact structBytes_lockstep h columns offset fields (saturatingAdd_mono hab hbytes)
  | [], _ =>
    rw [structBytes, structBytes]
    · exact .ok hab
    all_goals simp
  | _ :: _, [] =>
    rw [structBytes, structBytes]
    · exact .ok hab
    all_goals simp

end

end Stillflow.Engine
