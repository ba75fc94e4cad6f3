import Stillflow.Plan.Semantics

/-! An expression that is analyzed passes the reference walk and the capability gates as well. -/

namespace Stillflow.Plan

open Stillflow.Core Lib.Fallible Lib.WorkStack Capability

variable {e : Expr} {resolver : ColumnResolver} {r : LogicalType × Bool} {es : List Expr}

@[simp] theorem resolver_require_eq_ok {id : ColumnId} {f : LogicalField} :
    resolver.require id = .ok f ↔ resolver id = some f := by
  unfold ColumnResolver.require
  cases resolver id <;> simp

mutual

/-- Every column the expression mentions resolves. -/
def Resolves (resolver : ColumnResolver) : Expr → Prop
  | .column id => ∃ f, resolver id = some f
  | .literal _ => True
  | .unary _ e | .isNull e _ | .cast e _ | .substring e _ _ => Resolves resolver e
  | .binary left _ right => Resolves resolver left ∧ Resolves resolver right
  | .conditional p t o => Resolves resolver p ∧ Resolves resolver t ∧ Resolves resolver o
  | .coalesce es | .concat es => AllResolve resolver es

def AllResolve (resolver : ColumnResolver) : List Expr → Prop
  | [] => True
  | e :: es => Resolves resolver e ∧ AllResolve resolver es

end

theorem allResolve_iff : AllResolve resolver es ↔ ∀ e ∈ es, Resolves resolver e := by
  induction es with
  | nil => simp [AllResolve]
  | cons e es ih => simp [AllResolve, ih]

theorem resolves_operands (h : Resolves resolver e) : ∀ u ∈ operands e, Resolves resolver u := by
  cases e with
  | coalesce es | concat es =>
    intro u hu
    exact allResolve_iff.mp h u (by simpa [operands] using hu)
  | _ => simp_all [operands, Resolves]

theorem checkReference_eq_ok (h : Resolves resolver e) : checkReference resolver e = .ok () := by
  cases e with
  | column id =>
    obtain ⟨f, hf⟩ := h
    simp [checkReference, ColumnResolver.require, hf]
  | _ => rfl

def Inferred (resolver : ColumnResolver) (e : Expr) : Prop := ∃ r, inferExpr resolver e = .ok r

theorem inferred_of_concatArms {n n' : Bool}
    (h : inferConcatArms resolver es n = .ok n') : ∀ e ∈ es, Inferred resolver e := by
  induction es generalizing n with
  | nil => simp
  | cons e es ih =>
    obtain ⟨arm, ha, h⟩ := of_bind h
    obtain ⟨-, -, h⟩ := of_bind h
    exact List.forall_mem_cons.mpr ⟨⟨arm, ha⟩, ih h⟩

theorem inferred_of_coalesceArms {seen seen' : Option LogicalType × Bool}
    (h : inferCoalesceArms resolver es seen = .ok seen') : ∀ e ∈ es, Inferred resolver e := by
  induction es generalizing seen with
  | nil => simp
  | cons e es ih =>
    obtain ⟨arm, ha, h⟩ := of_bind h
    obtain ⟨_, -, h⟩ := of_bind h
    exact List.forall_mem_cons.mpr ⟨⟨arm, ha⟩, ih h⟩

theorem inferred_operands (h : Inferred resolver e) : ∀ u ∈ operands e, Inferred resolver u := by
  obtain ⟨r, h⟩ := h
  cases e with
  | column _ | literal _ => simp [operands]
  | unary operator e =>
    cases operator with
    | negate => cases h
    | not =>
      obtain ⟨inner, hi, -⟩ := of_bind h
      simpa [operands] using ⟨inner, hi⟩
  | isNull e _ | cast e _ | substring e _ _ =>
    obtain ⟨inner, hi, -⟩ := of_bind h
    simpa [operands] using ⟨inner, hi⟩
  | binary left _ right =>
    obtain ⟨l, hl, h⟩ := of_bind h
    obtain ⟨r, hr, -⟩ := of_bind h
    simpa [operands] using ⟨⟨r, hr⟩, ⟨l, hl⟩⟩
  | conditional p t o =>
    obtain ⟨p', hp, h⟩ := of_bind h
    obtain ⟨-, -, h⟩ := of_bind h
    obtain ⟨t', ht, h⟩ := of_bind h
    obtain ⟨o', ho, -⟩ := of_bind h
    simpa [operands] using ⟨⟨o', ho⟩, ⟨t', ht⟩, ⟨p', hp⟩⟩
  | concat es =>
    obtain ⟨-, -, h⟩ := of_bind h
    obtain ⟨n, hn, -⟩ := of_bind h
    simpa [operands] using inferred_of_concatArms hn
  | coalesce es =>
    obtain ⟨arms, ha, -⟩ := of_bind h
    simpa [operands] using inferred_of_coalesceArms ha

theorem resolves_of_inferred (h : Inferred resolver e) : Resolves resolver e := by
  induction e using Expr.induction_operands with
  | step e ih =>
    have hops := fun u hu => ih u hu (inferred_operands h u hu)
    cases e with
    | column id =>
      obtain ⟨_, h⟩ := h
      obtain ⟨f, hf, -⟩ := of_bind h
      exact ⟨f, resolver_require_eq_ok.mp hf⟩
    | coalesce es | concat es => exact allResolve_iff.mpr (by simpa [operands] using hops)
    | _ => simp_all [operands, Resolves]

section Bounded

variable {σ ε : Type} {W : Walk (Expr × Nat) σ ε} {P : Expr → Prop} {R : Nat → σ → Prop}

/-- A walk over the same operands, from the same depth or above, stays within the bounds. -/
theorem run_of_shapeBounds (hP : ∀ {u}, P u → ∀ v ∈ operands u, P v)
    (hvisit : ∀ {u depth nodes s}, P u → R nodes s → nodes < maxExprNodes → depth ≤ maxExprDepth →
      ∃ s₁, W.visit (u, depth) s = .ok ((operands u).map (·, depth + 1), s₁) ∧ R (nodes + 1) s₁)
    {depth depth' : Nat} {seen seen₁ : Nat × Nat} {s : σ} (hdepth : depth' ≤ depth) (he : P e)
    (hs : R seen.1 s) (h : shapeBoundsWalk.run [(e, depth)] seen = .ok seen₁) :
    ∃ s₁, W.run [(e, depth')] s = .ok s₁ := by
  have hstart : List.Forall₂ (fun t t' : Expr × Nat => t'.1 = t.1 ∧ P t.1 ∧ t'.2 ≤ t.2)
      [(e, depth)] [(e, depth')] := .cons ⟨rfl, he, hdepth⟩ .nil
  have hsim := Walk.run_of_simulation W _ (fun seen s => R seen.1 s) ?_ hstart hs h
  · obtain ⟨s₁, hrun, -⟩ := hsim
    exact ⟨s₁, hrun⟩
  · rintro ⟨_, d⟩ ⟨u, d'⟩ ⟨nodes, maxDepth⟩ s ts seen₁ ⟨rfl, hu, hd⟩ hs hv
    obtain ⟨_, hbounds, hv⟩ := of_bind hv
    cases hv
    have hfit := require_eq_ok.mp hbounds
    simp only [saturatingAdd, usizeMax, maxExprNodes, maxExprDepth] at hfit hd
    have hnodes : saturatingAdd nodes 1 = nodes + 1 := by
      simp only [saturatingAdd, usizeMax]
      omega
    obtain ⟨s₁, hv', hs₁⟩ := @hvisit u d' nodes s hu hs (by simp only [maxExprNodes]; omega)
      (by simp only [maxExprDepth]; omega)
    refine ⟨_, s₁, hv', ?_, by rwa [hnodes]⟩
    simp only [List.forall₂_map_left_iff, List.forall₂_map_right_iff, List.forall₂_same]
    exact fun v hv => ⟨trivial, hP hu v hv, by omega⟩

end Bounded

theorem checkShapeBounds_operands (h : checkShapeBounds e = .ok ()) :
    ∀ u ∈ operands e, checkShapeBounds u = .ok () := by
  intro u hu
  obtain ⟨seen, hrun, -⟩ := of_bind h
  rw [Walk.run_singleton] at hrun
  obtain ⟨⟨ts, seen'⟩, hv, hrun⟩ := of_bind hrun
  obtain ⟨-, -, hv⟩ := of_bind hv
  cases hv
  obtain ⟨s, s₁, hu⟩ := shapeBoundsWalk.run_of_mem hrun (List.mem_map_of_mem hu)
  -- the operand starts over, one level higher and with fewer nodes seen
  have hagain := run_of_shapeBounds (W := shapeBoundsWalk) (P := fun _ => True)
    (R := fun nodes seen => seen.1 ≤ nodes ∧ seen.2 ≤ maxExprDepth) (fun _ _ _ => trivial) ?_
    (Nat.le_succ 1) trivial (s := (0, 0)) (by simp) hu
  · obtain ⟨seen', hrun'⟩ := hagain
    simp [checkShapeBounds, hrun']
  · rintro u depth nodes ⟨n, m⟩ - ⟨hn, hm⟩ hnodes hdepth
    have hsat : saturatingAdd n 1 ≤ nodes + 1 := by
      simp only [saturatingAdd]
      omega
    refine ⟨(saturatingAdd n 1, max m depth), ?_, hsat, by simpa using ⟨hm, hdepth⟩⟩
    have hb : ¬(saturatingAdd n 1 > maxExprNodes ∨ max m depth > maxExprDepth) := by omega
    exact bind_eq_ok.mpr ⟨(), require_eq_ok.mpr hb, rfl⟩

/-- Both bounded walks push the same operands and count the same nodes. -/
theorem exprRefsWalk_of_shapeBounds {seen : Nat × Nat} (hr : Resolves resolver e)
    (h : shapeBoundsWalk.run [(e, 1)] (0, 0) = .ok seen) :
    ∃ nodes, (exprRefsWalk resolver).run [(e, 1)] 0 = .ok nodes := by
  refine run_of_shapeBounds (R := fun nodes s => s = nodes) resolves_operands ?_ le_rfl hr rfl h
  rintro u depth _ nodes hu rfl hnodes hdepth
  have hsat : saturatingAdd nodes 1 = nodes + 1 := by
    simp only [saturatingAdd, usizeMax, maxExprNodes] at *
    omega
  have hb : ¬(saturatingAdd nodes 1 > maxExprNodes ∨ depth > maxExprDepth) := by omega
  refine ⟨_, bind_eq_ok.mpr ⟨(), require_eq_ok.mpr hb, ?_⟩, hsat⟩
  exact bind_eq_ok.mpr ⟨(), checkReference_eq_ok hu, rfl⟩

theorem validateExprRefs_of_analyzeExpr
    (h : analyzeExpr e resolver = .ok r) : validateExprRefs e resolver = .ok () := by
  obtain ⟨_, hshape, h⟩ := of_bind h
  obtain ⟨_, hbounds, hinfer⟩ := of_bind h
  obtain ⟨seen, hrun, -⟩ := of_bind hbounds
  obtain ⟨nodes, hrefs⟩ := exprRefsWalk_of_shapeBounds (resolves_of_inferred ⟨r, hinfer⟩) hrun
  simp [validateExprRefs, hshape, hrefs]

theorem rejectPausedCapabilities_eq_ok :
    rejectPausedCapabilities es = .ok () ↔ ∀ e ∈ es, rejectPausedCapability e = .ok () := by
  induction es with
  | nil => simp [rejectPausedCapabilities]
  | cons e es ih => simp [rejectPausedCapabilities, bind_eq_ok, ih]

theorem isArithmetic_of_inferBinary {operator : BinaryOperator} {l t : LogicalType × Bool}
    (h : inferBinary operator l r = .ok t) : isArithmetic operator = false := by
  cases operator with
  | add | subtract | multiply | divide | modulo => cases h
  | _ => rfl

theorem rejectPausedCapability_of_inferred (h : Inferred resolver e) :
    rejectPausedCapability e = .ok () := by
  induction e using Expr.induction_operands with
  | step e ih =>
    have hops := fun u hu => ih u hu (inferred_operands h u hu)
    obtain ⟨r, h⟩ := h
    cases e with
    | unary operator e =>
      cases operator with
      | negate => cases h
      | not => simp_all [operands, rejectPausedCapability]
    | cast e dataType =>
      obtain ⟨_, -, h⟩ := of_bind h
      obtain ⟨_, htype, -⟩ := of_bind h
      simp_all [operands, rejectPausedCapability]
    | binary left operator right =>
      obtain ⟨_, -, h⟩ := of_bind h
      obtain ⟨_, -, h⟩ := of_bind h
      have harith := isArithmetic_of_inferBinary h
      simp_all [operands, rejectPausedCapability, require]
    | coalesce es | concat es =>
      simpa [rejectPausedCapability, rejectPausedCapabilities_eq_ok, operands] using hops
    | _ => simp_all [operands, rejectPausedCapability]

theorem rejectPausedCastsInExprs_eq_ok : rejectPausedCastsInExprs resolver es =
    .ok () ↔ ∀ e ∈ es, rejectPausedCastsInExpr resolver e = .ok () := by
  induction es with
  | nil => simp [rejectPausedCastsInExprs]
  | cons e es ih => simp [rejectPausedCastsInExprs, bind_eq_ok, ih]

theorem analyzeExpr_eq_ok : analyzeExpr e resolver = .ok r ↔
    e.validateShape = .ok () ∧ checkShapeBounds e = .ok () ∧ inferExpr resolver e = .ok r := by
  simp [analyzeExpr, shapeGate, bind_eq_ok]

/-- Whatever is analyzed has its operands analyzed, each as an expression of its own. -/
theorem analyzeExpr_operand (h : analyzeExpr e resolver = .ok r) {u : Expr}
    (hu : u ∈ operands e) : ∃ r', analyzeExpr u resolver = .ok r' := by
  obtain ⟨hshape, hbounds, hinfer⟩ := analyzeExpr_eq_ok.mp h
  obtain ⟨-, -, hshapes⟩ := validateShape_node hshape
  obtain ⟨r', hr'⟩ := inferred_operands ⟨r, hinfer⟩ u hu
  exact ⟨r', analyzeExpr_eq_ok.mpr ⟨hshapes u hu, checkShapeBounds_operands hbounds u hu, hr'⟩⟩

theorem rejectPausedCastsInExpr_of_analyzeExpr
    (h : analyzeExpr e resolver = .ok r) : rejectPausedCastsInExpr resolver e = .ok () := by
  induction e using Expr.induction_operands generalizing r with
  | step e ih =>
    have hops : ∀ u ∈ operands e, rejectPausedCastsInExpr resolver u = .ok () := by
      intro u hu
      obtain ⟨r', hr'⟩ := analyzeExpr_operand h hu
      exact ih u hu hr'
    cases e with
    | cast e dataType =>
      obtain ⟨inner, hinner⟩ := analyzeExpr_operand h (List.mem_singleton_self e)
      -- the gate analyzes the operand again and meets the same type
      obtain ⟨-, -, hinfer⟩ := analyzeExpr_eq_ok.mp h
      obtain ⟨inner', hi, hinfer⟩ := of_bind hinfer
      obtain ⟨_, -, hinfer⟩ := of_bind hinfer
      obtain ⟨_, hcast, -⟩ := of_bind hinfer
      obtain rfl : inner = inner' := by
        have := (analyzeExpr_eq_ok.mp hinner).2.2
        simp_all
      simp_all [operands, rejectPausedCastsInExpr]
    | coalesce es | concat es =>
      simpa [rejectPausedCastsInExpr, rejectPausedCastsInExprs_eq_ok, operands] using hops
    | _ => simp_all [operands, rejectPausedCastsInExpr]

end Stillflow.Plan
