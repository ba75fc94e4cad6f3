import Stillflow.Lib.Kahn

/-! Kahn's check decides acyclicity. -/

namespace Lib.Kahn

open Std Lib.Fallible Lib.Maps Relation List Option

variable {κ ε : Type} [Ord κ] [TransOrd κ] [LawfulEqOrd κ] [DecidableEq κ]
  {nodes : List (κ × List κ)} {order popped : List κ} {fault : ε} {s s' : State κ}

/-- `a` has `b` among its inputs. -/
def Reads (nodes : List (κ × List κ)) (a b : κ) : Prop := ∃ inputs, (a, inputs) ∈ nodes ∧ b ∈ inputs

def Acyclic (nodes : List (κ × List κ)) : Prop := ∀ a, ¬TransGen (Reads nodes) a a

/-- A table of nodes with unique ids that read nodes only. -/
structure Closed (nodes : List (κ × List κ)) : Prop where
  nodup : (nodes.map Prod.fst).Nodup
  inputs : ∀ node ∈ nodes, ∀ input ∈ node.2, input ∈ nodes.map Prod.fst

theorem relaxAll_isOk {ds : List κ} {degrees : ExtTreeMap κ Nat} {ready : List κ}
    (h : ∀ x ∈ ds, ds.count x ≤ degrees[x]?.getD 0) :
    ∃ next, ds.foldlM (relax fault) (degrees, ready) = .ok next := by
  induction ds generalizing degrees ready with
  | nil => exact ⟨_, rfl⟩
  | cons d ds ih =>
    have hd := h d (by simp)
    rw [count_cons_self] at hd
    obtain ⟨n, hn⟩ : ∃ n, degrees[d]? = some (n + 1) := by
      cases hdegree : degrees[d]? with
      | none =>
        rw [hdegree] at hd
        simp at hd
      | some m =>
        rw [hdegree, getD_some] at hd
        exact ⟨m - 1, by rw [Nat.sub_add_cancel (by omega)]⟩
    have hrelax : relax fault (degrees, ready) d =
        .ok (degrees.insert d n, if n = 0 then ready ++ [d] else ready) := by
      unfold relax
      rw [hn]
    rw [foldlM_cons, hrelax, ok_bind]
    refine ih fun x hx => ?_
    by_cases hxd : x = d
    · subst hxd
      rw [ExtTreeMap.getElem?_insert_self, getD_some]
      rw [hn, getD_some] at hd
      omega
    · rw [getElem?_insert_ne hxd]
      have hx' := h x (mem_cons_of_mem _ hx)
      rwa [count_cons_of_ne (Ne.symm hxd)] at hx'

theorem Reached.step_isOk (hclosed : Closed nodes) (h : Reached nodes s popped) :
    (∃ next, step (dependentsOf nodes) fault s = .ok (.inl next)) ∨
      ∃ n, step (dependentsOf nodes) fault s = .ok (.inr n) := by
  cases hready : s.ready with
  | nil => exact .inr ⟨s.visited, step_eq_break.mpr ⟨hready, rfl⟩⟩
  | cons id rest =>
    have hid : id ∉ popped := by
      have hnodup := h.nodup
      rw [hready] at hnodup
      exact fun hmem => disjoint_of_nodup_append hnodup hmem (by simp)
    have hopen : ∀ x ∈ (dependentsOf nodes)[id]?.getD [],
        ((dependentsOf nodes)[id]?.getD []).count x ≤ s.degrees[x]?.getD 0 := by
      intro x hx
      obtain ⟨inputs, hnode, -⟩ := mem_of_dependentsOf hx
      rw [count_dependentsOf hclosed.nodup hnode, h.degree _ hnode, getD_some,
        List.count]
      refine countP_mono_left fun input _ heq => ?_
      have : input = id := by simpa using heq
      simpa [this] using hid
    obtain ⟨next, hnext⟩ := @relaxAll_isOk κ ε _ _ _ _ fault _ s.degrees rest hopen
    exact .inl ⟨⟨next.2, next.1, s.visited + 1⟩,
      step_eq_continue.mpr ⟨id, rest, hready, hnext, rfl⟩⟩

/-- As `Reached`, and no node is forgotten. -/
structure Settled (nodes : List (κ × List κ)) (s : State κ) (popped : List κ) : Prop
    extends Reached nodes s popped where
  queued : ∀ node ∈ nodes, s.degrees[node.1]? = some 0 → node.1 ∈ popped ++ s.ready

theorem settled_step (hclosed : Closed nodes) (h : Settled nodes s popped)
    (hs : step (dependentsOf nodes) fault s = .ok (.inl s')) :
    ∃ id, Settled nodes s' (popped ++ [id]) := by
  obtain ⟨id, rest, hready, hreached, fresh, hready', hfresh⟩ :=
    reached_step hclosed.nodup h.toReached hs
  refine ⟨id, hreached, fun node hnode hzero => ?_⟩
  have hsplit : popped ++ [id] ++ s'.ready = (popped ++ s.ready) ++ fresh := by
    rw [hready', hready]
    simp
  rw [hsplit, mem_append]
  by_cases hold : s.degrees[node.1]? = some 0
  · exact .inl (h.queued node hnode hold)
  · -- its last open inputs are closed in this step
    refine .inr ((hfresh node.1).mpr ⟨?_, hzero⟩)
    have hbefore := h.degree node hnode
    have hafter := hreached.degree node hnode
    rw [hzero] at hafter
    rw [hbefore] at hold
    have hcount : node.2.countP (· ∉ popped ++ [id]) = 0 := (some.inj hafter).symm
    have hpos : node.2.countP (· ∉ popped) ≠ 0 := fun hz => hold (by rw [hz])
    obtain ⟨input, hinput, hopen⟩ := countP_pos_iff.mp (Nat.pos_of_ne_zero hpos)
    have hclosedNow := countP_eq_zero.mp hcount input hinput
    have hid : input = id := by
      simp only [decide_eq_true_eq, mem_append, mem_singleton] at hopen hclosedNow
      tauto
    have hreads := count_dependentsOf hclosed.nodup hnode id
    refine count_pos_iff.mp ?_
    rw [hreads]
    exact count_pos_iff.mpr (hid ▸ hinput)

theorem settled_init (hclosed : Closed nodes) (horder : order.Perm (nodes.map Prod.fst)) :
    Settled nodes
      ⟨order.filter fun id => (degreesOf nodes)[id]? = some 0, degreesOf nodes, 0⟩ [] where
  toReached := reached_init hclosed.nodup (horder.nodup_iff.mpr hclosed.nodup)
  queued node hnode hzero := by
    rw [nil_append, mem_filter]
    exact ⟨horder.mem_iff.mpr (mem_map.mpr ⟨node, hnode, rfl⟩), by simpa using hzero⟩

/-- A rank that falls along every input rules out cycles. -/
theorem acyclic_of_rank {rank : κ → Nat}
    (h : ∀ node ∈ nodes, ∀ input ∈ node.2, rank input < rank node.1) : Acyclic nodes := by
  have hfalls : ∀ {a b}, TransGen (Reads nodes) a b → rank b < rank a := by
    intro a b hab
    induction hab with
    | single hread =>
      obtain ⟨inputs, hnode, hinput⟩ := hread
      exact h _ hnode _ hinput
    | tail _ hread ih =>
      obtain ⟨inputs, hnode, hinput⟩ := hread
      exact (h _ hnode _ hinput).trans ih
  exact fun a ha => (hfalls ha).false

/-- Without a cycle, some node of every nonempty set of nodes reads none of them. -/
theorem exists_bottom (hacyclic : Acyclic nodes) (p : κ → Prop) {a : κ}
    (ha : a ∈ nodes.map Prod.fst) (hp : p a) :
    ∃ b ∈ nodes.map Prod.fst, p b ∧ ∀ c ∈ nodes.map Prod.fst, p c → ¬Reads nodes b c := by
  let below : {x // x ∈ nodes.map Prod.fst} → {x // x ∈ nodes.map Prod.fst} → Prop :=
    fun c b => TransGen (Reads nodes) b.1 c.1
  have : IsTrans _ below := ⟨fun _ _ _ hab hbc => hbc.trans hab⟩
  have : Std.Irrefl below := ⟨fun x => hacyclic x.1⟩
  have hwf : WellFounded below := Finite.wellFounded_of_trans_of_irrefl below
  obtain ⟨b, hb, hmin⟩ := hwf.has_min {x | p x.1} ⟨⟨a, ha⟩, hp⟩
  refine ⟨b.1, b.2, hb, fun c hc hpc hread => ?_⟩
  exact hmin ⟨c, hc⟩ hpc (TransGen.single hread)

theorem Settled.all_popped (hclosed : Closed nodes) (hacyclic : Acyclic nodes)
    (h : Settled nodes s popped) (hready : s.ready = []) :
    ∀ a ∈ nodes.map Prod.fst, a ∈ popped := by
  intro a ha
  by_contra hnot
  obtain ⟨b, hb, hopen, hbottom⟩ := exists_bottom hacyclic (· ∉ popped) ha hnot
  obtain ⟨⟨_, inputs⟩, hnode, rfl⟩ := mem_map.mp hb
  have hzero : inputs.countP (· ∉ popped) = 0 := by
    refine countP_eq_zero.mpr fun input hinput hfree => ?_
    exact hbottom input (hclosed.inputs _ hnode input hinput) (by simpa using hfree)
      ⟨inputs, hnode, hinput⟩
  have hqueued := h.queued _ hnode (by rw [h.degree _ hnode, hzero])
  rw [hready, append_nil] at hqueued
  exact hopen hqueued

/-- The check answers, and counts every node exactly on acyclic tables. -/
theorem run_acyclic (hclosed : Closed nodes) (horder : order.Perm (nodes.map Prod.fst)) (fault : ε) :
    ∃ n, run nodes order fault = .ok n ∧ (n = nodes.length ↔ Acyclic nodes) := by
  have hstart := settled_init hclosed horder
  obtain ⟨n, hrun⟩ := (loop (dependentsOf nodes) fault).run_progress
    (fun s => ∃ popped, Settled nodes s popped)
    (fun {s} hs => by
      obtain ⟨popped, hsettled⟩ := hs
      rcases hsettled.step_isOk hclosed with ⟨next, hnext⟩ | hbreak
      · obtain ⟨id, hsettled'⟩ := settled_step hclosed hsettled hnext
        exact .inl ⟨next, hnext, _, hsettled'⟩
      · exact .inr hbreak) ⟨[], hstart⟩
  refine ⟨n, hrun, ?_, ?_⟩
  · rintro rfl
    obtain ⟨rank, hrank⟩ := run_ranked hclosed.nodup (horder.nodup_iff.mpr hclosed.nodup) hrun
    exact acyclic_of_rank hrank
  · intro hacyclic
    obtain ⟨s, popped, hsettled, hready, rfl⟩ := (loop (dependentsOf nodes) fault).run_invariant
      (fun s => ∃ popped, Settled nodes s popped)
      (fun n => ∃ s popped, Settled nodes s popped ∧ s.ready = [] ∧ s.visited = n)
      (fun ⟨popped, hsettled⟩ hs => by
        obtain ⟨id, hsettled'⟩ := settled_step hclosed hsettled hs
        exact ⟨_, hsettled'⟩)
      (fun ⟨popped, hsettled⟩ hs => by
        obtain ⟨hempty, rfl⟩ := step_eq_break.mp hs
        exact ⟨_, popped, hsettled, hempty, rfl⟩)
      ⟨[], hstart⟩ hrun
    have hnodup : popped.Nodup := hsettled.nodup.of_append_left
    have hsub : popped ⊆ nodes.map Prod.fst := fun x hx =>
      hsettled.known x (by rw [hsettled.done x (mem_append_left _ hx)]; rfl)
    have hsup : nodes.map Prod.fst ⊆ popped := hsettled.all_popped hclosed hacyclic hready
    have hperm := (subperm_of_subset hnodup hsub).antisymm
      (subperm_of_subset hclosed.nodup hsup)
    rw [hsettled.visited, hperm.length_eq, length_map]

end Lib.Kahn
