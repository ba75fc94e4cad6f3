import Stillflow.Lib.Loop
import Stillflow.Lib.Maps

/-!
Kahn's acyclicity check over nodes listed with their inputs: a queue of nodes without open inputs,
and the number of nodes taken from it.
-/

namespace Lib.Kahn

open Std Lib.Fallible Lib.Maps List

variable {κ ε : Type} [Ord κ] [TransOrd κ] [LawfulEqOrd κ] {a : κ} {fault : ε}
  {nodes : List (κ × List κ)}

/-- Open inputs of every node. -/
def degreesOf (nodes : List (κ × List κ)) : ExtTreeMap κ Nat :=
  nodes.foldl (fun degrees node => node.2.foldl
      (fun degrees _ => degrees.alter node.1 fun degree => some (degree.getD 0 + 1)) degrees)
    (nodes.foldl (fun degrees node => degrees.insert node.1 0) ∅)

/-- The nodes that read each node, once per reading input. -/
def dependentsOf (nodes : List (κ × List κ)) : ExtTreeMap κ (List κ) :=
  nodes.foldl (fun dependents node => node.2.foldl
    (fun dependents input => dependents.alter input fun readers =>
      some (readers.getD [] ++ [node.1])) dependents) ∅

/-- Close one input of a dependent, which becomes ready with its last one. -/
def relax (fault : ε) (state : ExtTreeMap κ Nat × List κ) (dependent : κ) :
    Except ε (ExtTreeMap κ Nat × List κ) :=
  match state.1[dependent]? with
  | none | some 0 => .error fault
  | some (degree + 1) =>
    .ok (state.1.insert dependent degree,
      if degree = 0 then state.2 ++ [dependent] else state.2)

structure State (κ : Type) [Ord κ] where
  ready : List κ
  degrees : ExtTreeMap κ Nat
  visited : Nat

/-- Open inputs of the whole graph. -/
def openInputs (degrees : ExtTreeMap κ Nat) : Nat :=
  (degrees.keys.map fun key => degrees[key]?.getD 0).sum

omit [Ord κ] [TransOrd κ] [LawfulEqOrd κ] in
private theorem sum_map_succ {l : List κ} {f g : κ → Nat} (hn : l.Nodup) (ha : a ∈ l)
    (hfa : f a = g a + 1) (hf : ∀ b, b ≠ a → f b = g b) : (l.map f).sum = (l.map g).sum + 1 := by
  induction l with
  | nil => cases ha
  | cons b l ih =>
    rw [nodup_cons] at hn
    rw [map_cons, sum_cons, map_cons, sum_cons]
    by_cases hb : b = a
    · subst hb
      have hl : l.map f = l.map g := map_congr_left fun c hc =>
        hf c fun h => hn.1 (h ▸ hc)
      rw [hl, hfa]
      omega
    · have ha' : a ∈ l := (mem_cons.mp ha).resolve_left (Ne.symm hb)
      rw [hf b hb, ih hn.2 ha']
      omega

private theorem openInputs_insert {degrees : ExtTreeMap κ Nat} {n : Nat}
    (ha : degrees[a]? = some (n + 1)) :
    openInputs degrees = openInputs (degrees.insert a n) + 1 := by
  have hmem : a ∈ degrees := ExtTreeMap.mem_iff_isSome_getElem?.mpr (by rw [ha]; rfl)
  have hkeys : (degrees.insert a n).keys.Perm degrees.keys := by
    refine (perm_ext_iff_of_nodup ExtTreeMap.nodup_keys ExtTreeMap.nodup_keys).mpr fun b => ?_
    rw [ExtTreeMap.mem_keys, ExtTreeMap.mem_keys, ExtTreeMap.mem_insert]
    constructor
    · rintro (heq | hb)
      · exact LawfulEqOrd.eq_of_compare heq ▸ hmem
      · exact hb
    · exact .inr
  have hsum := (hkeys.map fun key => (degrees.insert a n)[key]?.getD 0).sum_nat
  unfold openInputs
  rw [hsum]
  refine sum_map_succ ExtTreeMap.nodup_keys (ExtTreeMap.mem_keys.mpr hmem) ?_ fun b hb => ?_
  · rw [ha, ExtTreeMap.getElem?_insert_self]
    rfl
  · rw [getElem?_insert_ne hb]

private theorem relax_size {state state' : ExtTreeMap κ Nat × List κ} {dependent : κ}
    (h : relax fault state dependent = .ok state') :
    2 * openInputs state'.1 + state'.2.length ≤ 2 * openInputs state.1 + state.2.length := by
  unfold relax at h
  split at h
  · cases h
  · cases h
  · rename_i degree hdegree
    cases h
    have hopen := openInputs_insert hdegree
    dsimp only
    split_ifs
    · rw [length_append, length_singleton]
      omega
    · omega

private theorem relaxAll_size {dependents : List κ} {state state' : ExtTreeMap κ Nat × List κ}
    (h : dependents.foldlM (relax fault) state = .ok state') :
    2 * openInputs state'.1 + state'.2.length ≤ 2 * openInputs state.1 + state.2.length := by
  induction dependents generalizing state with
  | nil =>
    cases h
    exact le_rfl
  | cons d ds ih =>
    rw [foldlM_cons] at h
    obtain ⟨mid, hmid, hrest⟩ := of_bind h
    exact (ih hrest).trans (relax_size hmid)

/-- Take the first ready node and close the inputs that read it. -/
def step (dependents : ExtTreeMap κ (List κ)) (fault : ε) (s : State κ) :
    Except ε (State κ ⊕ Nat) :=
  match s.ready with
  | [] => .ok (.inr s.visited)
  | id :: rest => do
    let (degrees, ready) ←
      (dependents[id]?.getD []).foldlM (relax fault) (s.degrees, rest)
    .ok (.inl ⟨ready, degrees, s.visited + 1⟩)

variable {s : State κ}

omit [LawfulEqOrd κ] in
theorem step_eq_continue {dependents : ExtTreeMap κ (List κ)} {s' : State κ} :
    step dependents fault s = .ok (.inl s') ↔ ∃ id rest, s.ready = id :: rest ∧
      (dependents[id]?.getD []).foldlM (relax fault) (s.degrees, rest) =
        .ok (s'.degrees, s'.ready) ∧ s'.visited = s.visited + 1 := by
  obtain ⟨ready, degrees, visited⟩ := s
  obtain ⟨ready', degrees', visited'⟩ := s'
  cases ready with
  | nil => simp [step]
  | cons id rest =>
    simp only [step, bind_eq_ok, Prod.exists, Except.ok.injEq, Sum.inl.injEq, State.mk.injEq,
      List.cons.injEq]
    grind

omit [LawfulEqOrd κ] in
theorem step_eq_break {dependents : ExtTreeMap κ (List κ)} {n : Nat} :
    step dependents fault s = .ok (.inr n) ↔ s.ready = [] ∧ n = s.visited := by
  obtain ⟨ready, degrees, visited⟩ := s
  cases ready with
  | nil => simp [step, eq_comm]
  | cons id rest => simp [step, bind_eq_ok]

def loop (dependents : ExtTreeMap κ (List κ)) (fault : ε) : Loop (State κ) Nat ε where
  step := step dependents fault
  size s := 2 * openInputs s.degrees + s.ready.length
  size_lt {s s'} h := by
    obtain ⟨id, rest, hready, hfold, -⟩ := step_eq_continue.mp h
    have hsize := relaxAll_size hfold
    dsimp only at hsize
    rw [hready, List.length_cons]
    omega

/-- Number of nodes taken from the queue, which starts in the given order. -/
def run (nodes : List (κ × List κ)) (order : List κ) (fault : ε) : Except ε Nat :=
  let degrees := degreesOf nodes
  (loop (dependentsOf nodes) fault).run
    ⟨order.filter fun id => degrees[id]? = some 0, degrees, 0⟩

section Tables

variable [DecidableEq κ] {nodes : List (κ × List κ)} {inputs : List κ}

private theorem getElem?_alter_iff {β : Type} {m : ExtTreeMap κ β} {b : κ}
    {f : Option β → Option β} : (m.alter a f)[b]? = if a = b then f m[b]? else m[b]? := by
  rw [ExtTreeMap.getElem?_alter]
  by_cases h : a = b
  · subst h
    rw [if_pos (compare_self), if_pos rfl]
  · rw [if_neg fun heq => h (LawfulEqOrd.eq_of_compare heq), if_neg h]

private theorem countUp_getElem? (inputs : List κ) (degrees : ExtTreeMap κ Nat) (a b : κ) :
    (inputs.foldl (fun degrees _ => degrees.alter a fun degree => some (degree.getD 0 + 1))
      degrees)[b]?.getD 0 = degrees[b]?.getD 0 + if a = b then inputs.length else 0 := by
  induction inputs generalizing degrees with
  | nil => simp
  | cons input inputs ih =>
    rw [foldl_cons, ih, getElem?_alter_iff]
    split_ifs with h
    · simp only [Option.getD_some, length_cons]
      omega
    · rfl

private theorem isSome_countUp (inputs : List κ) (degrees : ExtTreeMap κ Nat) {b : κ}
    (ha : degrees[a]?.isSome) :
    (inputs.foldl (fun degrees _ => degrees.alter a fun degree => some (degree.getD 0 + 1))
      degrees)[b]?.isSome = degrees[b]?.isSome := by
  induction inputs generalizing degrees with
  | nil => rfl
  | cons input inputs ih =>
    rw [foldl_cons, ih, getElem?_alter_iff]
    · split_ifs with h
      · subst h
        rw [ha]
        rfl
      · rfl
    · rw [getElem?_alter_iff, if_pos rfl]
      rfl

private theorem zeroes_getElem? (nodes : List (κ × List κ)) (degrees : ExtTreeMap κ Nat) (b : κ) :
    (nodes.foldl (fun degrees node => degrees.insert node.1 0) degrees)[b]? =
      if b ∈ nodes.map Prod.fst then some 0 else degrees[b]? := by
  induction nodes generalizing degrees with
  | nil => simp
  | cons node nodes ih =>
    rw [foldl_cons, ih, map_cons]
    by_cases hb : b ∈ nodes.map Prod.fst
    · rw [if_pos hb, if_pos (mem_cons_of_mem _ hb)]
    · rw [if_neg hb]
      by_cases hnode : b = node.1
      · subst hnode
        rw [if_pos (by simp), ExtTreeMap.getElem?_insert_self]
      · rw [if_neg (by simp only [mem_cons, hnode, hb, or_self, not_false_eq_true]),
          getElem?_insert_ne hnode]

private theorem degrees_fold (l : List (κ × List κ)) (degrees : ExtTreeMap κ Nat)
    (hl : ∀ node ∈ l, degrees[node.1]?.isSome) (b : κ) :
    let result := l.foldl (fun degrees node => node.2.foldl
      (fun degrees _ => degrees.alter node.1 fun degree => some (degree.getD 0 + 1)) degrees) degrees
    result[b]?.isSome = degrees[b]?.isSome ∧ result[b]?.getD 0 =
      degrees[b]?.getD 0 + (l.map fun node => if node.1 = b then node.2.length else 0).sum := by
  induction l generalizing degrees with
  | nil => simp
  | cons node l ih =>
    have hnode := hl node (by simp)
    have hrest := ih (node.2.foldl (fun degrees _ => degrees.alter node.1 fun degree =>
        some (degree.getD 0 + 1)) degrees) (by
      intro other hother
      rw [isSome_countUp _ _ hnode]
      exact hl other (mem_cons_of_mem _ hother))
    rw [isSome_countUp _ _ hnode, countUp_getElem?] at hrest
    refine ⟨hrest.1, ?_⟩
    rw [foldl_cons, hrest.2, map_cons, sum_cons]
    omega

omit [Ord κ] [TransOrd κ] [LawfulEqOrd κ] in
/-- With unique ids, a sum over the nodes of one id is the summand of that node. -/
private theorem sum_of_nodup (hn : (nodes.map Prod.fst).Nodup) (ha : (a, inputs) ∈ nodes)
    (f : List κ → Nat) :
    (nodes.map fun node => if node.1 = a then f node.2 else 0).sum = f inputs := by
  induction nodes with
  | nil => cases ha
  | cons node nodes ih =>
    rw [map_cons, nodup_cons] at hn
    rw [map_cons, sum_cons]
    rcases mem_cons.mp ha with rfl | ha
    · have hzero : (nodes.map fun node => if node.1 = a then f node.2 else 0).sum = 0 := by
        refine sum_eq_zero fun n hmem => ?_
        obtain ⟨other, hother, rfl⟩ := mem_map.mp hmem
        exact if_neg fun h => hn.1 (mem_map.mpr ⟨other, hother, h⟩)
      rw [if_pos rfl, hzero, Nat.add_zero]
    · have hne : node.1 ≠ a := fun h => hn.1 (mem_map.mpr ⟨_, ha, h.symm⟩)
      rw [if_neg hne, ih hn.2 ha]
      omega

theorem degreesOf_getElem? (hn : (nodes.map Prod.fst).Nodup) (ha : (a, inputs) ∈ nodes) :
    (degreesOf nodes)[a]? = some inputs.length := by
  have hmem : ∀ node ∈ nodes, node.1 ∈ nodes.map Prod.fst := fun node h =>
    mem_map.mpr ⟨node, h, rfl⟩
  have hfold := degrees_fold nodes (nodes.foldl (fun degrees node => degrees.insert node.1 0) ∅)
    (fun node hnode => by rw [zeroes_getElem?, if_pos (hmem node hnode)]; rfl) a
  rw [zeroes_getElem?, if_pos (hmem _ ha), sum_of_nodup hn ha List.length] at hfold
  obtain ⟨hsome, hvalue⟩ := hfold
  obtain ⟨n, hn'⟩ := Option.isSome_iff_exists.mp hsome
  rw [hn'] at hvalue
  rw [degreesOf, hn']
  simpa using hvalue

theorem mem_of_degreesOf (ha : (degreesOf nodes)[a]?.isSome) : a ∈ nodes.map Prod.fst := by
  have hfold := degrees_fold nodes (nodes.foldl (fun degrees node => degrees.insert node.1 0) ∅)
    (fun node hnode => by
      rw [zeroes_getElem?, if_pos (mem_map.mpr ⟨node, hnode, rfl⟩)]; rfl) a
  by_contra hnot
  rw [degreesOf, hfold.1, zeroes_getElem?, if_neg hnot] at ha
  simp at ha

private theorem readers_getElem? (inputs : List κ) (dependents : ExtTreeMap κ (List κ)) (a b : κ) :
    (inputs.foldl (fun dependents input => dependents.alter input fun readers =>
      some (readers.getD [] ++ [a])) dependents)[b]?.getD [] =
        dependents[b]?.getD [] ++ List.replicate (inputs.count b) a := by
  induction inputs generalizing dependents with
  | nil => simp
  | cons input inputs ih =>
    rw [foldl_cons, ih, getElem?_alter_iff]
    split_ifs with h
    · subst h
      simp [replicate_succ]
    · simp [h]

private theorem dependents_fold (l : List (κ × List κ)) (dependents : ExtTreeMap κ (List κ))
    (b : κ) :
    (l.foldl (fun dependents node => node.2.foldl (fun dependents input =>
      dependents.alter input fun readers => some (readers.getD [] ++ [node.1])) dependents)
        dependents)[b]?.getD [] =
      dependents[b]?.getD [] ++ l.flatMap fun node => List.replicate (node.2.count b) node.1 := by
  induction l generalizing dependents with
  | nil => simp
  | cons node l ih => rw [foldl_cons, ih, readers_getElem?, flatMap_cons,
      append_assoc]

/-- A node is listed under an input once for every time it reads it. -/
theorem count_dependentsOf (hn : (nodes.map Prod.fst).Nodup) (ha : (a, inputs) ∈ nodes) (b : κ) :
    ((dependentsOf nodes)[b]?.getD []).count a = inputs.count b := by
  rw [dependentsOf, dependents_fold]
  have hempty : (∅ : ExtTreeMap κ (List κ))[b]?.getD [] = [] := by simp
  rw [hempty, nil_append, count_flatMap, ← sum_of_nodup hn ha (List.count b)]
  congr 1
  refine map_congr_left fun node _ => ?_
  simp [count_replicate]

theorem mem_of_dependentsOf {b : κ} (h : a ∈ (dependentsOf nodes)[b]?.getD []) :
    ∃ inputs, (a, inputs) ∈ nodes ∧ b ∈ inputs := by
  rw [dependentsOf, dependents_fold] at h
  have hempty : (∅ : ExtTreeMap κ (List κ))[b]?.getD [] = [] := by simp
  rw [hempty, nil_append] at h
  obtain ⟨⟨node, inputs⟩, hnode, ha⟩ := mem_flatMap.mp h
  obtain ⟨hcount, rfl⟩ := mem_replicate.mp ha
  exact ⟨inputs, hnode, count_pos_iff.mp (Nat.pos_of_ne_zero hcount)⟩

end Tables

section Runs

variable [DecidableEq κ] {popped : List κ}

/-- Closing a list of inputs lowers every degree by the number of its occurrences and appends
the nodes that reach zero. -/
theorem relaxAll_eq_ok {ds : List κ} {degrees degrees' : ExtTreeMap κ Nat} {ready ready' : List κ}
    (h : ds.foldlM (relax fault) (degrees, ready) = .ok (degrees', ready')) :
    (∀ x, ds.count x ≤ degrees[x]?.getD 0 ∧
      degrees'[x]? = degrees[x]?.map (· - ds.count x)) ∧
    ∃ fresh, ready' = ready ++ fresh ∧ fresh.Nodup ∧
      ∀ x, x ∈ fresh ↔ x ∈ ds ∧ degrees'[x]? = some 0 := by
  induction ds generalizing degrees ready with
  | nil =>
    cases h
    exact ⟨fun x => by simp, [], by simp⟩
  | cons d ds ih =>
    rw [foldlM_cons] at h
    obtain ⟨⟨mid, readyMid⟩, hmid, hrest⟩ := of_bind h
    obtain ⟨n, hn, rfl, rfl⟩ : ∃ n, degrees[d]? = some (n + 1) ∧ mid = degrees.insert d n ∧
        readyMid = if n = 0 then ready ++ [d] else ready := by
      unfold relax at hmid
      split at hmid
      · cases hmid
      · cases hmid
      · rename_i n hn
        cases hmid
        exact ⟨n, hn, rfl, rfl⟩
    obtain ⟨hcount, fresh, hready, hnodup, hfresh⟩ := ih hrest
    have hd := hcount d
    rw [ExtTreeMap.getElem?_insert_self] at hd
    simp only [Option.getD_some, Option.map_some] at hd
    refine ⟨fun x => ?_, ?_⟩
    · by_cases hx : x = d
      · subst hx
        rw [hn, hd.2, count_cons_self]
        simp only [Option.getD_some, Option.map_some]
        exact ⟨by omega, by congr 1; omega⟩
      · have hx' := hcount x
        rw [getElem?_insert_ne hx] at hx'
        rwa [count_cons_of_ne (Ne.symm hx)]
    · have hmem : d ∈ ds → 0 < ds.count d := count_pos_iff.mpr
      by_cases hzero : n = 0
      · subst hzero
        have hnot : d ∉ fresh := fun hin => by
          have := hmem ((hfresh d).mp hin).1
          omega
        refine ⟨d :: fresh, by rw [hready, if_pos rfl]; simp, nodup_cons.mpr ⟨hnot, hnodup⟩,
          fun x => ?_⟩
        rw [mem_cons, mem_cons, hfresh]
        constructor
        · rintro (rfl | ⟨hx, hx'⟩)
          · exact ⟨.inl rfl, by rw [hd.2]; simp⟩
          · exact ⟨.inr hx, hx'⟩
        · rintro ⟨rfl | hx, hx'⟩
          · exact .inl rfl
          · exact .inr ⟨hx, hx'⟩
      · refine ⟨fresh, by rw [hready, if_neg hzero], hnodup, fun x => ?_⟩
        rw [hfresh, mem_cons]
        constructor
        · rintro ⟨hx, hx'⟩
          exact ⟨.inr hx, hx'⟩
        · rintro ⟨rfl | hx, hx'⟩
          · rw [hd.2, Option.some.injEq] at hx'
            exact ⟨count_pos_iff.mp (by omega), by rw [hd.2, hx']⟩
          · exact ⟨hx, hx'⟩

/-- The state after the nodes `popped` were taken from the queue. -/
structure Reached (nodes : List (κ × List κ)) (s : State κ) (popped : List κ) : Prop where
  visited : s.visited = popped.length
  nodup : (popped ++ s.ready).Nodup
  degree : ∀ node ∈ nodes, s.degrees[node.1]? = some (node.2.countP (· ∉ popped))
  known : ∀ x, s.degrees[x]?.isSome → x ∈ nodes.map Prod.fst
  done : ∀ x ∈ popped ++ s.ready, s.degrees[x]? = some 0
  sorted : ∀ l x l', popped = l ++ x :: l' → ∀ inputs, (x, inputs) ∈ nodes → inputs ⊆ l

omit [LawfulEqOrd κ] in
theorem Reached.inputs_popped (h : Reached nodes s popped)
    {node : κ × List κ} (hnode : node ∈ nodes) (hdone : node.1 ∈ popped ++ s.ready) :
    ∀ input ∈ node.2, input ∈ popped := by
  have hzero : node.2.countP (· ∉ popped) = 0 := by
    have := (h.degree node hnode).symm.trans (h.done _ hdone)
    exact Option.some.inj this
  intro input hinput
  have := countP_eq_zero.mp hzero input hinput
  simpa using this

omit [Ord κ] [TransOrd κ] [LawfulEqOrd κ] in
private theorem countP_not_mem_snoc (l : List κ) {id : κ} (hid : id ∉ popped) :
    l.countP (· ∉ popped) = l.countP (· ∉ popped ++ [id]) + l.count id := by
  induction l with
  | nil => rfl
  | cons a l ih =>
    rw [countP_cons, countP_cons, count_cons, ih]
    by_cases ha : a = id
    · subst ha
      simp [hid]
      omega
    · simp [ha]
      omega

theorem reached_step (hn : (nodes.map Prod.fst).Nodup) {s' : State κ}
    (h : Reached nodes s popped) (hs : step (dependentsOf nodes) fault s = .ok (.inl s')) :
    ∃ id rest, s.ready = id :: rest ∧ Reached nodes s' (popped ++ [id]) ∧
      ∃ fresh, s'.ready = rest ++ fresh ∧
        ∀ x, x ∈ fresh ↔ x ∈ (dependentsOf nodes)[id]?.getD [] ∧ s'.degrees[x]? = some 0 := by
  obtain ⟨id, rest, hready, hfold, hvisited⟩ := step_eq_continue.mp hs
  obtain ⟨hcount, fresh, hready', hfreshNodup, hfresh⟩ := relaxAll_eq_ok hfold
  set ds := (dependentsOf nodes)[id]?.getD [] with hds
  have hnodup := h.nodup
  rw [hready] at hnodup
  have hid : id ∉ popped := fun hin =>
    (disjoint_of_nodup_append hnodup) hin (by simp)
  -- a node that is done keeps degree zero, so it is not relaxed again
  have hdone : ∀ x ∈ popped ++ s.ready, ds.count x = 0 := by
    intro x hx
    have hle := (hcount x).1
    rw [h.done x hx] at hle
    simpa using hle
  have hfreshNot : ∀ x ∈ fresh, x ∉ popped ++ s.ready := by
    intro x hx hin
    have hpos := count_pos_iff.mpr ((hfresh x).mp hx).1
    have hzero := hdone x hin
    omega
  have hsplit : popped ++ [id] ++ s'.ready = (popped ++ s.ready) ++ fresh := by
    rw [hready', hready]
    simp
  refine ⟨id, rest, hready, ⟨?_, ?_, ?_, ?_, ?_, ?_⟩, fresh, hready', hfresh⟩
  · rw [hvisited, h.visited, length_append, length_singleton]
  · rw [hsplit]
    exact h.nodup.append hfreshNodup fun x hx hx' => hfreshNot x hx' hx
  · intro node hnode
    rw [(hcount node.1).2, h.degree node hnode, Option.map_some, hds,
      count_dependentsOf hn hnode]
    congr 1
    have hpart := countP_not_mem_snoc node.2 hid
    omega
  · intro x hx
    rw [(hcount x).2, Option.isSome_map] at hx
    exact h.known x hx
  · intro x hx
    rw [hsplit, mem_append] at hx
    rcases hx with hx | hx
    · rw [(hcount x).2, h.done x hx, hdone x hx]
      rfl
    · exact ((hfresh x).mp hx).2
  · intro l x l' hl inputs hinputs
    rcases eq_nil_or_concat l' with rfl | ⟨l', z, rfl⟩
    · obtain ⟨rfl, hx⟩ := append_inj' hl rfl
      obtain rfl : id = x := by simpa using hx
      exact h.inputs_popped hinputs (by rw [hready]; simp)
    · have hl' : popped ++ [id] = (l ++ x :: l') ++ [z] := by simpa using hl
      exact h.sorted l x l' (append_inj' hl' rfl).1 inputs hinputs

theorem reached_init (hn : (nodes.map Prod.fst).Nodup) {order : List κ} (horder : order.Nodup) :
    Reached nodes
      ⟨order.filter fun id => (degreesOf nodes)[id]? = some 0, degreesOf nodes, 0⟩ [] where
  visited := rfl
  nodup := horder.filter _
  degree node hnode := by
    rw [degreesOf_getElem? hn hnode]
    simp
  known x hx := mem_of_degreesOf hx
  done x hx := by
    rw [nil_append] at hx
    simpa using (mem_filter.mp hx).2
  sorted l x l' hl := by simp at hl

/-- A run that takes every node ranks each node above all its inputs. -/
theorem run_ranked (hn : (nodes.map Prod.fst).Nodup) {order : List κ}
    (horder : order.Nodup) (h : run nodes order fault = .ok nodes.length) :
    ∃ rank : κ → Nat, ∀ node ∈ nodes, ∀ input ∈ node.2, rank input < rank node.1 := by
  obtain ⟨s, popped, hreached, hready, hvisited⟩ := (loop (dependentsOf nodes) fault).run_invariant
    (fun s => ∃ popped, Reached nodes s popped)
    (fun n => ∃ s popped, Reached nodes s popped ∧ s.ready = [] ∧ s.visited = n)
    (fun ⟨popped, hr⟩ hs => by
      obtain ⟨id, _, -, hr', -⟩ := reached_step hn hr hs
      exact ⟨_, hr'⟩)
    (fun ⟨popped, hr⟩ hs => by
      obtain ⟨hempty, rfl⟩ := step_eq_break.mp hs
      exact ⟨_, popped, hr, hempty, rfl⟩)
    ⟨[], reached_init hn horder⟩ h
  have hnodup : popped.Nodup := (hready ▸ hreached.nodup : (popped ++ []).Nodup) |>.of_append_left
  have hsub : popped ⊆ nodes.map Prod.fst := fun x hx =>
    hreached.known x (by rw [hreached.done x (mem_append_left _ hx)]; rfl)
  have hperm : popped.Perm (nodes.map Prod.fst) := by
    refine (subperm_of_subset hnodup hsub).perm_of_length_le ?_
    rw [length_map, ← hvisited, hreached.visited]
  refine ⟨popped.idxOf, fun node hnode input hinput => ?_⟩
  have hmem : node.1 ∈ popped := hperm.mem_iff.mpr (mem_map.mpr ⟨node, hnode, rfl⟩)
  obtain ⟨l, l', rfl, hnot⟩ := eq_append_cons_of_mem hmem
  have hin : input ∈ l := hreached.sorted l node.1 l' rfl node.2 hnode hinput
  dsimp only
  rw [idxOf_append_of_mem hin, idxOf_append_of_notMem hnot]
  have := idxOf_lt_length_of_mem hin
  omega

end Runs

end Lib.Kahn
