import Stillflow.Lib.Loop

/-! Following a successor from a start to a stop while refusing to visit anything twice. -/

namespace Lib

open Lib.Fallible List

/-- A partial successor with what is read at each place and the error for a second visit. -/
structure Trail (α β ε : Type) where
  visit : α → Except ε β
  next : α → Except ε α
  cycle : α → ε
  stop : α
  keys : List α
  next_mem : ∀ {a b}, next a = .ok b → a ∈ keys

namespace Trail

variable {α β ε : Type} [DecidableEq α] (T : Trail α β ε)

def step (s : List (α × β) × α) : Except ε ((List (α × β) × α) ⊕ List (α × β)) :=
  if s.2 ∈ s.1.map Prod.fst then .error (T.cycle s.2)
  else do
    let b ← T.visit s.2
    if s.2 = T.stop then .ok (.inr (s.1 ++ [(s.2, b)]))
    else do
      let a ← T.next s.2
      .ok (.inl (s.1 ++ [(s.2, b)], a))

theorem step_eq_continue {s s' : List (α × β) × α} :
    T.step s = .ok (.inl s') ↔ s.2 ∉ s.1.map Prod.fst ∧ s.2 ≠ T.stop ∧
      ∃ b, T.visit s.2 = .ok b ∧ s'.1 = s.1 ++ [(s.2, b)] ∧ T.next s.2 = .ok s'.2 := by
  unfold step
  split_ifs with hseen hstop
  · simp [hseen]
  · simp [bind_eq_ok, hstop]
  · obtain ⟨seen, a⟩ := s
    obtain ⟨seen', a'⟩ := s'
    simp only [bind_eq_ok, Except.ok.injEq, Sum.inl.injEq, Prod.mk.injEq]
    grind

theorem step_eq_break {s : List (α × β) × α} {r : List (α × β)} :
    T.step s = .ok (.inr r) ↔ s.2 ∉ s.1.map Prod.fst ∧ s.2 = T.stop ∧
      ∃ b, T.visit s.2 = .ok b ∧ r = s.1 ++ [(s.2, b)] := by
  unfold step
  split_ifs with hseen hstop
  · simp [hseen]
  · simp only [bind_eq_ok, Except.ok.injEq, Sum.inr.injEq]
    grind
  · simp [bind_eq_ok, hstop]

omit [DecidableEq α] in
private theorem filter_length_lt {keys : List α} {p q : α → Bool} {a : α} (ha : a ∈ keys)
    (hp : p a = true) (hq : q a = false) (hqp : ∀ x, q x = true → p x = true) :
    (keys.filter q).length < (keys.filter p).length := by
  have hsub : (keys.filter q).Sublist (keys.filter p) := by
    refine monotone_filter_right keys fun x hx => ?_
    exact hqp x hx
  refine lt_of_le_of_ne hsub.length_le fun heq => ?_
  have hmem : a ∈ keys.filter q := by
    rw [hsub.eq_of_length heq]
    exact mem_filter.mpr ⟨ha, hp⟩
  simp [hq] at hmem

def loop : Loop (List (α × β) × α) (List (α × β)) ε where
  step := T.step
  size s := (T.keys.filter fun a => a ∉ s.1.map Prod.fst).length
  size_lt {s s'} hs := by
    obtain ⟨hseen, -, b, -, hs', hnext⟩ := T.step_eq_continue.mp hs
    refine filter_length_lt (T.next_mem hnext) ?_ ?_ ?_
    · simpa using hseen
    · simp [hs']
    · intro x hx
      have hx' : x ∉ s'.1.map Prod.fst := by simpa using hx
      rw [hs', List.map_append, List.mem_append, not_or] at hx'
      simpa using hx'.1

/-- The places met from `start` to the stop, each with what was read there. -/
def follow (start : α) : Except ε (List (α × β)) := T.loop.run ([], start)

/-- The entries of a trail from a place to the stop. -/
def Leads : α → List (α × β) → Prop
  | _, [] => False
  | a, [entry] => entry.1 = a ∧ T.visit a = .ok entry.2 ∧ a = T.stop
  | a, entry :: after :: rest =>
    entry.1 = a ∧ T.visit a = .ok entry.2 ∧ a ≠ T.stop ∧ T.next a = .ok after.1 ∧
      Leads after.1 (after :: rest)

omit [DecidableEq α] in
theorem leads_cons {a : α} {entry : α × β} {rest : List (α × β)} :
    T.Leads a (entry :: rest) ↔ entry.1 = a ∧ T.visit a = .ok entry.2 ∧
      (rest = [] ∧ a = T.stop ∨ a ≠ T.stop ∧ ∃ c, T.next a = .ok c ∧ T.Leads c rest) := by
  cases rest with
  | nil => simp [Leads]
  | cons after rest =>
    have hhead : ∀ c, T.Leads c (after :: rest) → after.1 = c := by
      intro c hc
      cases rest <;> exact hc.1
    simp only [Leads, reduceCtorEq, false_and, false_or]
    constructor
    · rintro ⟨h₁, h₂, h₃, h₄, h₅⟩
      exact ⟨h₁, h₂, h₃, _, h₄, h₅⟩
    · rintro ⟨h₁, h₂, h₃, c, h₄, h₅⟩
      obtain rfl := hhead c h₅
      exact ⟨h₁, h₂, h₃, h₄, h₅⟩

omit [DecidableEq α] in
theorem leads_ends {a : α} {trail : List (α × β)}
    (h : T.Leads a trail) :
    (trail.map Prod.fst).head? = some a ∧ (trail.map Prod.fst).getLast? = some T.stop := by
  induction trail generalizing a with
  | nil => exact h.elim
  | cons entry rest ih =>
    obtain ⟨rfl, -, hrest⟩ := T.leads_cons.mp h
    refine ⟨rfl, ?_⟩
    rcases hrest with ⟨rfl, hstop⟩ | ⟨-, c, -, hleads⟩
    · rw [← hstop]
      rfl
    · obtain ⟨hhead, hlast⟩ := ih hleads
      cases rest with
      | nil => exact hleads.elim
      | cons after rest => rw [map_cons, map_cons, getLast?_cons_cons, ← hlast,
          map_cons]

theorem run_eq_ok {seen : List (α × β)} {a : α} {r : List (α × β)} :
    T.loop.run (seen, a) = .ok r ↔ ∃ trail, r = seen ++ trail ∧ T.Leads a trail ∧
      (trail.map Prod.fst).Nodup ∧ ∀ x ∈ trail.map Prod.fst, x ∉ seen.map Prod.fst := by
  induction hn : T.loop.size (seen, a) using Nat.strong_induction_on generalizing seen a with
  | _ n ih =>
    constructor
    · intro hrun
      cases hs : T.loop.step (seen, a) with
      | error e =>
        rw [T.loop.run_of_error hs] at hrun
        cases hrun
      | ok x =>
        cases x with
        | inr r' =>
          rw [T.loop.run_of_break hs] at hrun
          cases hrun
          obtain ⟨hseen, hstop, b, hb, rfl⟩ := T.step_eq_break.mp hs
          exact ⟨[(a, b)], rfl, ⟨rfl, hb, hstop⟩, by simp, by simpa using hseen⟩
        | inl s' =>
          obtain ⟨seen', a'⟩ := s'
          obtain ⟨hseen, hstop, b, hb, rfl, hnext⟩ := T.step_eq_continue.mp hs
          rw [T.loop.run_of_continue hs] at hrun
          obtain ⟨trail, rfl, hleads, hnodup, hfresh⟩ :=
            (ih _ (hn ▸ T.loop.size_lt hs) rfl).mp hrun
          refine ⟨(a, b) :: trail, by simp, ?_, ?_, ?_⟩
          · exact T.leads_cons.mpr ⟨rfl, hb, .inr ⟨hstop, a', hnext, hleads⟩⟩
          · refine nodup_cons.mpr ⟨fun hmem => ?_, hnodup⟩
            exact hfresh a hmem (by simp)
          · intro x hx hx'
            rcases mem_cons.mp hx with rfl | hx
            · exact hseen hx'
            · refine hfresh x hx ?_
              rw [map_append]
              exact mem_append_left _ hx'
    · rintro ⟨trail, rfl, hleads, hnodup, hfresh⟩
      cases trail with
      | nil => exact hleads.elim
      | cons entry rest =>
        obtain ⟨a', b⟩ := entry
        obtain ⟨rfl, hb, hrest⟩ := T.leads_cons.mp hleads
        rw [map_cons, nodup_cons] at hnodup
        have hseen : a' ∉ seen.map Prod.fst := hfresh a' (by simp)
        rcases hrest with ⟨rfl, hstop⟩ | ⟨hstop, c, hnext, hleads'⟩
        · exact T.loop.run_of_break (T.step_eq_break.mpr ⟨hseen, hstop, b, hb, rfl⟩)
        · have hs : T.loop.step (seen, a') = .ok (.inl (seen ++ [(a', b)], c)) :=
            T.step_eq_continue.mpr ⟨hseen, hstop, b, hb, rfl, hnext⟩
          rw [T.loop.run_of_continue hs]
          refine (ih _ (hn ▸ T.loop.size_lt hs) rfl).mpr ⟨rest, by simp, hleads', hnodup.2, ?_⟩
          intro x hx hx'
          rw [map_append, mem_append] at hx'
          rcases hx' with hx' | hx'
          · exact hfresh x (mem_cons_of_mem _ hx) hx'
          · have hxa : x = a' := by simpa using hx'
            exact hnodup.1 (hxa ▸ hx)

theorem follow_eq_ok {start : α} {trail : List (α × β)} :
    T.follow start = .ok trail ↔ T.Leads start trail ∧ (trail.map Prod.fst).Nodup := by
  rw [follow, run_eq_ok]
  constructor
  · rintro ⟨trail', rfl, hleads, hnodup, -⟩
    exact ⟨hleads, hnodup⟩
  · rintro ⟨hleads, hnodup⟩
    exact ⟨trail, rfl, hleads, hnodup, by simp⟩

end Trail

end Lib
