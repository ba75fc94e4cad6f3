import Stillflow.Core.SecretWords

/-! Which secrets the redaction reaches. -/

namespace Stillflow.Core

open Lib.ShortestPrefix List

variable {c : Char} {k i : Marker} {n : Nat} {p q s t u v w : List Char}
  {ws vs : List (List Char)} {done todo : List Marker}

/-- Word `n` still shows marker `k` after the turns of `done`, the latest first: none of them cut
the word before `k`. -/
def Shown (ws : List (List Char)) : List Marker → Marker → Nat → Prop
  | [], k, n => ∃ w, ws[n]? = some w ∧ Meets (Ends k) w
  | i :: done, k, n => Shown ws done k n ∧
      (Shown ws done i n → (∀ m < n, ¬Shown ws done i m) →
        k = i ∨ ∃ w, ws[n]? = some w ∧ Before (Ends k) (Ends i) w)

/-- The turn of `k` falls on word `n`. -/
def Reaches (ws : List (List Char)) (done : List Marker) (k : Marker) (n : Nat) : Prop :=
  Shown ws done k n ∧ ∀ m < n, ¬Shown ws done k m

/-- `k` is the first marker of the word. -/
def Leads (k : Marker) (w : List Char) : Prop := ∃ p, Shortest EndsAny p w ∧ Ends k p

/-- Every word whose secret is not masked yet is reached by the turn of its first marker. -/
def SecretsReached (text : List Char) : Prop :=
  ∀ n w, (words text)[n]? = some w → blank w ≠ w →
    ∃ done k rest, redactionMarkers = done ++ k :: rest ∧ Leads k w ∧
      Reaches (words text) done.reverse k n

theorem word_masked_iff (hw : TerminatorFree w) : AllMasked w ↔ blank w = w := by
  constructor
  · intro h
    by_cases hm : Meets EndsAny w
    · obtain ⟨p, hp⟩ := hm.exists_shortest
      obtain ⟨k, hk, hends⟩ := hp.holds
      obtain ⟨s, rfl⟩ := hp.le
      obtain ⟨rest, rfl, hrest⟩ := h k hk p s rfl hends
      cases rest with
      | nil => rw [blank_of_shortest hp, append_nil]
      | cons c rest =>
        have hfree := hw c (by simp)
        rw [hrest c rfl] at hfree
        cases hfree
    · exact blank_of_not_meets hm
  · intro h k hk p s hps hends
    have hp : p <+: w := ⟨s, hps.symm⟩
    have hm : Meets EndsAny w := ⟨p, hp, k, hk, hends⟩
    obtain ⟨q, hq⟩ := hm.exists_shortest
    have heq : w = q ++ redactionMask := h.symm.trans (blank_of_shortest hq)
    have hpq : p <+: q := hends.of_masked hk (heq ▸ hp)
    have hqp : p = q := hq.least p hpq ⟨k, hk, hends⟩
    refine ⟨[], ?_, by simp⟩
    rw [append_nil]
    exact append_cancel_left (hqp ▸ hps.symm.trans heq)

theorem mask_prefix (hc : isTerminator c = true) (h : redactionMask <+: s ++ c :: t) :
    redactionMask <+: s := by
  rcases prefix_or_prefix_of_prefix h (prefix_append s (c :: t)) with hle | hle
  · exact hle
  · obtain ⟨r, hr⟩ := hle
    rw [← hr, prefix_append_right_inj] at h
    cases r with
    | nil => simp [← hr]
    | cons d r =>
      have hd : d = c := (cons_prefix_cons.mp h).1
      have hstar : c = '*' := mask_chars c (hr ▸ by simp [hd])
      rw [hstar] at hc
      exact absurd hc (by decide)

theorem allMasked_append (hc : isTerminator c = true) :
    AllMasked (w ++ c :: t) ↔ AllMasked w ∧ AllMasked t := by
  constructor
  · intro h
    constructor
    · intro k hk p s hps hends
      obtain ⟨rest, hrest, hhead⟩ := h k hk p (s ++ c :: t) (by simp [hps]) hends
      obtain ⟨r, rfl⟩ := mask_prefix hc ⟨rest, hrest.symm⟩
      rw [append_assoc, append_cancel_left_eq] at hrest
      refine ⟨r, rfl, fun d hd => hhead d ?_⟩
      cases r with
      | nil => cases hd
      | cons e r => simpa [← hrest] using hd
    · intro k hk p s hps hends
      have hnot := toLower_not_mem_of_terminator hk hc
      exact h k hk (w ++ c :: p) s (by simp [hps]) ((ends_append_cons hnot).mpr hends)
  · intro ⟨hmw, hmt⟩ k hk p s hps hends
    have inside : ∀ r, w = p ++ r → s = r ++ c :: t →
        ∃ rest, s = redactionMask ++ rest ∧ ∀ c ∈ rest.head?, isTerminator c = true := by
      intro r hw hs
      obtain ⟨rest, rfl, hhead⟩ := hmw k hk p r hw hends
      refine ⟨rest ++ c :: t, by rw [hs, append_assoc], fun d hd => ?_⟩
      cases rest with
      | nil =>
        cases hd
        exact hc
      | cons e rest => exact hhead d hd
    have hp : p <+: w ++ c :: t := ⟨s, hps.symm⟩
    rcases prefix_or_prefix_of_prefix hp (prefix_append w (c :: t)) with hle | hle
    · obtain ⟨r, rfl⟩ := hle
      exact inside r rfl (append_cancel_left (by rw [← hps, append_assoc]))
    · obtain ⟨r, rfl⟩ := hle
      rw [append_assoc, append_cancel_left_eq] at hps
      cases r with
      | nil => exact inside [] (by simp) (by simpa using hps.symm)
      | cons d r =>
        obtain ⟨rfl, rfl⟩ := List.cons.inj hps
        have hnot := toLower_not_mem_of_terminator hk hc
        exact hmt k hk r s rfl ((ends_append_cons hnot).mp hends)

theorem allMasked_iff (t : List Char) : AllMasked t ↔ ∀ w ∈ words t, blank w = w := by
  induction t using words_induction with
  | last w hw => simp [words_of_free hw, word_masked_iff hw]
  | next w c t hw hc ih =>
    simp [allMasked_append hc, words_append_cons hw hc, word_masked_iff hw, ih]

/-- Word `n` is the first to hold the marker. -/
def FirstWith (ws : List (List Char)) (k : Marker) (n : Nat) : Prop :=
  (∃ w, ws[n]? = some w ∧ Meets (Ends k) w) ∧
    ∀ m < n, ¬∃ w, ws[m]? = some w ∧ Meets (Ends k) w

theorem redactFirst_first (hn : FirstWith ws k n) (hw : ws[n]? = some w) :
    (redactFirst ws k)[n]? = some (redactMarker w k) := by
  induction ws generalizing n with
  | nil => simp at hw
  | cons u ws ih =>
    obtain ⟨⟨w', hw', hm⟩, hfirst⟩ := hn
    obtain rfl : w = w' := Option.some.inj (hw.symm.trans hw')
    cases n with
    | zero =>
      obtain rfl : u = w := by simpa using hw
      simp [redactFirst, hm]
    | succ n =>
      have hu : ¬Meets (Ends k) u := fun hu => hfirst 0 (by omega) ⟨u, rfl, hu⟩
      rw [redactFirst, if_neg hu, getElem?_cons_succ]
      exact ih ⟨⟨w, hw, hm⟩, fun m hm => hfirst (m + 1) (by omega)⟩ hw

theorem redactFirst_other (hn : ¬FirstWith ws k n) : (redactFirst ws k)[n]? = ws[n]? := by
  induction ws generalizing n with
  | nil => rfl
  | cons u ws ih =>
    rw [redactFirst]
    split_ifs with hu
    · cases n with
      | zero => exact absurd ⟨⟨u, rfl, hu⟩, by simp⟩ hn
      | succ n => rfl
    · cases n with
      | zero => rfl
      | succ n =>
        refine ih fun h => hn ⟨h.1, fun m hm => ?_⟩
        cases m with
        | zero => simpa using hu
        | succ m => exact h.2 m (by omega)

/-- A word after some turns: untouched, or cut behind a prefix. -/
def Cut (v w : List Char) : Prop := v = w ∨ ∃ q, q <+: w ∧ v = q ++ redactionMask

/-- The words after the turns of `done`. -/
structure Tracks (ws : List (List Char)) (done : List Marker) (vs : List (List Char)) : Prop where
  free : ∀ w ∈ ws, TerminatorFree w
  cut : ∀ (n : Nat) v w, vs[n]? = some v → ws[n]? = some w → Cut v w
  shown : ∀ k ∈ redactionMarkers, ∀ n,
    (∃ v, vs[n]? = some v ∧ Meets (Ends k) v) ↔ Shown ws done k n

theorem Cut.free (h : Cut v w) (hw : TerminatorFree w) : TerminatorFree v := by
  rcases h with rfl | ⟨q, hq, rfl⟩
  · exact hw
  · exact (hw.mono hq).masked

/-- A cut word that still shows a marker has it where the word had it. -/
theorem Cut.shortest (h : Cut v w) (hk : k ∈ redactionMarkers) (hp : Shortest (Ends k) p v) :
    Shortest (Ends k) p w := by
  rcases h with rfl | ⟨q, hq, rfl⟩
  · exact hp
  · have hm : Meets (Ends k) q := (meets_masked hk).mp hp.meets
    exact (hp.restrict (prefix_append q redactionMask) hm).mono hq

theorem Cut.before_iff (h : Cut v w) (hi : i ∈ redactionMarkers) (hm : Meets (Ends i) v) :
    Before (Ends k) (Ends i) v ↔ Before (Ends k) (Ends i) w := by
  rcases h with rfl | ⟨q, hq, rfl⟩
  · rfl
  · have hmask := prefix_append q redactionMask
    have hmq : Meets (Ends i) q := (meets_masked hi).mp hm
    constructor
    · intro h
      exact (h.restrict hmask hmq).mono hq
    · intro h
      exact (h.restrict hq hmq).mono hmask

theorem tracks_nil (h : ∀ w ∈ ws, TerminatorFree w) : Tracks ws [] ws where
  free := h
  cut n v w hv hw := .inl (Option.some.inj (hv.symm.trans hw))
  shown k _ n := Iff.rfl

theorem Tracks.firstWith_iff (h : Tracks ws done vs) (hk : k ∈ redactionMarkers) :
    FirstWith vs k n ↔ Reaches ws done k n := by
  simp only [FirstWith, Reaches, h.shown k hk]

theorem Tracks.reached (h : Tracks ws done vs) (hk : k ∈ redactionMarkers) (hw : ws[n]? = some w)
    (hr : Reaches ws done k n) :
    ∃ v p, vs[n]? = some v ∧ Cut v w ∧ Shortest (Ends k) p v ∧
      (redactFirst vs k)[n]? = some (p ++ redactionMask) := by
  have hfirst := (h.firstWith_iff hk).mpr hr
  obtain ⟨v, hv, hm⟩ := hfirst.1
  obtain ⟨p, hp⟩ := hm.exists_shortest
  have hcut := h.cut n v w hv hw
  have hfree := hcut.free (h.free w (mem_of_getElem? hw))
  exact ⟨v, p, hv, hcut, hp, by rw [redactFirst_first hfirst hv, redactMarker_word hfree hp]⟩

theorem Tracks.other (h : Tracks ws done vs) (hk : k ∈ redactionMarkers)
    (hr : ¬Reaches ws done k n) : (redactFirst vs k)[n]? = vs[n]? :=
  redactFirst_other fun hf => hr ((h.firstWith_iff hk).mp hf)

theorem Shown.word (h : Shown ws done k n) : ∃ w, ws[n]? = some w := by
  induction done with
  | nil =>
    obtain ⟨w, hw, -⟩ := h
    exact ⟨w, hw⟩
  | cons i done ih => exact ih h.1

/-- A marker shows in the cut word when it came before the cut. -/
theorem Tracks.shown_reached (h : Tracks ws done vs) (hk : k ∈ redactionMarkers)
    (hi : i ∈ redactionMarkers) (hr : Reaches ws done i n) :
    (∃ v, (redactFirst vs i)[n]? = some v ∧ Meets (Ends k) v) ↔ Shown ws (i :: done) k n := by
  obtain ⟨w, hw⟩ := hr.1.word
  obtain ⟨v, p, hv, hcut, hp, hv'⟩ := h.reached hi hw hr
  have hbefore : (∃ w, ws[n]? = some w ∧ Before (Ends k) (Ends i) w) ↔
      Before (Ends k) (Ends i) v := by
    rw [hcut.before_iff hi hp.meets]
    simp [hw]
  have hshown : Shown ws done k n ↔ Meets (Ends k) v := by
    rw [← h.shown k hk n]
    simp [hv]
  have hcutShown : (∃ v, (redactFirst vs i)[n]? = some v ∧ Meets (Ends k) v) ↔
      Meets (Ends k) p := by
    rw [← meets_masked hk]
    simp [hv']
  rw [hcutShown, Shown, hbefore, hshown]
  constructor
  · intro hm
    refine ⟨hm.mono hp.le, fun _ _ => ?_⟩
    by_cases heq : k = i
    · exact .inl heq
    · refine .inr ((hp.meets_iff_before fun x hx hx' => ?_).mp hm)
      exact heq (hx.unique hk hi hx')
  · intro ⟨hm, himp⟩
    rcases himp hr.1 hr.2 with rfl | hb
    · exact ⟨p, prefix_rfl, hp.holds⟩
    · by_cases heq : k = i
      · exact heq ▸ ⟨p, prefix_rfl, hp.holds⟩
      · refine (hp.meets_iff_before fun x hx hx' => ?_).mpr hb
        exact heq (hx.unique hk hi hx')

theorem Tracks.step (h : Tracks ws done vs) (hi : i ∈ redactionMarkers) :
    Tracks ws (i :: done) (redactFirst vs i) where
  free := h.free
  cut n v w hv hw := by
    by_cases hr : Reaches ws done i n
    · obtain ⟨u, p, -, hcut, hp, hu⟩ := h.reached hi hw hr
      obtain rfl : v = p ++ redactionMask := Option.some.inj (hv.symm.trans hu)
      exact .inr ⟨p, (hcut.shortest hi hp).le, rfl⟩
    · rw [h.other hi hr] at hv
      exact h.cut n v w hv hw
  shown k hk n := by
    by_cases hr : Reaches ws done i n
    · exact h.shown_reached hk hi hr
    · rw [h.other hi hr, h.shown k hk n, Shown]
      constructor
      · intro hs
        exact ⟨hs, fun hs' hfirst => absurd ⟨hs', hfirst⟩ hr⟩
      · intro hs
        exact hs.1

theorem Leads.shortest (h : Leads k w) (hk : k ∈ redactionMarkers) :
    ∃ p, Shortest (Ends k) p w ∧ blank w = p ++ redactionMask := by
  obtain ⟨p, hp, hends⟩ := h
  refine ⟨p, ⟨hp.le, hends, fun q hq hk' => hp.least q hq ⟨k, hk, hk'⟩⟩, blank_of_shortest hp⟩

/-- A turn blanks a word when it falls on the word and the word starts its secret there. -/
theorem Tracks.blank_iff (h : Tracks ws done vs) (hk : k ∈ redactionMarkers)
    (hw : ws[n]? = some w) :
    (redactFirst vs k)[n]? = some (blank w) ↔
      vs[n]? = some (blank w) ∨ (Leads k w ∧ Reaches ws done k n) := by
  by_cases hr : Reaches ws done k n
  · obtain ⟨v, p, hv, hcut, hp, hv'⟩ := h.reached hk hw hr
    have hpw := hcut.shortest hk hp
    rw [hv', hv, Option.some.injEq, Option.some.injEq]
    constructor
    · intro heq
      have hm : Meets EndsAny w := ⟨p, hpw.le, k, hk, hpw.holds⟩
      obtain ⟨q, hq⟩ := hm.exists_shortest
      rw [blank_of_shortest hq, append_cancel_right_eq] at heq
      exact .inr ⟨⟨q, hq, heq ▸ hp.holds⟩, hr⟩
    · rintro (rfl | ⟨hlead, -⟩)
      · have hfree := hcut.free (h.free w (mem_of_getElem? hw))
        rw [← redactMarker_word hfree hp]
        exact redactMarker_blank hk hfree (blank_blank w)
      · obtain ⟨q, hq, heq⟩ := hlead.shortest hk
        rw [heq, hpw.unique hq]
  · rw [h.other hk hr]
    simp [hr]

theorem Tracks.run_blank_iff (h : Tracks ws done vs) (htodo : ∀ k ∈ todo, k ∈ redactionMarkers)
    (hw : ws[n]? = some w) :
    (todo.foldl redactFirst vs)[n]? = some (blank w) ↔
      vs[n]? = some (blank w) ∨ ∃ earlier k rest, todo = earlier ++ k :: rest ∧ Leads k w ∧
        Reaches ws (earlier.reverse ++ done) k n := by
  induction todo generalizing done vs with
  | nil => simp
  | cons k todo ih =>
    have hk := htodo k mem_cons_self
    rw [foldl_cons, ih (h.step hk) fun j hj => htodo j (mem_cons_of_mem k hj),
      h.blank_iff hk hw, or_assoc]
    refine or_congr_right ?_
    constructor
    · rintro (⟨hlead, hr⟩ | ⟨earlier, j, rest, rfl, hlead, hr⟩)
      · exact ⟨[], k, todo, rfl, hlead, hr⟩
      · exact ⟨k :: earlier, j, rest, rfl, hlead, by simpa using hr⟩
    · rintro ⟨earlier, j, rest, heq, hlead, hr⟩
      cases earlier with
      | nil =>
        obtain ⟨rfl, rfl⟩ := List.cons.inj heq
        exact .inl ⟨hlead, hr⟩
      | cons i earlier =>
        obtain ⟨rfl, rfl⟩ := List.cons.inj heq
        exact .inr ⟨earlier, j, rest, rfl, hlead, by simpa using hr⟩

end Stillflow.Core
