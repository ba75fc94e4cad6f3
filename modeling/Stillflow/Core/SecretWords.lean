import Stillflow.Core.Redaction

/-! A public text as words between terminators. -/

namespace Stillflow.Core

open Lib.ShortestPrefix List

variable {c : Char} {k i : Marker} {p q s t w v : List Char}

def words (text : List Char) : List (List Char) := text.splitOnP isTerminator

def EndsAny (p : List Char) : Prop := ∃ k ∈ redactionMarkers, Ends k p

instance : DecidablePred EndsAny := fun p =>
  inferInstanceAs (Decidable (∃ k ∈ redactionMarkers, Ends k p))

/-- The word with what follows its first marker replaced. -/
def blank (w : List Char) : List Char :=
  match shortest? (fun p => decide (EndsAny p)) w with
  | some p => p ++ redactionMask
  | none => w

/-- Texts that differ only in their secret values. -/
def SameOutsideSecrets (text text' : List Char) : Prop :=
  text.filter isTerminator = text'.filter isTerminator ∧
    (words text).map blank = (words text').map blank

/-- Every occurrence of a marker is followed by the mask and then by a terminator or the end. -/
def AllMasked (text : List Char) : Prop :=
  ∀ k ∈ redactionMarkers, ∀ p s, text = p ++ s → Ends k p →
    ∃ rest, s = redactionMask ++ rest ∧ ∀ c ∈ rest.head?, isTerminator c = true

def TerminatorFree (w : List Char) : Prop := ∀ c ∈ w, isTerminator c = false

theorem words_of_free (h : TerminatorFree w) : words w = [w] :=
  splitOnP_eq_singleton h

theorem words_append_cons (h : TerminatorFree w) (hc : isTerminator c = true) (t : List Char) :
    words (w ++ c :: t) = w :: words t :=
  splitOnP_append_cons_of_forall_mem h c hc t

theorem words_induction {motive : List Char → Prop} (last : ∀ w, TerminatorFree w → motive w)
    (next : ∀ w c t, TerminatorFree w → isTerminator c = true → motive t → motive (w ++ c :: t))
    (t : List Char) : motive t := by
  induction hn : t.length using Nat.strong_induction_on generalizing t with
  | _ n ih =>
    have hsplit := takeWhile_append_dropWhile (p := (!isTerminator ·)) (l := t)
    have hfree : TerminatorFree (t.takeWhile (!isTerminator ·)) := by
      intro c hc
      simpa using mem_takeWhile_imp hc
    cases hdrop : t.dropWhile (!isTerminator ·) with
    | nil =>
      rw [hdrop, append_nil] at hsplit
      exact last t (hsplit ▸ hfree)
    | cons c rest =>
      have hc : isTerminator c = true := by
        have hhead := head_dropWhile_not (!isTerminator ·) (l := t) (by simp [hdrop])
        simpa [hdrop] using hhead
      have hlen : rest.length < n := by
        have := congrArg List.length hsplit
        simp only [hdrop, length_append, length_cons] at this
        omega
      rw [hdrop] at hsplit
      rw [← hsplit]
      exact next _ c rest hfree hc (ih rest.length hlen rest rfl)

theorem eq_of_words (hwords : words s = words t)
    (hends : s.filter isTerminator = t.filter isTerminator) : s = t := by
  unfold words at hwords
  rw [← splitOnP_spec (p := isTerminator) s, hwords, hends, splitOnP_spec]

theorem dropWhile_of_free (h : TerminatorFree w) : w.dropWhile (!isTerminator ·) = [] := by
  rw [dropWhile_eq_nil_iff]
  intro c hc
  simpa using h c hc

theorem dropWhile_append_cons (h : TerminatorFree w) (hc : isTerminator c = true) :
    (w ++ c :: t).dropWhile (!isTerminator ·) = c :: t := by
  rw [dropWhile_append_of_pos (by simpa [TerminatorFree] using h)]
  simp [hc]

theorem TerminatorFree.mono (h : TerminatorFree w) (hp : p <+: w) : TerminatorFree p :=
  fun c hc => h c (hp.subset hc)

theorem TerminatorFree.masked (h : TerminatorFree p) : TerminatorFree (p ++ redactionMask) := by
  refine forall_mem_append.mpr ⟨h, fun c hc => ?_⟩
  rw [mask_chars c hc]
  decide

theorem redactMarker_word (h : TerminatorFree w) (hp : Shortest (Ends k) p w) :
    redactMarker w k = p ++ redactionMask := by
  obtain ⟨s, rfl⟩ := hp.le
  have hs : TerminatorFree s := fun c hc => h c (mem_append_right p hc)
  rw [redactMarker_of_shortest hp, dropWhile_of_free hs, append_nil]

theorem redactMarker_free (h : TerminatorFree w) (k : Marker) :
    TerminatorFree (redactMarker w k) := by
  by_cases hm : Meets (Ends k) w
  · obtain ⟨p, hp⟩ := hm.exists_shortest
    rw [redactMarker_word h hp]
    exact (h.mono hp.le).masked
  · rw [redactMarker_of_not_meets hm]
    exact h

/-- A word that holds the marker is the only one that changes. -/
theorem redactMarker_append_of_meets (hw : TerminatorFree w) (hc : isTerminator c = true)
    (h : Meets (Ends k) w) (t : List Char) :
    redactMarker (w ++ c :: t) k = redactMarker w k ++ c :: t := by
  obtain ⟨p, hp⟩ := h.exists_shortest
  rw [redactMarker_word hw hp]
  obtain ⟨s, rfl⟩ := hp.le
  have hs : TerminatorFree s := fun c hc => hw c (mem_append_right p hc)
  have hlong : Shortest (Ends k) p (p ++ (s ++ c :: t)) :=
    hp.mono ⟨c :: t, by simp⟩
  rw [append_assoc, redactMarker_of_shortest hlong, dropWhile_append_cons hs hc]

theorem shortest_append (hk : k ∈ redactionMarkers) (hc : isTerminator c = true)
    (hw : ¬Meets (Ends k) w) (h : Shortest (Ends k) p t) :
    Shortest (Ends k) (w ++ c :: p) (w ++ c :: t) := by
  have hnot := toLower_not_mem_of_terminator hk hc
  refine ⟨?_, (ends_append_cons hnot).mpr h.holds, fun q hq hends => ?_⟩
  · exact (prefix_append_right_inj w).mpr (cons_prefix_cons.mpr ⟨rfl, h.le⟩)
  · rcases prefix_or_prefix_of_prefix hq (prefix_append w (c :: p)) with hle | hle
    · exact absurd ⟨q, hle, hends⟩ hw
    · obtain ⟨r, rfl⟩ := hle
      rcases prefix_cons_iff.mp ((prefix_append_right_inj w).mp hq) with rfl | ⟨r, rfl, hr⟩
      · exact absurd ⟨w, prefix_rfl, by simpa using hends⟩ hw
      · rw [h.least r hr ((ends_append_cons hnot).mp hends)]

theorem meets_append (hk : k ∈ redactionMarkers) (hc : isTerminator c = true) :
    Meets (Ends k) (w ++ c :: t) ↔ Meets (Ends k) w ∨ Meets (Ends k) t := by
  have hnot := toLower_not_mem_of_terminator hk hc
  constructor
  · intro ⟨q, hq, hends⟩
    rcases prefix_or_prefix_of_prefix hq (prefix_append w (c :: t)) with hle | hle
    · exact .inl ⟨q, hle, hends⟩
    · obtain ⟨r, rfl⟩ := hle
      rcases prefix_cons_iff.mp ((prefix_append_right_inj w).mp hq) with rfl | ⟨r, rfl, hr⟩
      · exact .inl ⟨w, prefix_rfl, by simpa using hends⟩
      · exact .inr ⟨r, hr, (ends_append_cons hnot).mp hends⟩
  · rintro (h | ⟨r, hr, hends⟩)
    · exact h.mono (prefix_append w (c :: t))
    · exact ⟨w ++ c :: r, (prefix_append_right_inj w).mpr
        (cons_prefix_cons.mpr ⟨rfl, hr⟩), (ends_append_cons hnot).mpr hends⟩

theorem redactMarker_append_of_not_meets (hk : k ∈ redactionMarkers) (hc : isTerminator c = true)
    (h : ¬Meets (Ends k) w) (t : List Char) :
    redactMarker (w ++ c :: t) k = w ++ c :: redactMarker t k := by
  by_cases ht : Meets (Ends k) t
  · obtain ⟨p, hp⟩ := ht.exists_shortest
    obtain ⟨s, rfl⟩ := hp.le
    have hlong := shortest_append hk hc h hp
    have hsplit : w ++ c :: (p ++ s) = (w ++ c :: p) ++ s := by simp
    rw [redactMarker_of_shortest hp]
    rw [hsplit] at hlong ⊢
    rw [redactMarker_of_shortest hlong]
    simp
  · rw [redactMarker_of_not_meets ht, redactMarker_of_not_meets]
    rw [meets_append hk hc]
    exact not_or.mpr ⟨h, ht⟩

open Classical in
/-- The first word that holds the marker loses its value. -/
noncomputable def redactFirst (ws : List (List Char)) (k : Marker) : List (List Char) :=
  match ws with
  | [] => []
  | w :: ws => if Meets (Ends k) w then redactMarker w k :: ws else w :: redactFirst ws k

theorem words_redactMarker (hk : k ∈ redactionMarkers) (t : List Char) :
    words (redactMarker t k) = redactFirst (words t) k := by
  induction t using words_induction with
  | last w hw =>
    rw [words_of_free hw, words_of_free (redactMarker_free hw k), redactFirst]
    split_ifs with hm
    · rfl
    · rw [redactMarker_of_not_meets hm]
      rfl
  | next w c t hw hc ih =>
    rw [words_append_cons hw hc, redactFirst]
    split_ifs with hm
    · rw [redactMarker_append_of_meets hw hc hm, words_append_cons (redactMarker_free hw k) hc]
    · rw [redactMarker_append_of_not_meets hk hc hm, words_append_cons hw hc, ih]

theorem filter_free (h : TerminatorFree w) : w.filter isTerminator = [] := by
  rw [filter_eq_nil_iff]
  intro c hc
  simp [h c hc]

theorem filter_redactMarker (hk : k ∈ redactionMarkers) (t : List Char) :
    (redactMarker t k).filter isTerminator = t.filter isTerminator := by
  induction t using words_induction with
  | last w hw => rw [filter_free hw, filter_free (redactMarker_free hw k)]
  | next w c t hw hc ih =>
    by_cases hm : Meets (Ends k) w
    · rw [redactMarker_append_of_meets hw hc hm, filter_append, filter_append,
        filter_free hw, filter_free (redactMarker_free hw k)]
    · rw [redactMarker_append_of_not_meets hk hc hm, filter_append, filter_append,
        filter_cons_of_pos hc, filter_cons_of_pos hc, ih]

theorem shortest_endsAny (h : shortest? (fun p => decide (EndsAny p)) w = some p) :
    Shortest EndsAny p w := by
  simpa using shortest?_some h

theorem blank_of_shortest (h : Shortest EndsAny p w) : blank w = p ++ redactionMask := by
  rw [blank]
  cases hs : shortest? (fun p => decide (EndsAny p)) w with
  | none => exact absurd (by simpa using h.meets) (shortest?_none hs)
  | some q => rw [(shortest_endsAny hs).unique h]

theorem blank_of_not_meets (h : ¬Meets EndsAny w) : blank w = w := by
  rw [blank]
  cases hs : shortest? (fun p => decide (EndsAny p)) w with
  | none => rfl
  | some q => exact absurd (shortest_endsAny hs).meets h

theorem shortest_masked (h : Shortest EndsAny p w) : Shortest EndsAny p (p ++ redactionMask) :=
  ⟨prefix_append _ _, h.holds, h.least⟩

theorem blank_blank (w : List Char) : blank (blank w) = blank w := by
  by_cases hm : Meets EndsAny w
  · obtain ⟨p, hp⟩ := hm.exists_shortest
    rw [blank_of_shortest hp, blank_of_shortest (shortest_masked hp)]
  · rw [blank_of_not_meets hm, blank_of_not_meets hm]

/-- Redacting a marker keeps what lies outside the secret of a word. -/
theorem blank_redactMarker (hk : k ∈ redactionMarkers) (hw : TerminatorFree w) :
    blank (redactMarker w k) = blank w := by
  by_cases hm : Meets (Ends k) w
  · obtain ⟨p, hp⟩ := hm.exists_shortest
    have hany : Meets EndsAny p := ⟨p, prefix_rfl, k, hk, hp.holds⟩
    obtain ⟨q, hq⟩ := hany.exists_shortest
    rw [redactMarker_word hw hp, blank_of_shortest (hq.mono hp.le),
      blank_of_shortest (hq.mono (prefix_append p redactionMask))]
  · rw [redactMarker_of_not_meets hm]

theorem redactMarker_blank (hk : k ∈ redactionMarkers) (hw : TerminatorFree w) (h : blank w = w) :
    redactMarker w k = w := by
  by_cases hm : Meets (Ends k) w
  · obtain ⟨p, hp⟩ := hm.exists_shortest
    have hany : Meets EndsAny p := ⟨p, prefix_rfl, k, hk, hp.holds⟩
    obtain ⟨q, hq⟩ := hany.exists_shortest
    have heq : w = q ++ redactionMask := h.symm.trans (blank_of_shortest (hq.mono hp.le))
    have hpq : p <+: q := hp.holds.of_masked hk (heq ▸ hp.le)
    have hqp : q = p := hq.le.eq_of_length_le hpq.length_le
    rw [redactMarker_word hw hp, ← hqp]
    exact heq.symm
  · exact redactMarker_of_not_meets hm

end Stillflow.Core
