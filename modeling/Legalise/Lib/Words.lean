import Mathlib

/-!
This module contains the words of a text, which blanks keep apart, and the text in which one blank stands between
every two words. What occurs in that text is what the slices of the original text are rewritten to.
-/

namespace Words

variable {α : Type} (p : α → Bool) (blank : α)

def words (s : List α) : List (List α) :=
  (s.splitOnP p).filter fun word => !word.isEmpty

/--
The words of a text with one blank between every two.
-/
def reflow (s : List α) : List α :=
  [blank].intercalate (words p s)

/--
The text goes on with a word.
-/
def Letter (s : List α) : Prop :=
  ∃ x t, s = x :: t ∧ p x = false

variable {p blank} {s t : List α} {x : α}

@[simp]
theorem words_nil : words p [] = [] := by
  rfl

theorem words_cons_blank (h : p x = true) (s : List α) : words p (x :: s) = words p s := by
  unfold words
  rw [List.splitOnP_cons_eq_if_modifyHead, if_pos h]
  rfl

theorem exists_splitOnP (p : α → Bool) (s : List α) : ∃ word rest, s.splitOnP p = word :: rest :=
  List.exists_cons_of_ne_nil (List.splitOnP_ne_nil p s)

/--
A letter in front of a word belongs to the word.
-/
theorem words_cons_letter (h : p x = false) (hs : Letter p s)
    : ∃ word rest, words p s = word :: rest ∧ words p (x :: s) = (x :: word) :: rest := by
  obtain ⟨y, s, rfl, hletter⟩ := hs
  have ⟨word, rest, hsplit⟩ := exists_splitOnP p s
  refine ⟨y :: word, rest.filter fun word => !word.isEmpty, ?_, ?_⟩
  . simp [words, List.splitOnP_cons_eq_if_modifyHead, hletter, hsplit]
  . simp [words, List.splitOnP_cons_eq_if_modifyHead, h, hletter, hsplit]

/--
A letter in front of a blank is a word of its own.
-/
theorem words_cons_alone (h : p x = false) (hs : ¬ Letter p s) : words p (x :: s) = [x] :: words p s := by
  cases s with
  | nil => simp [words, List.splitOnP_cons_eq_if_modifyHead, h]
  | cons z s =>
    have hz : p z = true := by
      by_contra hz
      exact hs ⟨z, s, rfl, Bool.eq_false_iff.mpr hz⟩
    rw [words_cons_blank hz]
    simp [words, List.splitOnP_cons_eq_if_modifyHead, h, hz]

@[simp]
theorem reflow_nil : reflow p blank [] = [] := by
  rfl

theorem reflow_cons_blank (h : p x = true) (s : List α) : reflow p blank (x :: s) = reflow p blank s := by
  unfold reflow
  rw [words_cons_blank h]

theorem reflow_cons_letter (h : p x = false) (hs : Letter p s) : reflow p blank (x :: s) = x :: reflow p blank s := by
  have ⟨word, rest, hwords, hcons⟩ := words_cons_letter h hs
  unfold reflow
  rw [hcons, hwords, List.intercalate_cons_cons_left]

theorem reflow_ne_nil (h : Letter p s) : reflow p blank s ≠ [] := by
  obtain ⟨x, s, rfl, hletter⟩ := h
  by_cases hs : Letter p s
  . rw [reflow_cons_letter hletter hs]
    simp
  . unfold reflow
    rw [words_cons_alone hletter hs]
    cases words p s <;> simp

theorem words_eq_nil_of_reflow (h : reflow p blank s = []) : words p s = [] := by
  by_contra hne
  have ⟨word, rest, hwords⟩ := List.exists_cons_of_ne_nil hne
  have hword : word ≠ [] := by
    have hmem : word ∈ words p s := by
      rw [hwords]
      exact List.mem_cons_self
    unfold words at hmem
    rw [List.mem_filter] at hmem
    simpa using hmem.right
  unfold reflow at h
  rw [hwords] at h
  cases rest <;> simp_all

theorem reflow_cons_alone (h : p x = false) (hs : ¬ Letter p s)
    : reflow p blank (x :: s) = if reflow p blank s = [] then [x] else x :: blank :: reflow p blank s := by
  split
  . next hnil =>
    unfold reflow
    rw [words_cons_alone h hs, words_eq_nil_of_reflow hnil, List.intercalate_singleton]
  . next hne =>
    have hwords : words p s ≠ [] := by
      intro hnil
      unfold reflow at hne
      rw [hnil] at hne
      exact hne rfl
    unfold reflow
    rw [words_cons_alone h hs, List.intercalate_cons_of_ne_nil hwords]
    rfl

theorem exists_reflow_cons (blank : α) (h : p x = false) (s : List α)
    : ∃ rest, reflow p blank (x :: s) = x :: rest := by
  by_cases hs : Letter p s
  . exact ⟨_, reflow_cons_letter h hs⟩
  . rw [reflow_cons_alone h hs]
    split
    . exact ⟨_, rfl⟩
    . exact ⟨_, rfl⟩

/--
What is rewritten does not begin with a blank.
-/
theorem letter_reflow (h : reflow p blank s ≠ []) : Letter p (reflow p blank s) := by
  induction s with
  | nil => exact (h rfl).elim
  | cons x s ih =>
    by_cases hx : p x = true
    . rw [reflow_cons_blank hx] at h ⊢
      exact ih h
    . rw [Bool.not_eq_true] at hx
      have ⟨rest, hrest⟩ := exists_reflow_cons blank hx s
      exact ⟨x, rest, hrest, hx⟩

/--
What is rewritten does not end with a blank.
-/
theorem getLast?_reflow (h : reflow p blank s ≠ []) : ∃ x, (reflow p blank s).getLast? = some x ∧ p x = false := by
  induction s with
  | nil => exact (h rfl).elim
  | cons x s ih =>
    by_cases hx : p x = true
    . rw [reflow_cons_blank hx] at h ⊢
      exact ih h
    . rw [Bool.not_eq_true] at hx
      by_cases hs : Letter p s
      . have ⟨y, hy, hletter⟩ := ih (reflow_ne_nil hs)
        rw [reflow_cons_letter hx hs]
        exact ⟨y, by rw [List.getLast?_cons, hy]; rfl, hletter⟩
      . rw [reflow_cons_alone hx hs]
        split
        . exact ⟨x, rfl, hx⟩
        . next hne =>
          have ⟨y, hy, hletter⟩ := ih hne
          exact ⟨y, by rw [List.getLast?_cons_cons, List.getLast?_cons, hy]; rfl, hletter⟩

section Slices

theorem Letter.of_shorter (h : s <+: t) (hs : Letter p s) : Letter p t := by
  obtain ⟨x, s, rfl, hx⟩ := hs
  obtain ⟨rest, rfl⟩ := h
  exact ⟨x, s ++ rest, rfl, hx⟩

theorem Letter.of_longer (h : s <+: t) (hne : s ≠ []) (ht : Letter p t) : Letter p s := by
  obtain ⟨x, t, rfl, hx⟩ := ht
  have ⟨y, s', hs⟩ := List.exists_cons_of_ne_nil hne
  rw [hs, List.cons_prefix_cons] at h
  exact ⟨y, s', hs, by rw [h.left, hx]⟩

theorem reflow_prefix (h : s <+: t) : reflow p blank s <+: reflow p blank t := by
  induction t generalizing s with
  | nil => rw [List.prefix_nil.mp h]
  | cons x t ih =>
    cases s with
    | nil => exact List.nil_prefix
    | cons y s =>
      rw [List.cons_prefix_cons] at h
      obtain ⟨rfl, h⟩ := h
      by_cases hy : p y = true
      . rw [reflow_cons_blank hy, reflow_cons_blank hy]
        exact ih h
      . rw [Bool.not_eq_true] at hy
        by_cases hs : Letter p s
        . rw [reflow_cons_letter hy hs, reflow_cons_letter hy (hs.of_shorter h), List.cons_prefix_cons]
          exact ⟨rfl, ih h⟩
        . rw [reflow_cons_alone hy hs]
          split
          . have ⟨rest, hrest⟩ := exists_reflow_cons blank hy t
            rw [hrest]
            exact List.cons_prefix_cons.mpr ⟨rfl, List.nil_prefix⟩
          . next hne =>
            have hs' : s ≠ [] := by
              rintro rfl
              exact hne rfl
            have ht : ¬ Letter p t := fun ht => hs (ht.of_longer h hs')
            have hne' : reflow p blank t ≠ [] := by
              intro hnil
              have := ih h
              rw [hnil] at this
              exact hne (List.prefix_nil.mp this)
            rw [reflow_cons_alone hy ht, if_neg hne', List.cons_prefix_cons, List.cons_prefix_cons]
            exact ⟨rfl, rfl, ih h⟩

theorem reflow_suffix (h : s <:+ t) : reflow p blank s <:+ reflow p blank t := by
  induction t with
  | nil => rw [List.suffix_nil.mp h]
  | cons x t ih =>
    rcases List.suffix_cons_iff.mp h with rfl | h
    . exact List.suffix_refl _
    . refine (ih h).trans ?_
      by_cases hx : p x = true
      . rw [reflow_cons_blank hx]
      . rw [Bool.not_eq_true] at hx
        by_cases ht : Letter p t
        . rw [reflow_cons_letter hx ht]
          exact List.suffix_cons _ _
        . rw [reflow_cons_alone hx ht]
          split
          . next hnil =>
            rw [hnil]
            exact List.nil_suffix
          . exact (List.suffix_cons _ _).trans (List.suffix_cons _ _)

theorem reflow_infix (h : s <:+: t) : reflow p blank s <:+: reflow p blank t := by
  obtain ⟨front, back, rfl⟩ := h
  have hprefix : reflow p blank (front ++ s) <+: reflow p blank (front ++ s ++ back) :=
    reflow_prefix (List.prefix_append _ _)
  have hsuffix : reflow p blank s <:+ reflow p blank (front ++ s) := reflow_suffix (List.suffix_append _ _)
  exact hsuffix.isInfix.trans hprefix.isInfix

/--
What the rewritten text begins with, up to a word's letter, is what a beginning of the text is rewritten to.
-/
theorem exists_prefix_reflow (hblank : p blank = true) {q : List α} (h : q <+: reflow p blank t)
    (hlast : ∀ x, q.getLast? = some x → p x = false) : ∃ s, s <+: t ∧ reflow p blank s = q := by
  induction t generalizing q with
  | nil =>
    rw [reflow_nil] at h
    exact ⟨[], List.nil_prefix, (List.prefix_nil.mp h).symm⟩
  | cons x t ih =>
    by_cases hx : p x = true
    . rw [reflow_cons_blank hx] at h
      have ⟨s, hs, heq⟩ := ih h hlast
      exact ⟨x :: s, List.cons_prefix_cons.mpr ⟨rfl, hs⟩, by rw [reflow_cons_blank hx, heq]⟩
    . rw [Bool.not_eq_true] at hx
      cases q with
      | nil => exact ⟨[], List.nil_prefix, rfl⟩
      | cons y q =>
        have ⟨rest, hrest⟩ := exists_reflow_cons blank hx t
        have hyx : y = x := by
          rw [hrest] at h
          exact (List.cons_prefix_cons.mp h).left
        subst hyx
        by_cases hq : q = []
        . exact ⟨[y], List.cons_prefix_cons.mpr ⟨rfl, List.nil_prefix⟩, by
            rw [hq, reflow_cons_alone hx (by rintro ⟨_, _, h, _⟩; cases h), reflow_nil, if_pos rfl]⟩
        . have hlast' : ∀ x, q.getLast? = some x → p x = false := by
            intro z hz
            refine hlast z ?_
            rw [List.getLast?_cons, hz]
            rfl
          by_cases ht : Letter p t
          . rw [reflow_cons_letter hx ht, List.cons_prefix_cons] at h
            have ⟨s, hs, heq⟩ := ih h.right hlast'
            have hne : s ≠ [] := by
              rintro rfl
              exact hq heq.symm
            refine ⟨y :: s, List.cons_prefix_cons.mpr ⟨rfl, hs⟩, ?_⟩
            rw [reflow_cons_letter hx (ht.of_longer hs hne), heq]
          . rw [reflow_cons_alone hx ht] at h
            split at h
            . exact (hq (List.prefix_nil.mp (List.cons_prefix_cons.mp h).right)).elim
            . have ⟨z, q', hz⟩ := List.exists_cons_of_ne_nil hq
              rw [hz, List.cons_prefix_cons, List.cons_prefix_cons] at h
              have ⟨_, hzblank, h⟩ := h
              subst hzblank
              have hq' : q' ≠ [] := by
                rintro rfl
                have := hlast' z (by rw [hz]; rfl)
                rw [hblank] at this
                cases this
              have ⟨s, hs, heq⟩ := ih h fun c hc => hlast' c (by rw [hz, List.getLast?_cons, hc]; rfl)
              have hsLetter : ¬ Letter p s := fun hletter => ht (hletter.of_shorter hs)
              refine ⟨y :: s, List.cons_prefix_cons.mpr ⟨rfl, hs⟩, ?_⟩
              rw [reflow_cons_alone hx hsLetter, heq, if_neg hq', hz]

/--
What the rewritten text ends with, from a word's letter on, is what an end of the text is rewritten to.
-/
theorem exists_suffix_reflow (hblank : p blank = true) {q : List α} (h : q <:+ reflow p blank t) (hq : Letter p q)
    : ∃ s, s <:+ t ∧ reflow p blank s = q := by
  induction t with
  | nil =>
    rw [reflow_nil] at h
    exact ⟨[], List.nil_suffix, (List.suffix_nil.mp h).symm⟩
  | cons x t ih =>
    have hlonger (h : q <:+ reflow p blank t) : ∃ s, s <:+ x :: t ∧ reflow p blank s = q := by
      have ⟨s, hs, heq⟩ := ih h
      exact ⟨s, hs.trans (List.suffix_cons _ _), heq⟩
    by_cases hx : p x = true
    . rw [reflow_cons_blank hx] at h
      exact hlonger h
    . rw [Bool.not_eq_true] at hx
      have hwhole (heq : q = reflow p blank (x :: t)) : ∃ s, s <:+ x :: t ∧ reflow p blank s = q :=
        ⟨x :: t, List.suffix_refl _, heq.symm⟩
      by_cases ht : Letter p t
      . rw [reflow_cons_letter hx ht] at h hwhole
        exact (List.suffix_cons_iff.mp h).elim hwhole hlonger
      . rw [reflow_cons_alone hx ht] at h hwhole
        split at h
        . next hnil =>
          rw [if_pos hnil] at hwhole
          refine (List.suffix_cons_iff.mp h).elim hwhole fun h => ?_
          exact hlonger (h.trans List.nil_suffix)
        . next hne =>
          rw [if_neg hne] at hwhole
          refine (List.suffix_cons_iff.mp h).elim hwhole fun h => ?_
          refine (List.suffix_cons_iff.mp h).elim (fun heq => ?_) hlonger
          -- It would begin with the blank.
          obtain ⟨y, q', hy, hletter⟩ := hq
          rw [hy] at heq
          rw [(List.cons.inj heq).left, hblank] at hletter
          cases hletter

/--
A rewritten text stands in another one exactly if a slice of the other text is rewritten to the same.
-/
theorem reflow_infix_iff (hblank : p blank = true) (q t : List α)
    : reflow p blank q <:+: reflow p blank t ↔ ∃ s, s <:+: t ∧ reflow p blank s = reflow p blank q := by
  constructor
  . rintro ⟨front, back, heq⟩
    by_cases hq : reflow p blank q = []
    . exact ⟨[], List.nil_infix, hq.symm⟩
    . have hsuffix : reflow p blank q ++ back <:+ reflow p blank t := by
        rw [← heq, List.append_assoc]
        exact List.suffix_append _ _
      have ⟨s, hs, hback⟩ := exists_suffix_reflow hblank hsuffix ((letter_reflow hq).of_shorter (List.prefix_append _ _))
      have hprefix : reflow p blank q <+: reflow p blank s := by
        rw [hback]
        exact List.prefix_append _ _
      have ⟨last, hlast, hletter⟩ := getLast?_reflow hq
      have ⟨s', hs', hsame⟩ := exists_prefix_reflow hblank hprefix fun x hx => by
        rw [hlast] at hx
        cases hx
        exact hletter
      exact ⟨s', hs'.isInfix.trans hs.isInfix, hsame⟩
  . rintro ⟨s, hs, hsame⟩
    rw [← hsame]
    exact reflow_infix hs

end Slices

section Maps

variable {β : Type} {r : β → Bool} {f : α → β}

/--
The words are replaced one by one where every letter stays a letter, and every blank a blank.
-/
theorem words_map (h : ∀ x, r (f x) = p x) (s : List α) : words r (s.map f) = (words p s).map (List.map f) := by
  have hsplit : (s.map f).splitOnP r = (s.splitOnP p).map (List.map f) := by
    induction s with
    | nil => rfl
    | cons x s ih =>
      rw [List.map_cons, List.splitOnP_cons_eq_if_modifyHead, List.splitOnP_cons_eq_if_modifyHead, h, ih]
      split
      . rfl
      . have ⟨word, rest, hrest⟩ := exists_splitOnP p s
        rw [hrest]
        rfl
  unfold words
  rw [hsplit, List.filter_map]
  congr 2
  funext word
  simp

end Maps

end Words
