import Legalise.Lib.Cut
import Legalise.Lib.Sweep
import Legalise.Postgres.Value

/-!
This module contains the substitution of accepted edits at their anchors, and when the order of the edits does
not matter.
-/

namespace DocumentEdit

section Substitution

inductive EditStatus where
  | pending
  | accepted
  | rejected
  deriving DecidableEq

structure Edit where
  id : Uuid
  deletedText : PyStr
  insertedText : PyStr
  contextBefore : PyStr
  contextAfter : PyStr
  status : EditStatus
  deriving DecidableEq

def Edit.anchor (e : Edit) : PyStr :=
  e.contextBefore ++ e.deletedText ++ e.contextAfter

def Edit.replacement (e : Edit) : PyStr :=
  e.contextBefore ++ e.insertedText ++ e.contextAfter

/--
`text.replace(old, new, 1)` of a text with the word, and `none` for one without it.
-/
def replaceOnce (old new text : PyStr) : Option PyStr :=
  (Cut.cut old text).map fun (left, right) => left ++ new ++ right

def applied : PyStr := py "applied"

def applyAnchorSubstitution (baseText : PyStr) (e : Edit) : PyStr × PyStr :=
  if e.deletedText = [] ∧ e.insertedText = [] then (baseText, applied)
  else
    match if e.anchor ≠ [] then replaceOnce e.anchor e.replacement baseText else none with
    | some text => (text, applied)
    | none =>
      -- A bare search, for an edit without contexts.
      match if e.contextBefore = [] ∧ e.contextAfter = [] ∧ e.deletedText ≠ [] then
          replaceOnce e.deletedText e.insertedText baseText
        else none with
      | some text => (text, applied)
      | none => (baseText, py "skipped_no_anchor")

/--
One round of the loop over the edits.
-/
def applyAccepted (state : PyStr × List PyStr) (e : Edit) : PyStr × List PyStr :=
  if e.status ≠ .accepted then (state.fst, state.snd ++ [py "not_accepted"])
  else
    let (text, status) := applyAnchorSubstitution state.fst e
    (text, state.snd ++ [status])

def applyAllAccepted (baseText : PyStr) (edits : List Edit) : PyStr × List PyStr :=
  edits.foldl applyAccepted (baseText, [])

theorem applyAllAccepted_concat (baseText : PyStr) (edits : List Edit) (e : Edit)
    : applyAllAccepted baseText (edits ++ [e]) = applyAccepted (applyAllAccepted baseText edits) e := by
  unfold applyAllAccepted
  rw [List.foldl_append]
  rfl

end Substitution

section Simultaneous

/--
Where the deleted text of an edit starts in the base text.
-/
def Edit.start (baseText : PyStr) (e : Edit) : Nat :=
  ((Cut.cut e.anchor baseText).map fun (left, _) => left.length + e.contextBefore.length).getD 0

/--
Where it ends.
-/
def Edit.stop (baseText : PyStr) (e : Edit) : Nat :=
  e.start baseText + e.deletedText.length

def Edit.piece (baseText : PyStr) (e : Edit) : Sweep.Piece CodePoint :=
  ⟨e.start baseText, e.stop baseText, e.insertedText⟩

/--
Edits whose anchors occur exactly once each, around deleted texts that do not overlap.
-/
structure Anchored (baseText : PyStr) (edits : List Edit) : Prop where
  nodup : edits.Nodup
  accepted : ∀ e ∈ edits, e.status = .accepted
  anchor_ne : ∀ e ∈ edits, e.anchor ≠ []
  once : ∀ e ∈ edits, Cut.occurrences e.anchor baseText = 1
  disjoint : edits.Pairwise fun e f =>
    e.stop baseText ≤ f.start baseText ∨ f.stop baseText ≤ e.start baseText

/--
The edits in the order of their deleted texts.
-/
def layout (baseText : PyStr) (edits : List Edit) : List Edit :=
  Sweep.sortBy (fun e => toLex (e.start baseText, e.stop baseText)) edits

/--
The base text with the deleted texts of the chosen edits replaced, all at once.
-/
def simultaneous (baseText : PyStr) (edits chosen : List Edit) : PyStr :=
  Sweep.weave baseText 0 (((layout baseText edits).filter (· ∈ chosen)).map (Edit.piece baseText))

/--
What that text has before the deleted text of another edit.
-/
def textBefore (baseText : PyStr) (edits chosen : List Edit) (e : Edit) : PyStr :=
  Sweep.weave (baseText.take (e.start baseText)) 0
    ((((layout baseText edits).takeWhile (· ≠ e)).filter (· ∈ chosen)).map (Edit.piece baseText))

variable {baseText : PyStr} {edits chosen : List Edit} {e : Edit}

theorem mem_layout : e ∈ layout baseText edits ↔ e ∈ edits :=
  Sweep.mem_sortBy

theorem simultaneous_congr {other : List Edit} (h : ∀ e, e ∈ chosen ↔ e ∈ other)
    : simultaneous baseText edits chosen = simultaneous baseText edits other := by
  have hfilter : (layout baseText edits).filter (· ∈ chosen) = (layout baseText edits).filter (· ∈ other) := by
    apply List.filter_congr
    intro e _
    rw [decide_eq_decide]
    exact h e
  unfold simultaneous
  rw [hfilter]

theorem simultaneous_nil : simultaneous baseText edits [] = baseText := by
  simp [simultaneous, Sweep.weave]

namespace Anchored

theorem nodup_layout (h : Anchored baseText edits) : (layout baseText edits).Nodup :=
  (Sweep.perm_sortBy edits).nodup_iff.mpr h.nodup

/--
In the layout, every deleted text ends before the next one starts.
-/
theorem pairwise_layout (h : Anchored baseText edits)
    : (layout baseText edits).Pairwise fun e f => e.stop baseText ≤ f.start baseText := by
  have hdisjoint : (layout baseText edits).Pairwise fun e f =>
      e.stop baseText ≤ f.start baseText ∨ f.stop baseText ≤ e.start baseText := by
    refine (Sweep.perm_sortBy edits).symm.pairwise h.disjoint ?_
    intro e f hor
    exact hor.symm
  refine ((Sweep.pairwise_sortBy edits).and hdisjoint).imp ?_
  intro e f hef
  have ⟨hle, hor⟩ := hef
  have hf : f.start baseText ≤ f.stop baseText := Nat.le_add_right _ _
  rw [Prod.Lex.toLex_le_toLex] at hle
  dsimp only at hle
  omega

/--
The deleted text stands where the anchor says.
-/
theorem cut_eq (h : Anchored baseText edits) (he : e ∈ edits)
    : ∃ left right, Cut.cut e.anchor baseText = some (left, right)
        ∧ e.start baseText = left.length + e.contextBefore.length := by
  have honce := h.once e he
  cases hcut : Cut.cut e.anchor baseText with
  | none =>
    rw [Cut.cut_eq_none_iff] at hcut
    exact absurd (Cut.isInfix_of_occurrences_pos (by omega)) hcut
  | some parts => exact ⟨parts.fst, parts.snd, rfl, by simp [Edit.start, hcut]⟩

theorem take_stop (h : Anchored baseText edits) (he : e ∈ edits)
    : (baseText.take (e.stop baseText)).drop (e.start baseText) = e.deletedText := by
  have ⟨left, right, hcut, hstart⟩ := h.cut_eq he
  have hbase : baseText = (left ++ e.contextBefore) ++ e.deletedText ++ (e.contextAfter ++ right) := by
    conv => lhs; rw [Cut.eq_of_cut hcut]
    simp [Edit.anchor]
  have hlength : (left ++ e.contextBefore).length = e.start baseText := by
    rw [hstart, List.length_append]
  have htake : baseText.take (e.stop baseText) = left ++ e.contextBefore ++ e.deletedText := by
    have := congrArg (List.take (e.stop baseText)) hbase
    rwa [List.take_left'] at this
    rw [List.length_append, hlength, Edit.stop]
  rw [htake, List.drop_left' hlength]

/--
An edit that is not chosen has its deleted text where it has its inserted text when it is chosen as well.
-/
theorem exists_textAfter (h : Anchored baseText edits) (he : e ∈ edits) (hnot : e ∉ chosen)
    : ∃ textAfter, simultaneous baseText edits chosen
          = textBefore baseText edits chosen e ++ e.deletedText ++ textAfter
        ∧ simultaneous baseText edits (e :: chosen)
          = textBefore baseText edits chosen e ++ e.insertedText ++ textAfter := by
  have hmem : e ∈ layout baseText edits := mem_layout.mpr he
  have ⟨before, after, hsplit⟩ := List.append_of_mem hmem
  have hnodup := h.nodup_layout
  have hpairwise := h.pairwise_layout
  rw [hsplit, List.nodup_append] at hnodup
  rw [hsplit, List.pairwise_append, List.pairwise_cons] at hpairwise
  have hbefore : e ∉ before := fun hmem => hnodup.right.right e hmem e (by simp) rfl
  have hafter : e ∉ after := (List.nodup_cons.mp hnodup.right.left).left
  have hother {part : List Edit} (hpart : e ∉ part)
      : part.filter (· ∈ e :: chosen) = part.filter (· ∈ chosen) := by
    apply List.filter_congr
    intro f hf
    have hne : f ≠ e := fun heq => hpart (heq ▸ hf)
    simp [hne]
  have htakeWhile : (layout baseText edits).takeWhile (· ≠ e) = before := by
    rw [hsplit, List.takeWhile_append_of_pos, List.takeWhile_cons_of_neg, List.append_nil]
    . simp
    . intro f hf
      have hne : f ≠ e := fun heq => hbefore (heq ▸ hf)
      simpa using hne
  have hps : ∀ p ∈ (before.filter (· ∈ chosen)).map (Edit.piece baseText),
      p.start ≤ p.stop ∧ p.stop ≤ e.start baseText := by
    intro p hp
    have ⟨f, hf, heq⟩ := List.mem_map.mp hp
    rw [← heq]
    exact ⟨Nat.le_add_right _ _, hpairwise.right.right f (List.mem_of_mem_filter hf) e (by simp)⟩
  have hqs : ∀ q ∈ (after.filter (· ∈ chosen)).map (Edit.piece baseText), e.stop baseText ≤ q.start := by
    intro q hq
    have ⟨f, hf, heq⟩ := List.mem_map.mp hq
    rw [← heq]
    exact hpairwise.right.left.left f (List.mem_of_mem_filter hf)
  have hproper : e.start baseText ≤ e.stop baseText := Nat.le_add_right _ _
  refine ⟨Sweep.weave baseText (e.stop baseText) ((after.filter (· ∈ chosen)).map (Edit.piece baseText)), ?_, ?_⟩
  . unfold simultaneous textBefore
    rw [htakeWhile, hsplit, List.filter_append, List.filter_cons_of_neg (by simpa using hnot), List.map_append,
      Sweep.weave_append (Nat.zero_le _) hps fun q hq => hproper.trans (hqs q hq),
      Sweep.weave_eq_drop_append hproper hqs, h.take_stop he, List.append_assoc]
  . unfold simultaneous textBefore
    rw [htakeWhile, hsplit, List.filter_append, hother hbefore, List.filter_cons_of_pos (by simp), hother hafter,
      List.map_append, Sweep.weave_append (Nat.zero_le _) hps]
    . have hhead : (baseText.take (e.start baseText)).drop (e.start baseText) = [] := by
        simp
      show _ ++ ((baseText.take (e.start baseText)).drop (e.start baseText) ++ e.insertedText ++ _) = _
      rw [hhead, List.nil_append, List.append_assoc]
      rfl
    . intro q hq
      rcases List.mem_cons.mp hq with heq | hq
      . rw [heq]
        exact le_refl _
      . exact hproper.trans (hqs q hq)

end Anchored

end Simultaneous

section Commute

/--
Whichever of the edits are accepted, and in whatever order they come: each of them is applied, and together they
replace their deleted texts in the base text at once.
-/
def Commute (baseText : PyStr) (edits : List Edit) : Prop :=
  ∀ order : List Edit, order.Nodup → order ⊆ edits
    → applyAllAccepted baseText order = (simultaneous baseText edits order, order.map fun _ => applied)

/--
Once other edits are applied, an edit still finds its anchor, first of all around its own deleted text, or at a
place where the replacement makes the same text.
-/
def FindsAnchor (baseText : PyStr) (edits chosen : List Edit) (e : Edit) : Prop :=
  ∃ left right, Cut.cut e.anchor (simultaneous baseText edits chosen) = some (left, right)
    ∧ (left.length + e.contextBefore.length = (textBefore baseText edits chosen e).length
      ∨ left ++ e.replacement ++ right = simultaneous baseText edits (e :: chosen))

/--
Every edit that changes anything finds its anchor, whichever of the others are applied before it.
-/
def KeepAnchors (baseText : PyStr) (edits : List Edit) : Prop :=
  ∀ chosen : List Edit, chosen.Nodup → chosen ⊆ edits → ∀ e ∈ edits, e ∉ chosen
    → (e.deletedText = [] ∧ e.insertedText = []) ∨ FindsAnchor baseText edits chosen e

variable {baseText : PyStr} {edits chosen : List Edit} {e : Edit}

/--
At its own place, the anchor's replacement is the replacement of the deleted text.
-/
theorem replacement_eq {text before after left right : PyStr} (htext : text = before ++ e.deletedText ++ after)
    (hcut : Cut.cut e.anchor text = some (left, right))
    (hlength : left.length + e.contextBefore.length = before.length)
    : left ++ e.replacement ++ right = before ++ e.insertedText ++ after := by
  have heq : (left ++ e.contextBefore) ++ (e.deletedText ++ (e.contextAfter ++ right))
      = before ++ (e.deletedText ++ after) := by
    have := (Cut.eq_of_cut hcut).symm.trans htext
    simpa [Edit.anchor] using this
  have ⟨hbefore, hrest⟩ := List.append_inj heq (by rw [List.length_append, hlength])
  have hafter := List.append_cancel_left hrest
  rw [← hbefore, ← hafter]
  simp [Edit.replacement]

theorem replaceOnce_eq_none {old new text : PyStr} (h : Cut.cut old text = none) : replaceOnce old new text = none := by
  simp [replaceOnce, h]

theorem applyAnchorSubstitution_of_cut {text left right : PyStr} (hne : e.anchor ≠ [])
    (hdelta : ¬ (e.deletedText = [] ∧ e.insertedText = [])) (hcut : Cut.cut e.anchor text = some (left, right))
    : applyAnchorSubstitution text e = (left ++ e.replacement ++ right, applied) := by
  unfold applyAnchorSubstitution
  rw [if_neg hdelta, if_pos hne]
  simp [replaceOnce, hcut]

/--
Without contexts the bare search looks for the anchor once more.
-/
theorem applyAnchorSubstitution_of_not_mem {text : PyStr} (hdelta : ¬ (e.deletedText = [] ∧ e.insertedText = []))
    (hcut : Cut.cut e.anchor text = none)
    : applyAnchorSubstitution text e = (text, py "skipped_no_anchor") := by
  have hbare : (if e.contextBefore = [] ∧ e.contextAfter = [] ∧ e.deletedText ≠ [] then
      replaceOnce e.deletedText e.insertedText text else none) = none := by
    split
    . next h =>
      have hanchor : e.anchor = e.deletedText := by
        simp [Edit.anchor, h.left, h.right.left]
      exact replaceOnce_eq_none (hanchor ▸ hcut)
    . rfl
  unfold applyAnchorSubstitution
  rw [if_neg hdelta, replaceOnce_eq_none hcut, ite_self, hbare]

/--
One step of the loop applies an edit to the text in which others are applied, if and only if the edit finds its
anchor there.
-/
theorem applyAnchorSubstitution_eq_iff (h : Anchored baseText edits) (he : e ∈ edits) (hnot : e ∉ chosen)
    : applyAnchorSubstitution (simultaneous baseText edits chosen) e
          = (simultaneous baseText edits (e :: chosen), applied)
        ↔ (e.deletedText = [] ∧ e.insertedText = []) ∨ FindsAnchor baseText edits chosen e := by
  have ⟨textAfter, hchosen, hall⟩ := h.exists_textAfter he hnot
  by_cases hdelta : e.deletedText = [] ∧ e.insertedText = []
  . refine iff_of_true ?_ (.inl hdelta)
    unfold applyAnchorSubstitution
    rw [if_pos hdelta, hchosen, hall, hdelta.left, hdelta.right]
  . unfold FindsAnchor
    cases hcut : Cut.cut e.anchor (simultaneous baseText edits chosen) with
    | none =>
      rw [applyAnchorSubstitution_of_not_mem hdelta hcut]
      have hstatus : py "skipped_no_anchor" ≠ applied := by
        decide
      simp [hdelta, hstatus]
    | some parts =>
      have ⟨left, right⟩ := parts
      rw [applyAnchorSubstitution_of_cut (h.anchor_ne e he) hdelta hcut]
      constructor
      . intro heq
        exact .inr ⟨left, right, rfl, .inr (congrArg Prod.fst heq)⟩
      . rintro (hno | ⟨left', right', heq, hplace⟩)
        . exact absurd hno hdelta
        . cases heq
          rcases hplace with hown | hsame
          . rw [replacement_eq hchosen hcut hown, hall]
          . rw [hsame]

theorem applyAccepted_of_accepted {state : PyStr × List PyStr} (h : e.status = .accepted)
    : applyAccepted state e
        = ((applyAnchorSubstitution state.fst e).fst, state.snd ++ [(applyAnchorSubstitution state.fst e).snd]) := by
  simp [applyAccepted, h]

/--
Edits commute, if and only if each of them keeps its anchor whichever others are applied before it.
-/
theorem commute_iff (h : Anchored baseText edits) : Commute baseText edits ↔ KeepAnchors baseText edits := by
  have hcons (order : List Edit) (e : Edit)
      : simultaneous baseText edits (order ++ [e]) = simultaneous baseText edits (e :: order) := by
    apply simultaneous_congr
    intro f
    simp [or_comm]
  constructor
  . intro hcommute chosen hnodup hsub e he hnot
    rw [← applyAnchorSubstitution_eq_iff h he hnot]
    have hlast : (chosen ++ [e]).Nodup := by
      rw [List.nodup_append]
      refine ⟨hnodup, List.nodup_singleton e, ?_⟩
      intro f hf g hg heq
      rw [List.mem_singleton.mp hg] at heq
      exact hnot (heq ▸ hf)
    have hall := hcommute (chosen ++ [e]) hlast (List.append_subset.mpr ⟨hsub, by simpa using he⟩)
    rw [applyAllAccepted_concat, hcommute chosen hnodup hsub, applyAccepted_of_accepted (h.accepted e he), hcons,
      List.map_append, Prod.mk.injEq] at hall
    have hstatus := List.append_cancel_left hall.right
    exact Prod.ext hall.left (List.cons.inj hstatus).left
  . intro hkeep order hnodup hsub
    induction order using List.reverseRecOn with
    | nil => simp [applyAllAccepted, simultaneous_nil]
    | append_singleton order e ih =>
      rw [List.nodup_append] at hnodup
      rw [List.append_subset] at hsub
      have he : e ∈ edits := hsub.right (by simp)
      have hnot : e ∉ order := fun hmem => hnodup.right.right e hmem e (by simp) rfl
      have hstep := (applyAnchorSubstitution_eq_iff h he hnot).mpr (hkeep order hnodup.left hsub.left e he hnot)
      rw [applyAllAccepted_concat, ih hnodup.left hsub.left, applyAccepted_of_accepted (h.accepted e he), hstep,
        hcons, List.map_append]
      rfl

/--
The order of a query without `ORDER BY` then makes no difference.
-/
theorem Commute.perm {order other : List Edit} (h : Commute baseText edits) (hnodup : order.Nodup)
    (hsub : order ⊆ edits) (hperm : order.Perm other)
    : (applyAllAccepted baseText order).fst = (applyAllAccepted baseText other).fst := by
  rw [h order hnodup hsub, h other (hperm.nodup_iff.mp hnodup) (List.Subset.trans hperm.symm.subset hsub)]
  exact simultaneous_congr fun e => hperm.mem_iff

end Commute

section Examples

def edit (id : Fin 10) (deletedText insertedText contextAfter : PyStr) : Edit where
  id := ⟨id.val, by omega⟩
  deletedText := deletedText
  insertedText := insertedText
  contextBefore := []
  contextAfter := contextAfter
  status := .accepted

/--
The context of the first edit is what the second one deletes.
-/
def adjacent : List Edit :=
  [edit 1 (py "one") (py "1") (py " two"), edit 2 (py "two") (py "2") []]

theorem adjacent_not_commute
    : Anchored (py "one two three") adjacent
        ∧ (applyAllAccepted (py "one two three") adjacent).fst = py "1 2 three"
        ∧ applyAllAccepted (py "one two three") adjacent.reverse
          = (py "one 2 three", [applied, py "skipped_no_anchor"])
        ∧ ¬ Commute (py "one two three") adjacent := by
  refine ⟨⟨by decide +kernel, by decide +kernel, by decide +kernel, by decide +kernel, by decide +kernel⟩,
    by decide +kernel, by decide +kernel, fun h => ?_⟩
  have := h adjacent.reverse (by decide +kernel) (by decide +kernel)
  revert this
  decide +kernel

/--
Two edits at disjoint places, neither of which is the context of the other.
-/
def apart : List Edit :=
  [edit 1 (py "one") (py "1") (py " two"), edit 2 (py "three") (py "3") []]

theorem commute_iff_apart
    : Commute (py "one two three") apart
        ∧ (applyAllAccepted (py "one two three") apart).fst = py "1 two 3"
        ∧ (applyAllAccepted (py "one two three") apart.reverse).fst = py "1 two 3" := by
  have hanchored : Anchored (py "one two three") apart :=
    ⟨by decide +kernel, by decide +kernel, by decide +kernel, by decide +kernel, by decide +kernel⟩
  refine ⟨(commute_iff hanchored).mpr fun chosen hnodup hsub e he hnot => ?_, by decide +kernel, by decide +kernel⟩
  -- Besides the edit itself at most the other one has been applied.
  have hother (other : Edit) (hrest : ∀ f ∈ chosen, f = other) : chosen = [] ∨ chosen = [other] := by
    obtain ⟨n, hn⟩ := List.subset_singleton_iff.mp fun f hf => List.mem_singleton.mpr (hrest f hf)
    rw [hn, List.nodup_replicate] at hnodup
    interval_cases n
    . exact .inl hn
    . exact .inr hn
  have hmem (f : Edit) (hf : f ∈ chosen)
      : f = edit 1 (py "one") (py "1") (py " two") ∨ f = edit 2 (py "three") (py "3") [] := by
    simpa [apart] using hsub hf
  rcases List.mem_pair.mp he with rfl | rfl
  . rcases hother _ fun f hf => (hmem f hf).resolve_left (fun heq => hnot (heq ▸ hf)) with rfl | rfl
    . exact .inr ⟨[], py " three", by decide +kernel, .inl (by decide +kernel)⟩
    . exact .inr ⟨[], py " 3", by decide +kernel, .inl (by decide +kernel)⟩
  . rcases hother _ fun f hf => (hmem f hf).resolve_right (fun heq => hnot (heq ▸ hf)) with rfl | rfl
    . exact .inr ⟨py "one two ", [], by decide +kernel, .inl (by decide +kernel)⟩
    . exact .inr ⟨py "1 two ", [], by decide +kernel, .inl (by decide +kernel)⟩

end Examples

end DocumentEdit
