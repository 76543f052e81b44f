import Legalise.DocumentVersions.Ledger

/-!
This module contains the closing of a proposal: which version is made of its accepted edits, and when none is.
-/

namespace DocumentVersions

open DocumentEdit (EditStatus applyAllAccepted)

variable {E : Env} {s t : State} {v : DocumentVersion} {d : Decision} {chosen : EditRow → Bool}

section Decisions

theorem Decision.status_ne_pending (d : Decision) : d.status ≠ .pending := by
  unfold Decision.status
  split <;> simp

theorem mem_editsOf {row : EditRow} {versionId : Uuid}
    : row ∈ editsOf s versionId ↔ row ∈ s.edits ∧ row.versionId = versionId := by
  simp [editsOf]

theorem pendingCount_eq_zero_iff {versionId : Uuid}
    : pendingCount s versionId = 0 ↔ ∀ row ∈ editsOf s versionId, row.status ≠ .pending := by
  unfold pendingCount
  rw [List.length_eq_zero_iff, List.filter_eq_nil_iff]
  simp

/--
Some edit of the version is accepted.
-/
def HasAccepted (s : State) (versionId : Uuid) : Prop :=
  ∃ row ∈ editsOf s versionId, row.status = .accepted

/--
A version is closed by the next one, which has the text of the accepted edits.
-/
structure ClosedBy (base : PyStr) (edits : List EditRow) (v w : DocumentVersion) : Prop where
  number : w.versionNumber = v.versionNumber + 1
  kind : w.kind = .userAccept
  text : ∃ order : List EditRow, order.Perm edits
    ∧ w.resolvedText = some (applyAllAccepted base ((order.filter (·.status = .accepted)).map (·.toEdit))).fst

theorem closedBy_closingVersion (hlatest : v.versionNumber = maxVersionNumber s) (haccepted : HasAccepted s v.id)
    : ClosedBy (getBaseText s) (editsOf s v.id) v (closingVersion s v d) := by
  refine ⟨?_, ?_, d.order.arrange (editsOf s v.id), d.order.perm _, rfl⟩
  . unfold closingVersion
    dsimp only
    rw [hlatest]
  . have ⟨row, hrow, hstatus⟩ := haccepted
    have hmem : row ∈ (d.order.arrange (editsOf s v.id)).filter (·.status = .accepted) := by
      rw [List.mem_filter, (d.order.perm _).mem_iff]
      exact ⟨hrow, by simp [hstatus]⟩
    unfold closingVersion
    dsimp only
    rw [if_neg (List.ne_nil_of_mem hmem)]

end Decisions

section Steps

/--
A step that decides the last pending edit of a proposal with accepted edits closes it.
-/
def LosesNothing (s t : State) : Prop :=
  ∀ v ∈ s.versions, 0 < pendingCount s v.id → pendingCount t v.id = 0 → HasAccepted t v.id
    → ∃ w, t.versions = s.versions ++ [w] ∧ ClosedBy (getBaseText s) (editsOf t v.id) v w

/--
The owner decides all pending edits of the version with the request, and some edit is accepted by it or was before.
-/
def EndsProposal (s : State) (r : Request) (v : DocumentVersion) : Prop :=
  ∃ d chosen, r.decisionOn = some (d, chosen) ∧ d.actorId = s.matter.createdById ∧ 0 < pendingCount s v.id
    ∧ (∀ row ∈ editsOf s v.id, row.status = .pending → chosen row = true) ∧ (d.accept = true ∨ HasAccepted s v.id)

/--
A proposal is ended while it is the latest version.
-/
def EndsLatest (s : State) (r : Request) : Prop :=
  ∀ v ∈ s.versions, EndsProposal s r v → v.versionNumber = maxVersionNumber s

theorem editsOf_append {rows : List EditRow} {versionId : Uuid} (hedits : t.edits = s.edits ++ rows)
    (hother : ∀ row ∈ rows, row.versionId ≠ versionId) : editsOf t versionId = editsOf s versionId := by
  unfold editsOf
  rw [hedits, List.filter_append, List.append_right_eq_self, List.filter_eq_nil_iff]
  intro row hrow
  simp [hother row hrow]

/--
A decision that leaves no pending edit chooses all that were.
-/
theorem endsProposal_of_decided {r : Request} {w : DocumentVersion} (made : r.decisionOn = some (d, chosen))
    (decided : Decided s t w d chosen) (hbefore : 0 < pendingCount s v.id) (hafter : pendingCount t v.id = 0)
    (haccepted : HasAccepted t v.id) : EndsProposal s r v := by
  rw [pendingCount_eq_zero_iff] at hafter
  refine ⟨d, chosen, made, decided.owner, hbefore, ?_, ?_⟩
  . intro row hrow hpending
    have ⟨hmem, hid⟩ := mem_editsOf.mp hrow
    by_contra hnot
    refine hafter row (mem_editsOf.mpr ⟨?_, hid⟩) hpending
    rw [decided.edits]
    exact List.mem_map.mpr ⟨row, hmem, by simp [hnot]⟩
  . have ⟨row, hrow, hstatus⟩ := haccepted
    have ⟨hmem, hid⟩ := mem_editsOf.mp hrow
    rw [decided.edits] at hmem
    have ⟨old, hold, heq⟩ := List.mem_map.mp hmem
    split at heq
    . left
      rw [← heq] at hstatus
      unfold Decision.status at hstatus
      split at hstatus
      . next haccept => exact haccept
      . cases hstatus
    . exact .inr ⟨old, mem_editsOf.mpr ⟨hold, by rw [heq, hid]⟩, by rw [heq]; exact hstatus⟩

theorem losesNothing_of_editsOf (h : ∀ v ∈ s.versions, editsOf t v.id = editsOf s v.id) : LosesNothing s t := by
  intro v hv hbefore hafter _
  unfold pendingCount at hbefore hafter
  rw [h v hv] at hafter
  omega

theorem editsOf_congr (h : t.edits = s.edits) (versionId : Uuid) : editsOf t versionId = editsOf s versionId := by
  unfold editsOf
  rw [h]

/--
A decision that chooses no pending edit of a version leaves its edits as they are.
-/
theorem editsOf_updatePending {versionId : Uuid}
    (h : ∀ row ∈ editsOf s versionId, chosen row = true → row.status ≠ .pending)
    : editsOf (updatePending s d chosen) versionId = editsOf s versionId := by
  unfold editsOf updatePending
  dsimp only
  have hsame : ∀ row ∈ editsOf s versionId,
      (if chosen row && row.status = .pending then
        { row with status := d.status, resolvedById := some d.actorId } else row) = row := by
    intro row hrow
    rw [if_neg]
    intro hchosen
    rw [Bool.and_eq_true, decide_eq_true_eq] at hchosen
    exact h row hrow hchosen.left hchosen.right
  have hfilter : s.edits.filter ((fun row => decide (row.versionId = versionId)) ∘ fun row =>
      if chosen row && row.status = .pending then
        { row with status := d.status, resolvedById := some d.actorId } else row)
      = editsOf s versionId := by
    apply List.filter_congr
    intro row _
    dsimp only [Function.comp]
    split <;> rfl
  rw [List.filter_map, hfilter, List.map_congr_left hsame, List.map_id']
  rfl

/--
Only edits of the decided version are decided.
-/
theorem Decided.editsOf_of_ne {w : DocumentVersion} (decided : Decided s t w d chosen) (hne : v.id ≠ w.id)
    : editsOf t v.id = editsOf s v.id := by
  rw [editsOf_congr decided.edits]
  refine editsOf_updatePending fun row hrow hchosen hpending => ?_
  have ⟨hmem, hid⟩ := mem_editsOf.mp hrow
  exact hne (hid.symm.trans (decided.own row hmem hchosen hpending))

/--
The edits of a version without pending ones stay as they are.
-/
theorem Decided.editsOf_of_none {w : DocumentVersion} (decided : Decided s t w d chosen)
    (hnone : pendingCount s v.id = 0) : editsOf t v.id = editsOf s v.id := by
  rw [editsOf_congr decided.edits]
  exact editsOf_updatePending fun row hrow _ => pendingCount_eq_zero_iff.mp hnone row hrow

/--
The version that ends is the one that is decided.
-/
theorem Decided.eq_of_ends {w : DocumentVersion} (h : Ledger s) (decided : Decided s t w d chosen)
    (hv : v ∈ s.versions) (hbefore : 0 < pendingCount s v.id) (hafter : pendingCount t v.id = 0) : v = w := by
  by_contra hne
  have hid : v.id ≠ w.id := fun hid => hne (h.eq_of_id hv decided.version hid)
  rw [pendingCount, decided.editsOf_of_ne hid] at hafter
  unfold pendingCount at hbefore
  omega

/--
A step loses nothing if a proposal that it ends is the latest version.
-/
theorem losesNothing_of_endsLatest (h : Ledger s) {r : Request} (hlatest : EndsLatest s r)
    : LosesNothing s (exec E s r) := by
  cases effect_exec (E := E) h.editIds r with
  | quiet versions edits body => exact losesNothing_of_editsOf fun v _ => editsOf_congr edits v.id
  | proposed v rows new kind text edits pending nodup freshIds body =>
    refine losesNothing_of_editsOf fun w hw => editsOf_append edits fun row hrow => ?_
    rw [(pending row hrow).right]
    exact (new.fresh w hw).symm
  | saved v new kind text edits body => exact losesNothing_of_editsOf fun v _ => editsOf_congr edits v.id
  | uploaded v result new kind text edits body => exact losesNothing_of_editsOf fun v _ => editsOf_congr edits v.id
  | restored v result new kind text edits body => exact losesNothing_of_editsOf fun v _ => editsOf_congr edits v.id
  | decided w d chosen made decided versions blocked =>
    intro v hv hbefore hafter haccepted
    have hmax := hlatest v hv (endsProposal_of_decided made decided hbefore hafter haccepted)
    have heq := decided.eq_of_ends h hv hbefore hafter
    subst heq
    omega
  | closed w d chosen made decided none latest new =>
    intro v hv hbefore hafter haccepted
    have heq := decided.eq_of_ends h hv hbefore hafter
    subst heq
    have hedits : editsOf (updatePending s d chosen) v.id = editsOf (exec E s r) v.id :=
      (editsOf_congr decided.edits v.id).symm
    refine ⟨_, new.versions, ?_⟩
    rw [← hedits]
    refine @closedBy_closingVersion (updatePending s d chosen) v d latest ?_
    unfold HasAccepted
    rw [hedits]
    exact haccepted
  | stoodIn w other d chosen made decided new kind text bare blocked =>
    intro v hv hbefore hafter haccepted
    have hmax := hlatest v hv (endsProposal_of_decided made decided hbefore hafter haccepted)
    have heq := decided.eq_of_ends h hv hbefore hafter
    subst heq
    omega

end Steps

section Runs

theorem editsOf_of_none (h : Ledger s) (r : Request) (hv : v ∈ s.versions) (hnone : pendingCount s v.id = 0)
    : editsOf (exec E s r) v.id = editsOf s v.id := by
  cases effect_exec (E := E) h.editIds r with
  | quiet versions edits body => exact editsOf_congr edits v.id
  | proposed w rows new kind text edits pending nodup freshIds body =>
    refine editsOf_append edits fun row hrow => ?_
    rw [(pending row hrow).right]
    exact (new.fresh v hv).symm
  | saved w new kind text edits body => exact editsOf_congr edits v.id
  | uploaded w result new kind text edits body => exact editsOf_congr edits v.id
  | restored w result new kind text edits body => exact editsOf_congr edits v.id
  | decided w d chosen made decided versions blocked => exact decided.editsOf_of_none hnone
  | closed w d chosen made decided none latest new => exact decided.editsOf_of_none hnone
  | stoodIn w other d chosen made decided new kind text bare blocked => exact decided.editsOf_of_none hnone

/--
A version that is new has no accepted edits.
-/
theorem mem_versions_of_hasAccepted (h : Ledger s) (r : Request) (hv : v ∈ (exec E s r).versions)
    (haccepted : HasAccepted (exec E s r) v.id) : v ∈ s.versions := by
  have ⟨row, hrow, hstatus⟩ := haccepted
  have ⟨hmem, hid⟩ := mem_editsOf.mp hrow
  have hold (hedits : ∃ old ∈ s.edits, old.versionId = row.versionId) : v ∈ s.versions := by
    have ⟨old, hold, heq⟩ := hedits
    have ⟨w, hw, hwid, _⟩ := h.hang old hold
    have hkeep : w ∈ (exec E s r).versions := by
      rcases versions_of_effect (effect_exec (E := E) h.editIds r) with heq | ⟨_, new⟩
      . rw [heq]
        exact hw
      . exact new.mem hw
    have : v = w := (ledger_exec h r).eq_of_id hv hkeep (by rw [hwid, heq, hid])
    rw [this]
    exact hw
  cases effect_exec (E := E) h.editIds r with
  | quiet versions edits body => exact hold ⟨row, edits ▸ hmem, rfl⟩
  | proposed w rows new kind text edits pending nodup freshIds body =>
    rw [edits] at hmem
    rcases List.mem_append.mp hmem with hmem | hmem
    . exact hold ⟨row, hmem, rfl⟩
    . rw [(pending row hmem).left] at hstatus
      cases hstatus
  | saved w new kind text edits body => exact hold ⟨row, edits ▸ hmem, rfl⟩
  | uploaded w result new kind text edits body => exact hold ⟨row, edits ▸ hmem, rfl⟩
  | restored w result new kind text edits body => exact hold ⟨row, edits ▸ hmem, rfl⟩
  | decided w d chosen made decided versions blocked =>
    exact hold (versionId_of_mem_updatePending (decided.edits ▸ hmem))
  | closed w d chosen made decided none latest new =>
    exact hold (versionId_of_mem_updatePending (decided.edits ▸ hmem))
  | stoodIn w other d chosen made decided new kind text bare blocked =>
    exact hold (versionId_of_mem_updatePending (decided.edits ▸ hmem))

variable (E) in
/--
In the run, the version is closed by one that was made of its edits and of the text that was current then.
-/
def ClosedIn (u : FirstUpload) (requests : List Request) (v w : DocumentVersion) : Prop :=
  ∃ earlier r, earlier ++ [r] <+: requests
    ∧ (run E u (earlier ++ [r])).versions = (run E u earlier).versions ++ [w]
    ∧ ClosedBy (getBaseText (run E u earlier)) (editsOf (run E u requests) v.id) v w

variable (E) in
/--
No accepted edit is lost in a run: every proposal that is decided with accepted edits is closed at once, stays so, and
a bulk decision about it points at the closing version or at a later one.
-/
structure KeepsAccepted (u : FirstUpload) (requests : List Request) : Prop where
  steps : ∀ earlier r, earlier ++ [r] <+: requests → LosesNothing (run E u earlier) (run E u (earlier ++ [r]))
  states : ∀ earlier, earlier <+: requests → ∀ v ∈ (run E u earlier).versions, pendingCount (run E u earlier) v.id = 0
    → HasAccepted (run E u earlier) v.id → ∃ w ∈ (run E u earlier).versions, ClosedIn E u earlier v w
  bulk : ∀ earlier versionId d, earlier ++ [.resolveAll versionId d] <+: requests → ∀ t count pointed,
    resolveBulk (run E u earlier) versionId d = .ok (t, count, pointed) → HasAccepted t versionId
      → ∃ v ∈ t.versions, v.id = versionId
        ∧ ∃ w ∈ t.versions, ClosedIn E u (earlier ++ [.resolveAll versionId d]) v w
          ∧ pointed ∈ t.versions ∧ w.versionNumber ≤ pointed.versionNumber

theorem closed_of_steps {u : FirstUpload} {requests : List Request}
    (hsteps : ∀ earlier r, earlier ++ [r] <+: requests → LosesNothing (run E u earlier) (run E u (earlier ++ [r])))
    : ∀ v ∈ (run E u requests).versions, pendingCount (run E u requests) v.id = 0
      → HasAccepted (run E u requests) v.id → ∃ w ∈ (run E u requests).versions, ClosedIn E u requests v w := by
  induction requests using List.reverseRecOn with
  | nil =>
    intro v _ _ haccepted
    have ⟨row, hrow, _⟩ := haccepted
    have ⟨hmem, _⟩ := mem_editsOf.mp hrow
    cases hmem
  | append_singleton requests r ih =>
    have hih := ih fun earlier r hbegin => hsteps earlier r (hbegin.trans (List.prefix_append _ _))
    have hstep := hsteps requests r (List.prefix_refl _)
    intro v hv hnone haccepted
    have hledger := ledger_run (E := E) u requests
    have hold : v ∈ (run E u requests).versions := by
      rw [run_concat] at hv haccepted
      exact mem_versions_of_hasAccepted hledger r hv haccepted
    by_cases hbefore : 0 < pendingCount (run E u requests) v.id
    . have ⟨w, hversions, hclosed⟩ := hstep v hold hbefore hnone haccepted
      refine ⟨w, by rw [hversions]; exact List.mem_append_right _ (List.mem_singleton_self w), requests, r,
        List.prefix_refl _, hversions, hclosed⟩
    . have hedits : editsOf (run E u (requests ++ [r])) v.id = editsOf (run E u requests) v.id := by
        rw [run_concat]
        exact editsOf_of_none hledger r hold (by omega)
      have haccepted' : HasAccepted (run E u requests) v.id := by
        unfold HasAccepted
        rw [← hedits]
        exact haccepted
      have ⟨w, hw, earlier, r', hbegin, hversions, hclosed⟩ := hih v hold (by omega) haccepted'
      refine ⟨w, (prefix_versions u requests [r]).subset hw, earlier, r', hbegin.trans (List.prefix_append _ _),
        hversions, ?_⟩
      rw [hedits]
      exact hclosed

theorem mem_of_latestTextVersion {w : DocumentVersion} (h : latestTextVersion s = some w)
    : w ∈ s.versions ∧ w.resolvedText.isSome = true
      ∧ ∀ v ∈ s.versions, v.resolvedText.isSome → v.versionNumber ≤ w.versionNumber := by
  unfold latestTextVersion at h
  have hmem := List.mem_filter.mp (List.argmax_mem h)
  exact ⟨hmem.left, hmem.right, fun v hv htext =>
    List.le_of_mem_argmax (List.mem_filter.mpr ⟨hv, htext⟩) h⟩

theorem Inserted.le_number {w : DocumentVersion} (new : Inserted s t v) (hw : w ∈ t.versions)
    : w.versionNumber ≤ v.versionNumber := by
  rcases new.mem_iff.mp hw with hw | rfl
  . have := le_maxVersionNumber hw
    rw [new.number]
    omega
  . exact le_refl _

theorem pendingCount_updatePending (versionId : Uuid)
    : pendingCount (updatePending s d (·.versionId = versionId)) versionId = 0 := by
  rw [pendingCount_eq_zero_iff]
  intro row hrow
  have ⟨hmem, hid⟩ := mem_editsOf.mp hrow
  have ⟨old, _, heq⟩ := List.mem_map.mp hmem
  split at heq
  . rw [← heq]
    exact d.status_ne_pending
  . next hnot =>
    rw [heq] at hnot
    simpa [hid] using hnot

/--
A bulk decision leaves no pending edit, and points at a version that is not older than any with a text.
-/
theorem pointed_of_resolveBulk {versionId : Uuid} {count : Nat} {pointed : DocumentVersion}
    (h : resolveBulk s versionId d = .ok (t, count, pointed))
    : pendingCount t versionId = 0 ∧ pointed ∈ t.versions
        ∧ ∀ w ∈ t.versions, w.resolvedText.isSome → w.versionNumber ≤ pointed.versionNumber := by
  have ⟨howner, v, u, closing, hv, hversion, hclose, _, hpointed⟩ := resolveBulk_eq_ok h
  have hown : ∀ row ∈ s.edits, decide (row.versionId = versionId) = true → row.status = .pending
      → row.versionId = v.id := by
    intro row _ hchosen _
    rw [hversion]
    exact of_decide_eq_true hchosen
  have hnone {u : State} (hedits : u.edits = (updatePending s d (·.versionId = versionId)).edits)
      : pendingCount u versionId = 0 := by
    rw [pendingCount_congr hedits, pendingCount_updatePending]
  have hdecided := effect_maybeCloseVersion howner hv hown hclose
  rcases hpointed with ⟨heq, rfl⟩ | ⟨heq, hstandIn⟩
  . rcases hdecided with ⟨hno, _⟩ | ⟨hsome, decided, _, _, new⟩
    . rw [hno] at heq
      contradiction
    . rw [hsome, Option.some.injEq] at heq
      rw [heq] at new
      exact ⟨hnone decided.edits, new.mem_iff.mpr (.inr rfl), fun w hw _ => new.le_number hw⟩
  . have hedits : u.edits = (updatePending s d (·.versionId = versionId)).edits := by
      rcases hdecided with ⟨_, decided, _⟩ | ⟨_, decided, _⟩ <;> exact decided.edits
    rcases standIn_eq_ok hstandIn with ⟨hlatest, rfl⟩ | ⟨_, new, _, _, hsame, _⟩
    . have ⟨hmem, _, hle⟩ := mem_of_latestTextVersion hlatest
      exact ⟨hnone hedits, hmem, hle⟩
    . exact ⟨hnone (hsame.trans hedits), new.mem_iff.mpr (.inr rfl), fun w hw _ => new.le_number hw⟩

/--
No accepted edit is lost in a run in which every proposal that is ended is the latest version at that moment.
-/
theorem keepsAccepted_of_endsLatest (u : FirstUpload) (requests : List Request)
    (h : ∀ earlier r, earlier ++ [r] <+: requests → EndsLatest (run E u earlier) r)
    : KeepsAccepted E u requests := by
  have hsteps : ∀ earlier r, earlier ++ [r] <+: requests
      → LosesNothing (run E u earlier) (run E u (earlier ++ [r])) := by
    intro earlier r hbegin
    rw [run_concat]
    exact losesNothing_of_endsLatest (ledger_run u earlier) (h earlier r hbegin)
  have hstates : ∀ earlier, earlier <+: requests → ∀ v ∈ (run E u earlier).versions,
      pendingCount (run E u earlier) v.id = 0 → HasAccepted (run E u earlier) v.id
        → ∃ w ∈ (run E u earlier).versions, ClosedIn E u earlier v w :=
    fun earlier hbegin => closed_of_steps fun before r hbefore => hsteps before r (hbefore.trans hbegin)
  refine ⟨hsteps, hstates, ?_⟩
  intro earlier versionId d hbegin t count pointed hbulk haccepted
  have hrun : run E u (earlier ++ [.resolveAll versionId d]) = t := by
    rw [run_concat]
    unfold exec
    dsimp only
    rw [hbulk]
    rfl
  have ⟨_, v, _, _, hv, hversion, _⟩ := resolveBulk_eq_ok hbulk
  subst hversion
  have hmem : v ∈ t.versions := by
    rw [← hrun]
    exact (prefix_versions u earlier _).subset hv
  have ⟨hnone, hpointed, hle⟩ := pointed_of_resolveBulk hbulk
  have ⟨w, hw, hclosed⟩ := hstates _ hbegin v (by rw [hrun]; exact hmem) (by rw [hrun]; exact hnone)
    (by rw [hrun]; exact haccepted)
  rw [hrun] at hw
  have ⟨_, _, _, _, hclosedBy⟩ := hclosed
  have ⟨_, _, htext⟩ := hclosedBy.text
  exact ⟨v, hmem, rfl, w, hw, hclosed, hpointed, hle w hw (by rw [htext]; rfl)⟩

end Runs

section Examples

/--
An edit is proposed, and it is accepted.
-/
def acceptedRun : List Request :=
  [proposal 2 10 "tenant" "lessee", .resolve (Uuid.ofNat 10) (decision true 3)]

/--
A manual save comes between the proposal and its acceptance.
-/
def savedBetween : List Request :=
  [proposal 2 10 "tenant" "lessee", manualSave 4 "The tenant pays rent.", .resolve (Uuid.ofNat 10) (decision true 3)]

theorem keepsAccepted_acceptedRun : KeepsAccepted plainEnv lease acceptedRun := by
  refine keepsAccepted_of_endsLatest lease acceptedRun fun earlier r hbegin => ?_
  match earlier, hbegin with
  | [], hbegin =>
    rw [List.nil_append, acceptedRun, List.cons_prefix_cons] at hbegin
    rw [hbegin.left]
    rintro v _ ⟨d, chosen, hmade, _⟩
    cases hmade
  | [_], hbegin =>
    rw [List.singleton_append, acceptedRun, List.cons_prefix_cons, List.cons_prefix_cons] at hbegin
    rw [hbegin.left]
    rintro v hv ⟨_, _, _, _, hpending, _⟩
    -- Only the proposal has pending edits.
    have hlatest : ∀ v ∈ (run plainEnv lease [proposal 2 10 "tenant" "lessee"]).versions,
        0 < pendingCount (run plainEnv lease [proposal 2 10 "tenant" "lessee"]) v.id
          → v.versionNumber = maxVersionNumber (run plainEnv lease [proposal 2 10 "tenant" "lessee"]) := by
      decide +kernel
    exact hlatest v hv hpending
  | a :: b :: earlier, hbegin =>
    have := hbegin.length_le
    simp [acceptedRun] at this

example : getBaseText (run plainEnv lease acceptedRun) = py "The lessee pays." := by
  decide +kernel

/--
The accepted edit is in no version.
-/
theorem not_keepsAccepted_savedBetween
    : getBaseText (run plainEnv lease savedBetween) = py "The tenant pays rent."
        ∧ ¬ KeepsAccepted plainEnv lease savedBetween := by
  refine ⟨by decide +kernel, fun h => ?_⟩
  have hstep := h.steps [proposal 2 10 "tenant" "lessee", manualSave 4 "The tenant pays rent."]
    (.resolve (Uuid.ofNat 10) (decision true 3)) (List.prefix_refl _)
  have hproposal : ∃ v ∈ (run plainEnv lease
      [proposal 2 10 "tenant" "lessee", manualSave 4 "The tenant pays rent."]).versions, v.id = Uuid.ofNat 2 := by
    decide +kernel
  have ⟨v, hv, hid⟩ := hproposal
  have hclosed := hstep v hv (by rw [hid]; decide +kernel) (by rw [hid]; decide +kernel) (by
    rw [hid]
    unfold HasAccepted
    decide +kernel)
  have ⟨w, hversions, _⟩ := hclosed
  have hlength := congrArg List.length hversions
  rw [List.length_append, List.length_singleton] at hlength
  revert hlength
  decide +kernel

end Examples

end DocumentVersions
