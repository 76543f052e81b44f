import Legalise.AdviceBoundary.Gate
import Legalise.AuditReconstruction.Lemmas

/-!
This module contains what the timeline of a matter has of the decisions of the advice boundary: those
on the calls that passed every check of the gate.
-/

namespace AdviceBoundary

open AuditReconstruction Keyset

variable {R : PyRepr} {firmRoleGatesEnabled : Bool}

theorem get_update_of_notMem {d other : Dict} {key : PyStr} (h : key ∉ other.map Prod.fst)
    : (update d other).get key = d.get key := by
  induction other generalizing d with
  | nil => rfl
  | cons item other ih =>
    rw [List.map_cons, List.mem_cons, not_or] at h
    have := @ih (d.set item.fst item.snd) h.right
    rw [Dict.get_set, if_neg h.left] at this
    exact this

/--
The gate state of a refusal says nothing of the matter unless the branch puts it there.
-/
theorem get_ofBlocked {status action : PyStr} {reason : BlockedReason}
    {deniedCapability : Option PyStr} {gateState : Dict} (h : py "matter_id" ∉ gateState.map Prod.fst)
    : (Verdict.ofBlocked status action ⟨reason, deniedCapability, some gateState⟩).gateState.get
        (py "matter_id") = .null := by
  unfold Verdict.ofBlocked blockedToDecisionGateState
  dsimp only
  rw [get_update_of_notMem h]
  apply Dict.get_eq_null
  cases deniedCapability with
  | none =>
    have : py "matter_id" ∉ [py "status", py "blocked_reason"] := by
      decide
    exact this
  | some capability =>
    have : py "matter_id" ∉ [py "status", py "blocked_reason", py "denied_capability"] := by
      decide
    exact this

/--
A call that gets through to the end of `check`.
-/
structure Passes (firmRoleGatesEnabled : Bool) (call : Call) : Prop where
  tiers : ∀ tier ∈ call.tiers, isTier tier = true
  initial : call.fromTier = none → initialTierIsPermitted call.requestedTier = true
  transition : ∀ fromTier ∈ call.fromTier,
    isTerminalTier fromTier = false ∧ isAllowedTransition fromTier call.requestedTier = true
  role : firmRoleGatesEnabled = true → roleSatisfies call.actorRole call.roleRequirement = true
  ceiling : ∀ declaredTierMax ∈ call.declaredTierMax,
    tierRank call.requestedTier ≤ tierRank declaredTierMax

section Branches

variable (call : Call)

theorem get_failed (tier : PyStr) : (failed R tier).gateState.get (py "matter_id") = .null := by
  apply Dict.get_eq_null
  have : py "matter_id" ∉ [py "error", py "detail"] := by
    decide
  exact this

theorem get_blockedTerminal (fromTier : PyStr)
    : (blockedTerminal call fromTier).gateState.get (py "matter_id") = .null := by
  unfold blockedTerminal
  apply get_ofBlocked
  have : py "matter_id" ∉ [py "from_tier", py "to_tier", py "reason"] := by
    decide
  exact this

theorem get_blockedTransition (fromTier : PyStr)
    : (blockedTransition call fromTier).gateState.get (py "matter_id") = .null := by
  unfold blockedTransition
  apply get_ofBlocked
  have : py "matter_id" ∉ [py "from_tier", py "to_tier", py "reason"] := by
    decide
  exact this

theorem get_blockedInitialTier
    : (blockedInitialTier call).gateState.get (py "matter_id") = .null := by
  unfold blockedInitialTier
  apply get_ofBlocked
  have : py "matter_id" ∉ [py "to_tier", py "reason", py "max_initial_tier"] := by
    decide
  exact this

theorem get_deniedRole : (deniedRole call).gateState.get (py "matter_id") = .null := by
  unfold deniedRole
  apply get_ofBlocked
  have : py "matter_id" ∉ [py "actor_role", py "required", py "from_tier", py "to_tier"] := by
    decide
  exact this

theorem get_deniedTierExceeded (declaredTierMax : PyStr)
    : (deniedTierExceeded call declaredTierMax).gateState.get (py "matter_id") = .null := by
  unfold deniedTierExceeded
  apply get_ofBlocked
  have : py "matter_id" ∉ [py "requested_tier", py "declared_tier_max", py "reason"] := by
    decide
  exact this

theorem get_completed
    : (completed call).gateState.get (py "matter_id") = str? call.matterId := by
  unfold completed
  dsimp only
  split
  . next matterId hmatter =>
    rw [Dict.get_set, if_pos rfl, hmatter]
    rfl
  . next hmatter =>
    rw [hmatter]
    apply Dict.get_eq_null
    have : py "matter_id" ∉ [py "allowed", py "declared_tier_max_supplied"] := by
      decide
    exact this

theorem get_verdictOnActor {call : Call}
    (h : (firmRoleGatesEnabled = true → roleSatisfies call.actorRole call.roleRequirement = true) →
      ¬ ∀ declaredTierMax ∈ call.declaredTierMax,
        tierRank call.requestedTier ≤ tierRank declaredTierMax)
    : (verdictOnActor firmRoleGatesEnabled call).gateState.get (py "matter_id") = .null := by
  unfold verdictOnActor
  split
  . next hrole =>
    have hceiling := h (by
      intro henabled
      simpa [henabled] using hrole)
    split
    . next declaredTierMax hmax =>
      split
      . exact get_deniedTierExceeded call declaredTierMax
      . next hle =>
        refine absurd ?_ hceiling
        intro other hother
        rw [hmax, Option.mem_some_iff] at hother
        rw [← hother]
        omega
    . next hmax =>
      refine absurd ?_ hceiling
      simp [hmax]
  . exact get_deniedRole call

end Branches

theorem verdict_of_passes {call : Call} (h : Passes firmRoleGatesEnabled call)
    : verdict R firmRoleGatesEnabled call = completed call := by
  have hactor : verdictOnActor firmRoleGatesEnabled call = completed call := by
    have hrole : (!firmRoleGatesEnabled || roleSatisfies call.actorRole call.roleRequirement) = true := by
      cases henabled : firmRoleGatesEnabled with
      | false => rfl
      | true => simpa using h.role henabled
    unfold verdictOnActor
    rw [if_pos hrole]
    split
    . next declaredTierMax hmax =>
      have := h.ceiling declaredTierMax hmax
      rw [if_neg (by omega)]
    . rfl
  have htiers : call.tiers.find? (fun tier => !isTier tier) = none := by
    rw [List.find?_eq_none]
    intro tier htier
    simp [h.tiers tier htier]
  unfold verdict
  rw [htiers]
  dsimp only
  split
  . next fromTier hfrom =>
    have ⟨hterminal, hallowed⟩ := h.transition fromTier hfrom
    rw [hterminal, hallowed]
    exact hactor
  . next hfrom =>
    rw [h.initial hfrom]
    exact hactor

/--
Every branch but the last one leaves the matter out.
-/
theorem get_matterId_of_not_passes {call : Call} (h : ¬ Passes firmRoleGatesEnabled call)
    : (verdict R firmRoleGatesEnabled call).gateState.get (py "matter_id") = .null := by
  unfold verdict
  split
  . next tier _ => exact get_failed tier
  . next htiers =>
    have htiers : ∀ tier ∈ call.tiers, isTier tier = true := by
      simpa using htiers
    split
    . next fromTier hfrom =>
      split
      . exact get_blockedTerminal call fromTier
      . next hterminal =>
        split
        . next hallowed =>
          apply get_verdictOnActor
          intro hrole hceiling
          refine h ⟨htiers, by simp [hfrom], ?_, hrole, hceiling⟩
          intro other hother
          rw [hfrom, Option.mem_some_iff] at hother
          exact hother ▸ ⟨by simpa using hterminal, hallowed⟩
        . exact get_blockedTransition call fromTier
    . next hfrom =>
      split
      . next hinitial =>
        apply get_verdictOnActor
        intro hrole hceiling
        exact h ⟨htiers, fun _ => hinitial, by simp [hfrom], hrole, hceiling⟩
      . exact get_blockedInitialTier call

/--
A call of `check` whose transaction is committed. What is written to the other tables does not matter.
-/
structure CheckStep (R : PyRepr) (firmRoleGatesEnabled : Bool) (call : Call)
    (row : AdviceBoundaryDecision) (db db' : TimelineTables) : Prop where
  row_eq : row = (check R firmRoleGatesEnabled call row.id row.decidedAt).decision
  decisions : db'.decisions = db.decisions ++ [row]

/--
A sequence of calls with the rows that they append.
-/
inductive Checks (R : PyRepr) (firmRoleGatesEnabled : Bool)
    : List (Call × AdviceBoundaryDecision) → TimelineTables → TimelineTables → Prop where
  | nil (db : TimelineTables) : Checks R firmRoleGatesEnabled [] db db
  | cons {call : Call} {row : AdviceBoundaryDecision} {calls : List (Call × AdviceBoundaryDecision)}
    {db db' db'' : TimelineTables} (hstep : CheckStep R firmRoleGatesEnabled call row db db')
    (hcalls : Checks R firmRoleGatesEnabled calls db' db'')
    : Checks R firmRoleGatesEnabled ((call, row) :: calls) db db''

theorem Checks.decisions {calls : List (Call × AdviceBoundaryDecision)} {db db' : TimelineTables}
    (h : Checks R firmRoleGatesEnabled calls db db')
    : db'.decisions = db.decisions ++ calls.map Prod.snd := by
  induction h with
  | nil => simp
  | cons hstep _ ih => rw [ih, hstep.decisions, List.map_cons, List.append_assoc, List.singleton_append]

theorem Checks.row_eq {calls : List (Call × AdviceBoundaryDecision)} {db db' : TimelineTables}
    (h : Checks R firmRoleGatesEnabled calls db db') {call : Call} {row : AdviceBoundaryDecision}
    (hcall : (call, row) ∈ calls)
    : row = (check R firmRoleGatesEnabled call row.id row.decidedAt).decision := by
  induction h with
  | nil => contradiction
  | cons hstep _ ih =>
    cases List.mem_cons.mp hcall with
    | inl heq =>
      rw [Prod.mk.injEq] at heq
      rw [heq.left, heq.right]
      exact hstep.row_eq
    | inr hcall => exact ih hcall

section Walks

variable {otherText : Json → PyStr} {parseFloat : PyStr → Option PyFloat} {db : TimelineTables}
  {row : AdviceBoundaryDecision} {m : Uuid}

/--
`reconstruct(matter_id=m, sources={advice_boundary})` from the first page to the last.
-/
def DecisionWalk (otherText : Json → PyStr) (parseFloat : PyStr → Option PyFloat) (db : TimelineTables)
    (m : Uuid) (limit : Nat) (pages : List ReconstructionPage) : Prop :=
  Walk (fun cursor =>
      reconstruct otherText parseFloat db { matterId := some m }
        (some ([Source.adviceBoundary].map Source.name)) cursor limit)
    ReconstructionPage.nextCursor none pages

/--
Whatever the limit is, the row is on some page of the walk.
-/
def ReturnedBy (otherText : Json → PyStr) (parseFloat : PyStr → Option PyFloat) (db : TimelineTables)
    (m : Uuid) (row : AdviceBoundaryDecision) : Prop :=
  ∀ limit, 0 < limit → limit ≤ maxLimit →
    ∃ pages, DecisionWalk otherText parseFloat db m limit pages
      ∧ abdToEntry row m ∈ pages.flatMap ReconstructionPage.entries

/--
Whatever the limit is, the row is on no page of the walk.
-/
def NotReturnedBy (otherText : Json → PyStr) (parseFloat : PyStr → Option PyFloat)
    (db : TimelineTables) (m : Uuid) (row : AdviceBoundaryDecision) : Prop :=
  ∀ limit, 0 < limit → limit ≤ maxLimit →
    ∃ pages, DecisionWalk otherText parseFloat db m limit pages
      ∧ ∀ entry ∈ pages.flatMap ReconstructionPage.entries, entry.sourceRowId ≠ row.id.str

/--
The walk of a matter returns the row, and that of no other one does.
-/
def OnOwnTimeline (otherText : Json → PyStr) (parseFloat : PyStr → Option PyFloat)
    (db : TimelineTables) (m : Uuid) (row : AdviceBoundaryDecision) : Prop :=
  ReturnedBy otherText parseFloat db m row
    ∧ ∀ other, other ≠ m → NotReturnedBy otherText parseFloat db other row

theorem mem_matchingRows_iff (entry : TimelineEntry)
    : entry ∈ [Source.adviceBoundary].flatMap (matchingRows otherText db { matterId := some m })
        ↔
      ∃ r ∈ db.decisions,
        astext otherText (r.gateState.get (py "matter_id")) = some m.str ∧ abdToEntry r m = entry := by
  simp [matchingRows, Filters.admits, Filters.window, and_assoc]

theorem exists_decisionWalk {limit : Nat} (hlimit : 0 < limit) (hmax : limit ≤ maxLimit)
    : ∃ pages, DecisionWalk otherText parseFloat db m limit pages
        ∧ ∀ entry, entry ∈ pages.flatMap ReconstructionPage.entries
          ↔ ∃ r ∈ db.decisions,
            astext otherText (r.gateState.get (py "matter_id")) = some m.str
              ∧ abdToEntry r m = entry := by
  obtain ⟨pages, hwalk, hentries, _⟩ :=
    @exists_walk_timeline otherText parseFloat db { matterId := some m } limit [.adviceBoundary] hlimit
      hmax (List.nodup_singleton _)
  refine ⟨pages, hwalk, ?_⟩
  intro entry
  rw [hentries, ← mem_matchingRows_iff]
  exact mem_sortByKey

/--
A row is found by the matter that its gate state names.
-/
theorem returnedBy_iff (hrow : row ∈ db.decisions)
    : ReturnedBy otherText parseFloat db m row
        ↔
      astext otherText (row.gateState.get (py "matter_id")) = some m.str := by
  constructor
  . intro h
    obtain ⟨pages, hwalk, hmem⟩ := h 1 (by omega) (by decide)
    obtain ⟨pages', hwalk', hiff⟩ :=
      @exists_decisionWalk otherText parseFloat db m 1 (by omega) (by decide)
    rw [hwalk.unique hwalk', hiff] at hmem
    have ⟨r, hr, hmatter, heq⟩ := hmem
    have hid : r.id = row.id := Uuid.str_injective (congrArg TimelineEntry.sourceRowId heq)
    rwa [← List.inj_on_of_nodup_map db.decisions_id hr hrow hid]
  . intro h limit hlimit hmax
    obtain ⟨pages, hwalk, hiff⟩ := @exists_decisionWalk otherText parseFloat db m limit hlimit hmax
    exact ⟨pages, hwalk, (hiff _).mpr ⟨row, hrow, h, rfl⟩⟩

theorem notReturnedBy_of_ne (hrow : row ∈ db.decisions)
    (h : astext otherText (row.gateState.get (py "matter_id")) ≠ some m.str)
    : NotReturnedBy otherText parseFloat db m row := by
  intro limit hlimit hmax
  obtain ⟨pages, hwalk, hiff⟩ := @exists_decisionWalk otherText parseFloat db m limit hlimit hmax
  refine ⟨pages, hwalk, ?_⟩
  intro entry hentry hid
  have ⟨r, hr, hmatter, heq⟩ := (hiff entry).mp hentry
  rw [← heq] at hid
  have := List.inj_on_of_nodup_map db.decisions_id hr hrow (Uuid.str_injective hid)
  rw [this] at hmatter
  exact h hmatter

end Walks

/--
The matter that a decision row can be found by.
-/
theorem astext_matterId {otherText : Json → PyStr} {call : Call} (id : Uuid) (decidedAt : Timestamp)
    (m : Uuid)
    : astext otherText
          ((check R firmRoleGatesEnabled call id decidedAt).decision.gateState.get (py "matter_id"))
          = some m.str
        ↔
      Passes firmRoleGatesEnabled call ∧ call.matterId = some m := by
  unfold check decisionRow
  dsimp only
  by_cases hpasses : Passes firmRoleGatesEnabled call
  . rw [verdict_of_passes hpasses, get_completed]
    cases call.matterId with
    | none => simp [str?, astext]
    | some matterId => simp [str?, astext, hpasses, Uuid.str_injective.eq_iff]
  . rw [get_matterId_of_not_passes hpasses]
    simp [astext, hpasses]

/--
Every decision on a call about a matter is on the timeline of the matter exactly if no such call was
refused.
-/
theorem onOwnTimeline_iff_passes (otherText : Json → PyStr) (parseFloat : PyStr → Option PyFloat)
    {calls : List (Call × AdviceBoundaryDecision)} {db db' : TimelineTables}
    (h : Checks R firmRoleGatesEnabled calls db db')
    : (∀ call row, (call, row) ∈ calls →
          ∀ m, call.matterId = some m → OnOwnTimeline otherText parseFloat db' m row)
        ↔
      ∀ call row, (call, row) ∈ calls → call.matterId ≠ none → Passes firmRoleGatesEnabled call := by
  have hmem (call : Call) (row : AdviceBoundaryDecision) (hcall : (call, row) ∈ calls)
      : row ∈ db'.decisions := by
    rw [h.decisions]
    exact List.mem_append_right _ (List.mem_map.mpr ⟨_, hcall, rfl⟩)
  constructor
  . intro hall call row hcall hmatter
    have ⟨m, hm⟩ := Option.ne_none_iff_exists'.mp hmatter
    have hreturned := (returnedBy_iff (hmem call row hcall)).mp (hall call row hcall m hm).left
    rw [h.row_eq hcall] at hreturned
    exact ((astext_matterId _ _ m).mp hreturned).left
  . intro hall call row hcall m hm
    have hpasses := hall call row hcall (by simp [hm])
    have hastext (other : Uuid) := @astext_matterId R firmRoleGatesEnabled otherText call row.id
      row.decidedAt other
    rw [← h.row_eq hcall] at hastext
    constructor
    . rw [returnedBy_iff (hmem call row hcall), hastext]
      exact ⟨hpasses, hm⟩
    . intro other hother
      apply notReturnedBy_of_ne (hmem call row hcall)
      rw [ne_eq, hastext, hm, Option.some.injEq]
      exact fun h => hother h.right.symm

section Refused

/--
Tables that hold nothing but decisions.
-/
def decisionTables (decisions : List AdviceBoundaryDecision)
    (hid : (decisions.map AdviceBoundaryDecision.id).Nodup) : TimelineTables where
  auditEntries := []
  definitions := []
  instances := []
  transitions := []
  decisions := decisions
  auditEntries_id := Uuid.nodup_nil
  definitions_id := Uuid.nodup_nil
  instances_id := Uuid.nodup_nil
  transitions_id := Uuid.nodup_nil
  decisions_id := hid
  payload_isDict := by simp

/--
Final advice is to be approved without any supervision before it.
-/
def refusedCall : Call where
  outputId := py "output"
  requestedTier := adviceTierApprovedFinalAdvice
  actorRole := some (py "workspace_admin")
  matterId := some (Uuid.ofNat 5)

def noon : Timestamp := .endOfFebruary

def refusedRow : AdviceBoundaryDecision :=
  (check PyRepr.quoted false refusedCall (Uuid.ofNat 7) noon).decision

theorem checks_refusedCall
    : Checks PyRepr.quoted false [(refusedCall, refusedRow)] (decisionTables [] .nil)
        (decisionTables [refusedRow] (List.nodup_singleton _)) :=
  .cons ⟨rfl, rfl⟩ (.nil _)

theorem not_passes_refusedCall : ¬ Passes false refusedCall := by
  intro h
  have := h.initial rfl
  have hnot : initialTierIsPermitted adviceTierApprovedFinalAdvice = false := by
    decide
  rw [show refusedCall.requestedTier = adviceTierApprovedFinalAdvice from rfl, hnot] at this
  contradiction

/--
The refusal is a row that no walk finds.
-/
theorem not_onOwnTimeline_refusedRow
    : Checks PyRepr.quoted false [(refusedCall, refusedRow)] (decisionTables [] .nil)
          (decisionTables [refusedRow] (List.nodup_singleton _))
        ∧ refusedCall.matterId = some (Uuid.ofNat 5)
        ∧ ¬ OnOwnTimeline (fun _ => []) (fun _ => none)
          (decisionTables [refusedRow] (List.nodup_singleton _)) (Uuid.ofNat 5) refusedRow := by
  refine ⟨checks_refusedCall, rfl, ?_⟩
  intro h
  have hreturned := (returnedBy_iff (List.mem_singleton_self _)).mp h.left
  have := (astext_matterId (Uuid.ofNat 7) noon (Uuid.ofNat 5)).mp hreturned
  exact not_passes_refusedCall this.left

theorem onOwnTimeline_iff_passes_refusedCall
    : (∀ call row, (call, row) ∈ [(refusedCall, refusedRow)] →
          ∀ m, call.matterId = some m →
            OnOwnTimeline (fun _ => []) (fun _ => none)
              (decisionTables [refusedRow] (List.nodup_singleton _)) m row)
        ↔
      ∀ call row, (call, row) ∈ [(refusedCall, refusedRow)] → call.matterId ≠ none →
        Passes false call :=
  onOwnTimeline_iff_passes (fun _ => []) (fun _ => none) checks_refusedCall

end Refused

end AdviceBoundary
