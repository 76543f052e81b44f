import Legalise.Audit.Chain

/-!
This module contains what `verify_audit_chain` accepts: equal counts, and for every scope rows that
follow each other and fit their audit entries.
-/

namespace AuditChain

variable {H : Sha256}

@[simp]
theorem issueUnless_eq_nil_iff (ok : Bool) (code message : PyStr) (chain : AuditChainEntry)
    : issueUnless ok code message chain = [] ↔ ok = true := by
  simp [issueUnless]

theorem payloadOrEmpty_text (payload : Jsonb) :
    payloadOrEmpty (some payload.text.val) = payload.text.val := by
  cases h : payload.text.val with
  | nil => exact absurd h payload.text_ne_nil
  | cons c text => rfl

/--
A chain row comes right after the previous one of its scope, or is the first one.
-/
structure Follows (previous : Option AuditChainEntry) (chain : AuditChainEntry) : Prop where
  sequence : chain.scopeSequence = (previous.map fun row => row.scopeSequence + 1).getD 1
  previousHash : chain.previousChainHash = previous.map AuditChainEntry.chainHash

/--
A chain row has the scope and the hashes that its audit entry gives.
-/
structure Fits (H : Sha256) (chain : AuditChainEntry) (entry : AuditEntry) : Prop where
  scope : chain.scope = entry.scope
  entryHash : chain.entryHash.val
    = (AuditEntryCanonical.fromRow entry entry.payload.text.val).entryHash H
  chainHash : chain.chainHash.val = expectedChainHash H chain

/--
A joined row passes all checks after the previous row of its scope.
-/
structure RowVerifies (H : Sha256) (previous : Option AuditChainEntry) (row : JoinedRow) : Prop where
  version : row.fst.chainVersion = auditChainVersion
  follows : Follows previous row.fst
  fits : ∃ entry, row.snd = some entry ∧ Fits H row.fst entry

theorem linkIssues_eq_nil_iff (previous : Option AuditChainEntry) (chain : AuditChainEntry)
    : linkIssues previous chain = []
        ↔
      chain.chainVersion = auditChainVersion ∧ Follows previous chain := by
  unfold linkIssues
  simp only [List.append_eq_nil_iff, issueUnless_eq_nil_iff, decide_eq_true_eq]
  constructor
  . intro ⟨⟨hversion, hsequence⟩, hprevious⟩
    refine ⟨hversion, ?_, hprevious⟩
    cases previous <;> exact hsequence
  . intro ⟨hversion, hsequence, hprevious⟩
    refine ⟨⟨hversion, ?_⟩, hprevious⟩
    cases previous <;> exact hsequence

theorem entryIssues_eq_nil_iff (chain : AuditChainEntry) (entry : AuditEntry)
    : entryIssues H chain entry entry.payload.text.val = [] ↔ Fits H chain entry := by
  unfold entryIssues
  simp only [List.append_eq_nil_iff, issueUnless_eq_nil_iff, decide_eq_true_eq]
  constructor
  . intro ⟨⟨hscope, hentry⟩, hchain⟩
    exact ⟨hscope, hentry, hchain⟩
  . intro h
    exact ⟨⟨h.scope, h.entryHash⟩, h.chainHash⟩

section Exec

/--
The audit entries of joined rows are still there, unchanged, in all views.
-/
def Stable (views : Nat → AuditTables) (rows : List JoinedRow) : Prop :=
  ∀ row ∈ rows, ∀ entry ∈ row.snd, ∀ i, (views i).findEntry entry.id = some entry

theorem stable_of_mem {tables : AuditTables} (h : (tables.entries.map AuditEntry.id).Nodup)
    {views : Nat → AuditTables}
    (hviews : ∀ i, ((views i).entries.map AuditEntry.id).Nodup
      ∧ ∀ entry ∈ tables.entries, entry ∈ (views i).entries)
    (matterId : Option Uuid) : Stable views (joinedRows matterId tables) := by
  intro row hrow entry hentry i
  have ⟨chain, _, heq⟩ := List.mem_map.mp hrow
  rw [← heq] at hentry
  have hmem := ((AuditTables.findEntry_eq_some_iff h chain.auditEntryId entry).mp hentry).left
  exact (AuditTables.findEntry_eq_some_iff (hviews i).left entry.id entry).mpr
    ⟨(hviews i).right entry hmem, rfl⟩

/--
The issues of a joined row whose audit entry does not change.
-/
def rowIssues (H : Sha256) (previous : Option AuditChainEntry) (row : JoinedRow)
    : List AuditChainIssue :=
  ((verifyRow H previous row).exec fun _ => ⟨row.snd.toList, []⟩).fst

theorem exec_entryPayloadText {views : Nat → AuditTables} {entry : AuditEntry}
    (h : (views 0).findEntry entry.id = some entry)
    : (entryPayloadText entry.id).exec views = (entry.payload.text.val, 1) := by
  simp [entryPayloadText, h, payloadOrEmpty_text]

theorem exec_verifyRow_of_stable (previous : Option AuditChainEntry) (row : JoinedRow)
    {views : Nat → AuditTables} (h : ∀ entry ∈ row.snd, ∀ i, (views i).findEntry entry.id = some entry)
    : ((verifyRow H previous row).exec views).fst = rowIssues H previous row := by
  have ⟨chain, entry⟩ := row
  unfold rowIssues
  cases entry with
  | none => rfl
  | some entry =>
    have hself : AuditTables.findEntry ⟨[entry], []⟩ entry.id = some entry := by
      simp [AuditTables.findEntry]
    simp [verifyRow, exec_entryPayloadText (h entry rfl 0), @exec_entryPayloadText
      (fun _ => ⟨[entry], []⟩) _ hself]

theorem rowIssues_eq_nil_iff (previous : Option AuditChainEntry) (row : JoinedRow)
    : rowIssues H previous row = [] ↔ RowVerifies H previous row := by
  have ⟨chain, entry⟩ := row
  unfold rowIssues
  cases entry with
  | none =>
    simp only [verifyRow, Stmts.exec_pure, List.append_eq_nil_iff, issueUnless_eq_nil_iff]
    constructor
    . intro h
      exact absurd h.right (by simp)
    . intro h
      have ⟨_, hnone, _⟩ := h.fits
      contradiction
  | some entry =>
    have hself : AuditTables.findEntry ⟨[entry], []⟩ entry.id = some entry := by
      simp [AuditTables.findEntry]
    simp only [verifyRow, Option.toList_some, Stmts.exec_bind, @exec_entryPayloadText
      (fun _ => ⟨[entry], []⟩) _ hself, Stmts.exec_pure, List.append_eq_nil_iff,
      linkIssues_eq_nil_iff, entryIssues_eq_nil_iff]
    constructor
    . intro ⟨⟨hversion, hfollows⟩, hfits⟩
      exact ⟨hversion, hfollows, entry, rfl, hfits⟩
    . intro ⟨hversion, hfollows, other, hother, hfits⟩
      simp only [Option.some.injEq] at hother
      exact ⟨⟨hversion, hfollows⟩, hother ▸ hfits⟩

theorem exec_verifyRows_of_stable (last : Scope → Option JoinedRow) (rows : List JoinedRow)
    {views : Nat → AuditTables} (h : Stable views rows)
    : ((verifyRows H (fun scope => (last scope).map Prod.fst) rows).exec views).fst
        = checkKeyed (fun row => row.fst.scope)
            (fun before row => rowIssues H (before.map Prod.fst) row) last rows := by
  induction rows generalizing last views with
  | nil => rfl
  | cons row rows ih =>
    have hrow := exec_verifyRow_of_stable (H := H) ((last row.fst.scope).map Prod.fst) row
      (h row (by simp))
    have hupdate : Function.update (fun scope => (last scope).map Prod.fst) row.fst.scope
          (some row.fst)
        = fun scope => (Function.update last row.fst.scope (some row) scope).map Prod.fst := by
      funext scope
      by_cases hscope : scope = row.fst.scope
      . subst hscope
        simp
      . simp [Function.update_of_ne hscope]
    have hstable : Stable (fun i => views
        (i + ((verifyRow H ((last row.fst.scope).map Prod.fst) row).exec views).snd)) rows := by
      intro other hother entry hentry i
      exact h other (by simp [hother]) entry hentry _
    have hrest := ih (Function.update last row.fst.scope (some row)) hstable
    simp only [verifyRows, Stmts.exec_bind, Stmts.exec_pure, checkKeyed, hrow, hupdate, hrest]

end Exec

section Scopes

/--
The rows of a scope follow each other and fit their audit entries.
-/
def VerifiedScope (H : Sha256) (tables : AuditTables) (scope : Scope) : Prop :=
  Chained (fun previous chain => RowVerifies H previous (chain, tables.findEntry chain.auditEntryId))
    (fun _ chain => some chain) none (tables.scopeRows scope)

theorem pairwise_chainOrder (rows : List AuditChainEntry)
    : (rows.mergeSort chainOrder).Pairwise fun a b => chainOrder a b = true := by
  apply List.pairwise_mergeSort
  . intro a b c hab hbc
    simp only [chainOrder, Bool.or_eq_true, Bool.and_eq_true, decide_eq_true_eq] at hab hbc ⊢
    omega
  . intro a b
    simp only [chainOrder, Bool.or_eq_true, Bool.and_eq_true, decide_eq_true_eq]
    omega

/--
Sorting the rows of all selected scopes sorts the rows of every single one.
-/
theorem filter_sorted_eq_scopeRows {tables : AuditTables}
    (h : (tables.chain.map fun row => (row.scope, row.scopeSequence)).Nodup)
    {matterId : Option Uuid} {scope : Scope} (hscope : selected matterId scope = true)
    : ((tables.chain.filter fun row => selected matterId row.scope).mergeSort chainOrder).filter
        (fun row => row.scope = scope) = tables.scopeRows scope := by
  apply AuditTables.eq_scopeRows h
  . have hperm := (List.mergeSort_perm (tables.chain.filter fun row => selected matterId row.scope)
      chainOrder).filter fun row => decide (row.scope = scope)
    apply hperm.trans
    rw [List.filter_filter]
    apply List.Perm.of_eq
    apply List.filter_congr
    intro row _
    by_cases hrow : row.scope = scope
    . simp [hrow, hscope]
    . simp [hrow]
  . have hsorted := (pairwise_chainOrder
      (tables.chain.filter fun row => selected matterId row.scope)).filter
      fun row => decide (row.scope = scope)
    apply hsorted.imp_of_mem
    intro a b ha hb hab
    have ha : a.scope = scope := by simpa using (List.mem_filter.mp ha).right
    have hb : b.scope = scope := by simpa using (List.mem_filter.mp hb).right
    simpa [chainOrder, ha, hb] using hab

theorem filter_joinedRows_of_selected {tables : AuditTables}
    (h : (tables.chain.map fun row => (row.scope, row.scopeSequence)).Nodup)
    {matterId : Option Uuid} {scope : Scope} (hscope : selected matterId scope = true)
    : (joinedRows matterId tables).filter (fun row => row.fst.scope = scope)
        = (tables.scopeRows scope).map fun row => (row, tables.findEntry row.auditEntryId) := by
  unfold joinedRows
  rw [List.filter_map, ← filter_sorted_eq_scopeRows h hscope]
  rfl

theorem filter_joinedRows_of_not_selected {tables : AuditTables} {matterId : Option Uuid}
    {scope : Scope} (hscope : selected matterId scope = false)
    : (joinedRows matterId tables).filter (fun row => row.fst.scope = scope) = [] := by
  rw [List.filter_eq_nil_iff]
  intro row hrow
  have ⟨chain, hchain, heq⟩ := List.mem_map.mp hrow
  have hselected : selected matterId chain.scope = true := by
    simpa using (List.mem_filter.mp (List.mem_mergeSort.mp hchain)).right
  subst heq
  simp only [decide_eq_true_eq]
  rintro rfl
  rw [hselected] at hscope
  contradiction

@[simp]
theorem countIssues_eq_nil_iff (auditCount chainCount : Nat)
    : countIssues auditCount chainCount = [] ↔ auditCount = chainCount := by
  simp [countIssues]

/--
What `verify_audit_chain` accepts, whatever its statements see in between.
-/
theorem issues_eq_nil_iff (matterId : Option Uuid) (views : Nat → AuditTables)
    (hkeys : ((views 2).chain.map fun row => (row.scope, row.scopeSequence)).Nodup)
    (hstable : Stable (fun i => views (i + 3)) (joinedRows matterId (views 2)))
    : ((verifyAuditChain H matterId).exec views).fst.issues = []
        ↔
      auditCount matterId (views 0) = chainCount matterId (views 1)
        ∧ ∀ scope, selected matterId scope = true → VerifiedScope H (views 2) scope := by
  have hrows := exec_verifyRows_of_stable (H := H) (fun _ => none) _ hstable
  simp only [Option.map_none] at hrows
  simp only [verifyAuditChain, Stmts.exec_bind, Stmts.exec_select, Stmts.exec_pure, Nat.add_assoc,
    List.append_eq_nil_iff, countIssues_eq_nil_iff, Nat.reduceAdd, hrows, checkKeyed_eq_nil_iff,
    rowIssues_eq_nil_iff, Nat.zero_add]
  refine and_congr_right fun _ => forall_congr' fun scope => ?_
  cases hscope : selected matterId scope with
  | false => simp [filter_joinedRows_of_not_selected hscope]
  | true =>
    rw [filter_joinedRows_of_selected hkeys hscope, Chained.map_iff,
      @Chained.map_state_iff _ _
        (fun previous chain => RowVerifies H previous (chain, (views 2).findEntry chain.auditEntryId))
        (fun _ chain => some chain) _ (Option.map Prod.fst) _ (by intro t x; rfl)]
    simp [VerifiedScope]

theorem ok_iff (matterId : Option Uuid) (views : Nat → AuditTables)
    : ((verifyAuditChain H matterId).exec views).fst.ok = true
        ↔
      ((verifyAuditChain H matterId).exec views).fst.issues = [] := by
  simp [verifyAuditChain]

end Scopes

end AuditChain
