import Legalise.Capabilities.Grants
import Legalise.Lib.Except
import Legalise.Lib.Standing

/-!
This module contains runs of the operations on grants, and when the runtime check agrees with what has
been granted and not withdrawn since.
-/

namespace Capabilities

/--
What a user may be granted, on the workspace or on a matter.
-/
structure Authority where
  userId : Uuid
  plugin : PyStr
  skill : PyStr
  capability : PyStr
  matterId : Option Uuid
  deriving DecidableEq

def Grant.authority (g : Grant) : Authority :=
  ⟨g.userId, g.plugin, g.skill, g.capability, g.scopeId⟩

/--
The operations with their arguments, the ids of the rows that they may create, and what the database is
free to choose.
-/
inductive Op where
  | grant (userId : Uuid) (plugin skill capability : PyStr) (id : Uuid)
    (grantedByUserId : Option Uuid) (scopeType : Option PyStr) (scopeId : Option Uuid)
  | grantMany (userId : Uuid) (plugin skill : PyStr) (capabilities : List PyStr)
    (newId : PyStr → Uuid) (grantedByUserId : Option Uuid)
  | revoke (userId : Uuid) (plugin skill capability : PyStr) (pick : Nat)
  | createGrants (userId matterId : Uuid) (installed : InstalledModule) (capabilityId : PyStr)
    (newId : PyStr → Uuid)
  | revokeGrant (userId matterId grantId : Uuid)
  | revokeModule (userId : Uuid) (isSuperuser : Bool) (moduleId : PyStr) (installedRows : Nat)
  | deleteMatter (deletion : Deletion)

/--
What an operation that does not raise returns: the row that `revoke_grant` has deleted, and the audit
rows.
-/
structure Outcome where
  row : Option Grant := none
  audit : List AuditLog := []

/--
An operation that was called, and how it ended.
-/
structure Event where
  op : Op
  result : Except GrantError Outcome

section Runs

variable (R : PyRepr)

def Op.run (t : GrantTable) : Op → Except GrantError (GrantTable × Outcome)
  | .grant userId plugin skill capability id grantedByUserId scopeType scopeId => do
    let t ← Capabilities.grant t userId plugin skill capability id grantedByUserId scopeType scopeId
    return (t, {})
  | .grantMany userId plugin skill capabilities newId grantedByUserId => do
    let t ← Capabilities.grantMany t userId plugin skill capabilities newId grantedByUserId
    return (t, {})
  | .revoke userId plugin skill capability pick =>
    .ok (Capabilities.revoke t userId plugin skill capability pick, {})
  | .createGrants userId matterId installed capabilityId newId => do
    let (t, _, audit) ←
      createGrantsForCapability R t userId matterId installed capabilityId newId
    return (t, { audit := audit })
  | .revokeGrant userId matterId grantId =>
    let (t, deleted) := Capabilities.revokeGrant t userId matterId grantId
    .ok (t, { row := deleted.map Prod.fst, audit := (deleted.map Prod.snd).toList })
  | .revokeModule userId isSuperuser moduleId installedRows => do
    let (t, audit) ← Capabilities.revokeModule t R userId isSuperuser moduleId installedRows
    return (t, { audit := audit })
  | .deleteMatter deletion => do
    let (t, audit) ← tombstoneMatter t deletion
    return (t, { audit := audit })

/--
An operation that raises is rolled back.
-/
def Op.exec (t : GrantTable) (op : Op) : GrantTable × Event :=
  match op.run R t with
  | .ok (t, outcome) => (t, ⟨op, .ok outcome⟩)
  | .error e => (t, ⟨op, .error e⟩)

end Runs

/--
The scope that the caller of `grant` asks for.
-/
def askedMatter (scopeType : Option PyStr) (scopeId : Option Uuid) : Option Uuid :=
  if scopeType = some scopeTypeMatter then scopeId else none

/--
The strings that a grant of a capability of a module asks for.
-/
def declaredStrings (installed : InstalledModule) (capabilityId : PyStr) : List PyStr :=
  match findCapabilityDeclaration installed.manifestSnapshot capabilityId with
  | .ok (some capability) =>
    match capabilityStrings capability with
    | .ok strings => strings
    | .error _ => []
  | _ => []

/--
What an operation grants when it succeeds.
-/
def Op.grants : Op → List Authority
  | .grant userId plugin skill capability _ _ scopeType scopeId =>
    [⟨userId, plugin, skill, capability, askedMatter scopeType scopeId⟩]
  | .grantMany userId plugin skill capabilities _ _ =>
    capabilities.map fun capability => ⟨userId, plugin, skill, capability, none⟩
  | .createGrants userId matterId installed capabilityId _ =>
    (declaredStrings installed capabilityId).map fun capability =>
      ⟨userId, installed.moduleId, capabilityId, capability, some matterId⟩
  | .revoke _ _ _ _ _ | .revokeGrant _ _ _ | .revokeModule _ _ _ _ | .deleteMatter _ => []

def Event.gives (e : Event) (a : Authority) : Prop :=
  e.result.isOk = true ∧ a ∈ e.op.grants

/--
What an operation that has succeeded withdraws. `revoke` withdraws a capability at every scope.
-/
def Event.takes (e : Event) (a : Authority) : Prop :=
  match e.result with
  | .error _ => False
  | .ok outcome =>
    match e.op with
    | .revoke userId plugin skill capability _ =>
      a.userId = userId ∧ a.plugin = plugin ∧ a.skill = skill ∧ a.capability = capability
    | .revokeGrant userId matterId _ =>
      a.userId = userId ∧ a.matterId = some matterId ∧ ∃ row ∈ outcome.row, row.authority = a
    | .revokeModule _ _ moduleId _ => a.plugin = moduleId
    | .deleteMatter deletion => a.matterId = some deletion.matterId
    | .grant _ _ _ _ _ _ _ _ | .grantMany _ _ _ _ _ _ | .createGrants _ _ _ _ _ => False

/--
The check at the runtime boundary succeeds.
-/
def Permitted (t : GrantTable) (a : Authority) : Prop :=
  requireCapability t a.userId a.plugin a.skill a.capability a.matterId = .ok ()

def ledger (R : PyRepr) : Ledger GrantTable Op Event Authority where
  exec := Op.exec R
  has := Permitted
  gives := Event.gives
  takes := Event.takes

/--
A call of `revoke` meets a user, plugin, skill and capability that has been granted at no more than one
scope.
-/
def Op.MeetsOneScope (t : GrantTable) : Op → Prop
  | .revoke userId plugin skill capability _ =>
    (t.rows.filter fun g => g.isFor userId plugin skill capability).length ≤ 1
  | _ => True

section Table

variable {t u : GrantTable}

theorem Grant.Fits.scopeType_eq {g : Grant} (h : g.Fits)
    : g.scopeType = if g.scopeId.isSome then scopeTypeMatter else scopeTypeWorkspace := by
  split
  . next hsome => exact h.pairing.mpr hsome
  . next hnone =>
    cases h.vocabulary with
    | inl hworkspace => exact hworkspace
    | inr hmatter => exact absurd (h.pairing.mp hmatter) hnone

@[simp]
theorem isFor_iff (g : Grant) (userId : Uuid) (plugin skill capability : PyStr)
    : g.isFor userId plugin skill capability = true
        ↔ g.userId = userId ∧ g.plugin = plugin ∧ g.skill = skill ∧ g.capability = capability := by
  simp [Grant.isFor, and_assoc]

/--
Two rows of one authority are one row.
-/
theorem GrantTable.eq_of_authority (t : GrantTable) {g g' : Grant} (hg : g ∈ t.rows)
    (hg' : g' ∈ t.rows) (h : g.authority = g'.authority) : g = g' := by
  apply List.inj_on_of_nodup_map t.keys hg hg'
  simp only [Grant.authority, Authority.mk.injEq] at h
  have ⟨h₁, h₂, h₃, h₄, h₅⟩ := h
  simp only [Grant.key, Key.mk.injEq]
  exact ⟨h₁, h₂, h₃, h₄, by rw [(t.fits g hg).scopeType_eq, (t.fits g' hg').scopeType_eq, h₅], h₅⟩

theorem GrantTable.isAt_iff (t : GrantTable) {g : Grant} (hg : g ∈ t.rows) (matterId : Option Uuid)
    : g.isAt matterId = true ↔ g.scopeId = matterId := by
  have htype := (t.fits g hg).scopeType_eq
  unfold Grant.isAt
  cases matterId with
  | none => cases hid : g.scopeId <;> simp_all
  | some m => cases hid : g.scopeId <;> simp_all

/--
The check succeeds exactly if there is a row of the authority.
-/
theorem permitted_iff (t : GrantTable) (a : Authority)
    : Permitted t a ↔ ∃ g ∈ t.rows, g.authority = a := by
  unfold Permitted requireCapability
  split
  . next hany =>
    rw [List.any_eq_true] at hany
    have ⟨g, hg, hmatch⟩ := hany
    rw [Bool.and_eq_true, isFor_iff, t.isAt_iff hg] at hmatch
    have ⟨⟨h₁, h₂, h₃, h₄⟩, h₅⟩ := hmatch
    refine iff_of_true rfl ⟨g, hg, ?_⟩
    simp [Grant.authority, h₁, h₂, h₃, h₄, h₅]
  . next hany =>
    refine iff_of_false (by simp) ?_
    rintro ⟨g, hg, rfl⟩
    apply hany
    rw [List.any_eq_true]
    refine ⟨g, hg, ?_⟩
    rw [Bool.and_eq_true, isFor_iff, t.isAt_iff hg]
    exact ⟨⟨rfl, rfl, rfl, rfl⟩, rfl⟩

theorem mem_rows_keep (kept : Grant → Bool) (g : Grant)
    : g ∈ (t.keep kept).rows ↔ g ∈ t.rows ∧ kept g = true := List.mem_filter

theorem permitted_keep (kept : Grant → Bool) (a : Authority)
    : Permitted (t.keep kept) a ↔ ∃ g ∈ t.rows, kept g = true ∧ g.authority = a := by
  rw [permitted_iff]
  constructor
  . rintro ⟨g, hg, h⟩
    have ⟨hg, hkept⟩ := (mem_rows_keep kept g).mp hg
    exact ⟨g, hg, hkept, h⟩
  . rintro ⟨g, hg, hkept, h⟩
    exact ⟨g, (mem_rows_keep kept g).mpr ⟨hg, hkept⟩, h⟩

theorem permitted_delete {row : Grant} (hrow : row ∈ t.rows) (a : Authority)
    : Permitted (t.delete row) a ↔ Permitted t a ∧ row.authority ≠ a := by
  have hids (g : Grant) (hg : g ∈ t.rows) : g.id = row.id ↔ g = row :=
    ⟨List.inj_on_of_nodup_map t.ids hg hrow, congrArg Grant.id⟩
  unfold GrantTable.delete
  rw [permitted_keep, permitted_iff]
  constructor
  . rintro ⟨g, hg, hne, rfl⟩
    refine ⟨⟨g, hg, rfl⟩, fun h => ?_⟩
    have hne : g.id ≠ row.id := by simpa using hne
    exact hne ((hids g hg).mpr (t.eq_of_authority hg hrow h.symm))
  . rintro ⟨⟨g, hg, rfl⟩, hne⟩
    refine ⟨g, hg, ?_, rfl⟩
    rw [decide_eq_true_eq, ne_eq, hids g hg]
    rintro rfl
    exact hne rfl

theorem permitted_insert {g : Grant} (h : t.insert? g = some u) (a : Authority)
    : Permitted u a ↔ g.authority = a ∨ Permitted t a := by
  unfold GrantTable.insert? at h
  split at h
  . rw [Option.some.injEq] at h
    rw [permitted_iff, permitted_iff, ← h]
    simp only [List.mem_append, List.mem_singleton]
    constructor
    . rintro ⟨g', hold | rfl, ha⟩
      . exact .inr ⟨g', hold, ha⟩
      . exact .inl ha
    . rintro (ha | ⟨g', hold, ha⟩)
      . exact ⟨g, .inr rfl, ha⟩
      . exact ⟨g', .inl hold, ha⟩
  . contradiction

end Table

section Operations

variable {t u : GrantTable}

theorem permitted_of_grant {userId : Uuid} {plugin skill capability : PyStr} {id : Uuid}
    {grantedByUserId : Option Uuid} {scopeType : Option PyStr} {scopeId : Option Uuid}
    (h : grant t userId plugin skill capability id grantedByUserId scopeType scopeId = .ok u)
    (a : Authority)
    : Permitted u a
        ↔ a = ⟨userId, plugin, skill, capability, askedMatter scopeType scopeId⟩
          ∨ Permitted t a := by
  unfold grant at h
  extract_lets effectiveScopeType effectiveScopeId row at h
  have hscope : row.scopeId = askedMatter scopeType scopeId := by
    have htype : effectiveScopeType = scopeTypeMatter ↔ scopeType = some scopeTypeMatter := by
      simp only [effectiveScopeType]
      have hne : scopeTypeWorkspace ≠ scopeTypeMatter := by decide
      cases scopeType with
      | none => simp [hne]
      | some scopeType =>
        cases scopeType with
        | nil => simp [hne]; decide
        | cons c cs => simp
    show (if effectiveScopeType = scopeTypeMatter then scopeId else none) = _
    simp only [htype, askedMatter]
  have hrow : row.authority = ⟨userId, plugin, skill, capability, askedMatter scopeType scopeId⟩ := by
    rw [← hscope]
    rfl
  rw [← hrow]
  split at h
  . next hexists =>
    rw [Except.ok.injEq] at h
    rw [← h]
    obtain ⟨g, hg, hkey⟩ := List.mem_map.mp hexists.right
    have hauthority : g.authority = row.authority := by
      simp only [Grant.key, Key.mk.injEq] at hkey
      obtain ⟨h₁, h₂, h₃, h₄, _, h₅⟩ := hkey
      simp only [Grant.authority, h₁, h₂, h₃, h₄, h₅]
    constructor
    . exact .inr
    . rintro (rfl | ha)
      . exact (permitted_iff t _).mpr ⟨g, hg, hauthority⟩
      . exact ha
  . split at h
    . next hinsert =>
      rw [Except.ok.injEq] at h
      rw [← h, permitted_insert hinsert, eq_comm]
    . contradiction

theorem permitted_of_grantMany {userId : Uuid} {plugin skill : PyStr} {capabilities : List PyStr}
    {newId : PyStr → Uuid} {grantedByUserId : Option Uuid}
    (h : grantMany t userId plugin skill capabilities newId grantedByUserId = .ok u)
    (a : Authority)
    : Permitted u a
        ↔ a ∈ capabilities.map (fun capability => ⟨userId, plugin, skill, capability, none⟩)
          ∨ Permitted t a := by
  unfold grantMany at h
  induction capabilities generalizing t with
  | nil =>
    rw [List.foldlM_nil, Except.pure_eq_ok_iff] at h
    simp [h]
  | cons capability capabilities ih =>
    rw [List.foldlM_cons, Except.bind_eq_ok_iff] at h
    have ⟨v, hfirst, hrest⟩ := h
    rw [ih hrest, permitted_of_grant hfirst]
    have : askedMatter none none = none := rfl
    rw [this, List.map_cons, List.mem_cons]
    tauto

section CreateGrants

variable {userId matterId : Uuid} {installed : InstalledModule} {capabilityId : PyStr}
  {capability : Dict} {newId : PyStr → Uuid}

theorem permitted_of_addGrant {state state' : GrantTable × List Grant × List Grant}
    {capString : PyStr}
    (h : addGrant userId matterId installed capabilityId capability newId state capString
      = .ok state') (a : Authority)
    : Permitted state'.fst a
        ↔ a = ⟨userId, installed.moduleId, capabilityId, capString, some matterId⟩
          ∨ Permitted state.fst a := by
  have ⟨t, created, existing⟩ := state
  unfold addGrant at h
  dsimp only at h
  split at h
  . next row hfind =>
    rw [Except.pure_eq_ok_iff] at h
    have hmem := List.mem_of_find?_eq_some hfind
    have hsame := List.find?_some hfind
    rw [Bool.and_eq_true, isFor_iff, t.isAt_iff hmem] at hsame
    have ⟨⟨h₁, h₂, h₃, h₄⟩, h₅⟩ := hsame
    rw [← h]
    constructor
    . exact .inr
    . rintro (rfl | ha)
      . refine (permitted_iff t _).mpr ⟨row, hmem, ?_⟩
        simp only [Grant.authority, h₁, h₂, h₃, h₄, h₅]
      . exact ha
  . rw [Except.bind_eq_ok_iff] at h
    have ⟨capabilityVersion, _, h⟩ := h
    split at h
    . next hinsert =>
      rw [Except.pure_eq_ok_iff] at h
      rw [← h, permitted_insert hinsert, eq_comm]
      rfl
    . contradiction

theorem permitted_of_addGrants {state state' : GrantTable × List Grant × List Grant}
    {strings : List PyStr}
    (h : strings.foldlM (addGrant userId matterId installed capabilityId capability newId) state
      = .ok state') (a : Authority)
    : Permitted state'.fst a
        ↔ a ∈ strings.map (fun capString =>
            ⟨userId, installed.moduleId, capabilityId, capString, some matterId⟩)
          ∨ Permitted state.fst a := by
  induction strings generalizing state with
  | nil =>
    rw [List.foldlM_nil, Except.pure_eq_ok_iff] at h
    simp [h]
  | cons capString strings ih =>
    rw [List.foldlM_cons, Except.bind_eq_ok_iff] at h
    have ⟨between, hfirst, hrest⟩ := h
    rw [ih hrest, permitted_of_addGrant hfirst, List.map_cons, List.mem_cons]
    tauto

theorem mapError_eq_ok_iff {ε ε' α : Type} (f : ε → ε') (x : Except ε α) (a : α)
    : x.mapError f = .ok a ↔ x = .ok a := by
  cases x <;> simp [Except.mapError]

theorem permitted_of_createGrants {R : PyRepr} {result : GrantCreationResult}
    {audit : List AuditLog}
    (h : createGrantsForCapability R t userId matterId installed capabilityId newId
      = .ok (u, result, audit)) (a : Authority)
    : Permitted u a
        ↔ a ∈ (declaredStrings installed capabilityId).map (fun capString =>
            ⟨userId, installed.moduleId, capabilityId, capString, some matterId⟩)
          ∨ Permitted t a := by
  unfold createGrantsForCapability at h
  rw [Except.bind_eq_ok_iff] at h
  have ⟨declaration, hfind, h⟩ := h
  rw [mapError_eq_ok_iff] at hfind
  split at h
  . contradiction
  . next declaration =>
    dsimp only at h
    split at h
    . contradiction
    . rw [Except.bind_eq_ok_iff] at h
      have ⟨strings, hstrings, h⟩ := h
      rw [mapError_eq_ok_iff] at hstrings
      rw [Except.bind_eq_ok_iff] at h
      have ⟨state, hadd, h⟩ := h
      rw [Except.pure_eq_ok_iff, Prod.mk.injEq] at h
      have hdeclared : declaredStrings installed capabilityId = strings := by
        unfold declaredStrings
        rw [hfind]
        dsimp only
        rw [hstrings]
      rw [hdeclared, ← h.left]
      exact permitted_of_addGrants hadd a

end CreateGrants

theorem permitted_of_revokeGrant (userId matterId grantId : Uuid) (a : Authority)
    : Permitted (revokeGrant t userId matterId grantId).fst a
        ↔ Permitted t a
          ∧ ¬ (a.userId = userId ∧ a.matterId = some matterId
            ∧ ∃ row ∈ (revokeGrant t userId matterId grantId).snd.map Prod.fst,
              row.authority = a) := by
  unfold revokeGrant
  split
  . simp
  . next row hfind =>
    have hmem := List.mem_of_find?_eq_some hfind
    have hmine := List.find?_some hfind
    rw [Bool.and_eq_true, Bool.and_eq_true, t.isAt_iff hmem, decide_eq_true_eq,
      decide_eq_true_eq] at hmine
    have ⟨⟨_, huser⟩, hscope⟩ := hmine
    rw [permitted_delete hmem]
    refine and_congr_right fun _ => not_congr ?_
    constructor
    . rintro rfl
      exact ⟨huser, hscope, row, rfl, rfl⟩
    . rintro ⟨_, _, row', hrow, ha⟩
      have hrow : row = row' := Option.mem_some_iff.mp hrow
      exact hrow ▸ ha

theorem permitted_of_revokeModule {R : PyRepr} {userId : Uuid} {isSuperuser : Bool}
    {moduleId : PyStr} {installedRows : Nat} {audit : List AuditLog}
    (h : revokeModule t R userId isSuperuser moduleId installedRows = .ok (u, audit))
    (a : Authority) : Permitted u a ↔ Permitted t a ∧ a.plugin ≠ moduleId := by
  have hloop (n : Nat) : Permitted ((List.range n).foldl (fun (state : GrantTable × Nat) _ =>
      (
        state.fst.keep fun g => g.plugin ≠ moduleId,
        state.snd + (state.fst.rows.filter fun g => g.plugin = moduleId).length
      )) (t, 0)).fst a ↔ Permitted t a ∧ (n = 0 ∨ a.plugin ≠ moduleId) := by
    induction n with
    | zero => simp
    | succ n ih =>
      rw [List.range_succ, List.foldl_append, List.foldl_cons, List.foldl_nil, permitted_keep]
      constructor
      . rintro ⟨g, hg, hne, rfl⟩
        have := ih.mp ((permitted_iff _ _).mpr ⟨g, hg, rfl⟩)
        exact ⟨this.left, .inr (of_decide_eq_true hne)⟩
      . rintro ⟨ha, hne⟩
        have hne : a.plugin ≠ moduleId := by simpa using hne
        have ⟨g, hg, hga⟩ := (permitted_iff _ _).mp (ih.mpr ⟨ha, .inr hne⟩)
        rw [← hga] at hne
        exact ⟨g, hg, decide_eq_true hne, hga⟩
  unfold revokeModule at h
  split at h
  . contradiction
  . split at h
    . contradiction
    . next hrows =>
      dsimp only at h
      rw [Except.ok.injEq, Prod.mk.injEq] at h
      rw [← h.left]
      simpa [hrows] using hloop installedRows

theorem permitted_of_tombstone {deletion : Deletion} {audit : List AuditLog}
    (h : tombstoneMatter t deletion = .ok (u, audit)) (a : Authority)
    : Permitted u a ↔ Permitted t a ∧ a.matterId ≠ some deletion.matterId := by
  unfold tombstoneMatter at h
  split at h
  . contradiction
  . split at h
    . contradiction
    . dsimp only at h
      rw [Except.ok.injEq, Prod.mk.injEq] at h
      rw [← h.left, permitted_keep, permitted_iff]
      constructor
      . rintro ⟨g, hg, hkept, rfl⟩
        rw [Bool.not_eq_true', Bool.eq_false_iff, ne_eq, t.isAt_iff hg] at hkept
        exact ⟨⟨g, hg, rfl⟩, hkept⟩
      . rintro ⟨⟨g, hg, rfl⟩, hne⟩
        refine ⟨g, hg, ?_, rfl⟩
        rw [Bool.not_eq_true', Bool.eq_false_iff, ne_eq, t.isAt_iff hg]
        exact hne

/--
`revoke` withdraws what it says exactly if it meets at most one row.
-/
theorem permitted_of_revoke_iff (t : GrantTable) (userId : Uuid) (plugin skill capability : PyStr)
    (pick : Nat)
    : (∀ a, Permitted (revoke t userId plugin skill capability pick) a
        ↔ Permitted t a
          ∧ ¬ (a.userId = userId ∧ a.plugin = plugin ∧ a.skill = skill ∧ a.capability = capability))
      ↔ (t.rows.filter fun g => g.isFor userId plugin skill capability).length ≤ 1 := by
  unfold revoke
  dsimp only
  have hmem (g : Grant) : g ∈ t.rows.filter (fun g => g.isFor userId plugin skill capability)
      ↔ g ∈ t.rows ∧ g.userId = userId ∧ g.plugin = plugin ∧ g.skill = skill
        ∧ g.capability = capability := by
    rw [List.mem_filter, isFor_iff]
  have hnodup : (t.rows.filter fun g => g.isFor userId plugin skill capability).Nodup :=
    (List.Nodup.of_map _ t.ids).filter _
  generalize t.rows.filter (fun g => g.isFor userId plugin skill capability) = rows at hmem hnodup
  match rows with
  | [] =>
    refine iff_of_true (fun a => ?_) (by simp)
    simp only [List.length_nil, List.getElem?_nil]
    rw [iff_self_and, permitted_iff]
    rintro ⟨g, hg, rfl⟩ hfor
    exact List.not_mem_nil ((hmem g).mpr ⟨hg, hfor⟩)
  | [row] =>
    have ⟨hrow, hfor⟩ := (hmem row).mp (by simp)
    refine iff_of_true (fun a => ?_) (by simp)
    simp only [List.length_singleton, Nat.mod_one, List.getElem?_cons_zero]
    rw [permitted_delete hrow, permitted_iff]
    refine and_congr_right ?_
    rintro ⟨g, hg, rfl⟩
    refine not_congr ⟨fun h => ?_, fun h => ?_⟩
    . rw [← h]
      exact hfor
    . have := (hmem g).mpr ⟨hg, h⟩
      rw [List.mem_singleton.mp this]
  | row₁ :: row₂ :: rest =>
    -- One of the first two rows stays, although it is withdrawn.
    refine iff_of_false (fun h => ?_) (by simp)
    have hlt : pick % (row₁ :: row₂ :: rest).length < (row₁ :: row₂ :: rest).length :=
      Nat.mod_lt _ (by simp)
    rw [List.getElem?_eq_getElem hlt] at h
    generalize hpicked : (row₁ :: row₂ :: rest)[pick % (row₁ :: row₂ :: rest).length] = picked at h
    have hpicked : picked ∈ row₁ :: row₂ :: rest := hpicked ▸ List.getElem_mem hlt
    have ⟨left, hleft, hne⟩ : ∃ left ∈ row₁ :: row₂ :: rest, left ≠ picked := by
      by_cases heq : row₁ = picked
      . refine ⟨row₂, by simp, fun h => ?_⟩
        rw [List.nodup_cons] at hnodup
        exact hnodup.left (by simp [heq, ← h])
      . exact ⟨row₁, by simp, heq⟩
    have ⟨hinLeft, hfor⟩ := (hmem left).mp hleft
    have ⟨hinPicked, _⟩ := (hmem picked).mp hpicked
    have hstays : Permitted (t.delete picked) left.authority := by
      rw [permitted_delete hinPicked]
      exact ⟨(permitted_iff t _).mpr ⟨left, hinLeft, rfl⟩,
        fun heq => hne (t.eq_of_authority hinLeft hinPicked heq.symm)⟩
    exact ((h left.authority).mp hstays).right hfor

/--
An operation withdraws and grants exactly what it says, unless it is a `revoke` that meets several rows.
-/
theorem exact_iff (R : PyRepr) (t : GrantTable) (op : Op)
    : (ledger R).Exact t op ↔ op.MeetsOneScope t := by
  unfold Ledger.Exact
  simp only [ledger, Op.exec]
  cases hrun : op.run R t with
  | error e =>
    have hexact : ∀ a, Permitted t a ↔ Event.gives ⟨op, .error e⟩ a
        ∨ Permitted t a ∧ ¬ Event.takes ⟨op, .error e⟩ a := by
      simp [Event.gives, Event.takes, Except.isOk, Except.toBool]
    cases op with
    | revoke userId plugin skill capability pick => simp [Op.run] at hrun
    | _ => exact iff_of_true hexact trivial
  | ok result =>
    obtain ⟨u, outcome⟩ := result
    have hgives (a : Authority) : Event.gives ⟨op, .ok outcome⟩ a ↔ a ∈ op.grants := by
      simp [Event.gives, Except.isOk, Except.toBool]
    simp only [hgives]
    cases op with
    | grant userId plugin skill capability id grantedByUserId scopeType scopeId =>
      refine iff_of_true (fun a => ?_) trivial
      simp only [Op.run, Except.bind_eq_ok_iff, Except.pure_eq_ok_iff, Prod.mk.injEq] at hrun
      obtain ⟨v, hgrant, hv, _⟩ := hrun
      simpa [Op.grants, Event.takes] using permitted_of_grant (hv ▸ hgrant) a
    | grantMany userId plugin skill capabilities newId grantedByUserId =>
      refine iff_of_true (fun a => ?_) trivial
      simp only [Op.run, Except.bind_eq_ok_iff, Except.pure_eq_ok_iff, Prod.mk.injEq] at hrun
      obtain ⟨v, hgrant, hv, _⟩ := hrun
      simpa [Op.grants, Event.takes] using permitted_of_grantMany (hv ▸ hgrant) a
    | revoke userId plugin skill capability pick =>
      rw [Op.run, Except.ok.injEq, Prod.mk.injEq] at hrun
      rw [← hrun.left]
      simpa [Op.grants, Event.takes, Op.MeetsOneScope] using
        permitted_of_revoke_iff t userId plugin skill capability pick
    | createGrants userId matterId installed capabilityId newId =>
      refine iff_of_true (fun a => ?_) trivial
      simp only [Op.run, Except.bind_eq_ok_iff, Except.pure_eq_ok_iff, Prod.mk.injEq] at hrun
      obtain ⟨⟨v, result, audit⟩, hcreate, hv, _⟩ := hrun
      have hv : v = u := hv
      simpa [Op.grants, Event.takes] using permitted_of_createGrants (hv ▸ hcreate) a
    | revokeGrant userId matterId grantId =>
      refine iff_of_true (fun a => ?_) trivial
      rw [Op.run, Except.ok.injEq, Prod.mk.injEq] at hrun
      rw [← hrun.left, ← hrun.right, permitted_of_revokeGrant]
      simp [Op.grants, Event.takes]
    | revokeModule userId isSuperuser moduleId installedRows =>
      refine iff_of_true (fun a => ?_) trivial
      simp only [Op.run, Except.bind_eq_ok_iff, Except.pure_eq_ok_iff, Prod.mk.injEq] at hrun
      obtain ⟨⟨v, audit⟩, hrevoke, hv, _⟩ := hrun
      have hv : v = u := hv
      simpa [Op.grants, Event.takes] using permitted_of_revokeModule (hv ▸ hrevoke) a
    | deleteMatter deletion =>
      refine iff_of_true (fun a => ?_) trivial
      simp only [Op.run, Except.bind_eq_ok_iff, Except.pure_eq_ok_iff, Prod.mk.injEq] at hrun
      obtain ⟨⟨v, audit⟩, hdelete, hv, _⟩ := hrun
      have hv : v = u := hv
      simpa [Op.grants, Event.takes] using permitted_of_tombstone (hv ▸ hdelete) a

end Operations

/--
The runtime check agrees with the history.
-/
structure MeansWhatWasGranted (t : GrantTable) (standing : Authority → Prop) : Prop where
  permitted_iff : ∀ a, Permitted t a ↔ standing a
  one_row : ∀ g ∈ t.rows, ∀ g' ∈ t.rows, g.authority = g'.authority → g = g'

/--
After every operation of a run, the check succeeds for exactly what has been granted and not withdrawn
since, if and only if no call of `revoke` in the run meets a capability that is granted at several
scopes.
-/
theorem meansWhatWasGranted_iff (R : PyRepr) (ops : List Op)
    : (∀ earlier, earlier <+: ops →
        MeansWhatWasGranted ((ledger R).after .empty earlier)
          ((ledger R).Standing ((ledger R).history .empty earlier)))
      ↔
      ∀ earlier op, earlier ++ [op] <+: ops →
        op.MeetsOneScope ((ledger R).after .empty earlier) := by
  have hempty (a : Authority) : ¬ (ledger R).has .empty a := by
    show ¬ Permitted .empty a
    rw [permitted_iff]
    simp [GrantTable.empty]
  simp only [← exact_iff R]
  rw [← (ledger R).agrees_iff_exact hempty ops]
  refine forall_congr' fun earlier => imp_congr_right fun _ => ?_
  exact ⟨fun h => h.permitted_iff, fun h => ⟨h, fun g hg g' hg' =>
    GrantTable.eq_of_authority _ hg hg'⟩⟩

section Example

instance (t : GrantTable) (a : Authority) : Decidable (Permitted t a) :=
  decidable_of_iff
    ((t.rows.any fun g =>
      g.isFor a.userId a.plugin a.skill a.capability && g.isAt a.matterId) = true) (by
    unfold Permitted requireCapability
    split
    . next h => simp [h]
    . next h => simp [h])

def exampleUser : Uuid := Uuid.ofNat 0

def exampleMatter : Uuid := Uuid.ofNat 1

/--
A capability granted on the workspace and on a matter.
-/
def exampleGrants : List Op :=
  [
    .grant exampleUser (py "review") (py "risk") (py "matter.read") (Uuid.ofNat 2) none none none,
    .grant exampleUser (py "review") (py "risk") (py "matter.read") (Uuid.ofNat 3) none
      (some scopeTypeMatter) (some exampleMatter)
  ]

def exampleRevoke : Op :=
  .revoke exampleUser (py "review") (py "risk") (py "matter.read") 0

/--
`revoke` leaves the grant on the matter standing.
-/
theorem revoke_leaves_grant
    : ¬ MeansWhatWasGranted
        ((ledger .quoted).after .empty (exampleGrants ++ [exampleRevoke]))
        ((ledger .quoted).Standing
          ((ledger .quoted).history .empty (exampleGrants ++ [exampleRevoke]))) := by
  intro h
  have hpermitted : Permitted ((ledger .quoted).after .empty (exampleGrants ++ [exampleRevoke]))
      ⟨exampleUser, py "review", py "risk", py "matter.read", some exampleMatter⟩ := by
    decide +kernel
  have hstanding := (h.permitted_iff _).mp hpermitted
  rw [Ledger.history_concat, Ledger.standing_concat] at hstanding
  cases hstanding with
  | inl hgives => exact absurd hgives.right (by simp [ledger, Op.exec, Op.run, exampleRevoke,
      Op.grants])
  | inr hkept => exact hkept.right ⟨rfl, rfl, rfl, rfl⟩

end Example

end Capabilities
