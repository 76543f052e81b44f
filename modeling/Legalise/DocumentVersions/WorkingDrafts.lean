import Legalise.DocumentVersions.Ledger
import Legalise.Lib.Runs

/-!
This module contains the working draft of a document that several clients read, write and commit at the same time.
-/

namespace DocumentVersions

section Clients

/--
What a client receives of the draft.
-/
structure DraftRead where
  plainText : PyStr
  editorJson : Option Json
  baseVersionId : Option Uuid
  versionCounter : Nat
  clientId : Option PyStr

def WorkingDraft.read (row : WorkingDraft) : DraftRead :=
  ⟨row.plainText, row.editorJson, row.baseVersionId, row.versionCounter, row.clientId⟩

/--
The draft of a document that has none yet.
-/
def initialWorkingDraft (s : State) : DraftRead :=
  match latestTextVersion s with
  | some v => ⟨v.resolvedText.getD [], v.resolvedJson, some v.id, 0, none⟩
  | none => ⟨(s.body.map (·.extractedText)).getD [], none, none, 0, none⟩

def draftRead (s : State) : DraftRead :=
  (s.draft.map WorkingDraft.read).getD (initialWorkingDraft s)

/--
The request of a client that has read and has not written yet, with the number of times that the draft had been
cleared when it read.
-/
inductive Pending where
  | idle
  | reading
  | putting (loaded : Option WorkingDraft) (written : WorkingDraft) (since : Nat)
  | committing (loaded : WorkingDraft) (r : DraftCommit) (since : Nat)

/--
`seen` is the draft of the latest response that the client has received, and `seenAt` the number of times that the
draft had been cleared then.
-/
structure Client where
  seen : Option DraftRead
  seenAt : Nat
  pending : Pending

structure Drafts (C : Type) where
  doc : State
  clears : Nat
  client : C → Client

/--
The steps of the requests: a request reads first, and writes when it commits its transaction, unless it fails.
-/
inductive Event (C : Type) where
  | get (c : C) (actorId : Uuid)
  | readInitial (c : C)
  | put (c : C) (r : DraftUpsert)
  | write (c : C)
  | commit (c : C) (r : DraftCommit) (carries : Bool)
  | save (c : C)
  | abort (c : C)

variable {C : Type} [DecidableEq C] (E : Env) (same : Option Json → Option Json → Bool)

def Drafts.set (σ : Drafts C) (c : C) (client : Client) : Drafts C :=
  { σ with client := Function.update σ.client c client }

def Drafts.wait (σ : Drafts C) (c : C) (pending : Pending) : Drafts C :=
  σ.set c { σ.client c with pending := pending }

def Drafts.respond (σ : Drafts C) (c : C) (seen : DraftRead) : Drafts C :=
  σ.set c ⟨some seen, σ.clears, .idle⟩

/--
The row after the update of the columns whose values the request has changed. `same` is the equality of Python on
decoded JSON.
-/
def updateRow (loaded written current : WorkingDraft) : WorkingDraft where
  plainText := if written.plainText = loaded.plainText then current.plainText else written.plainText
  editorJson := if same written.editorJson loaded.editorJson then current.editorJson else written.editorJson
  baseVersionId := if written.baseVersionId = loaded.baseVersionId then current.baseVersionId else written.baseVersionId
  versionCounter :=
    if written.versionCounter = loaded.versionCounter then current.versionCounter else written.versionCounter
  clientId := if written.clientId = loaded.clientId then current.clientId else written.clientId
  updatedById := if written.updatedById = loaded.updatedById then current.updatedById else written.updatedById

/--
A write carries the counter that the client has received.
-/
def Client.upsert (client : Client) (r : DraftUpsert) : DraftUpsert :=
  { r with expectedVersionCounter := client.seen.map (·.versionCounter) }

def Client.commit (client : Client) (r : DraftCommit) (carries : Bool) : DraftCommit :=
  { r with expectedVersionCounter := if carries then client.seen.map (·.versionCounter) else none }

def checkPut (s : State) (r : DraftUpsert) : Except Failure WorkingDraft := do
  loadOwnedDocument s r.actorId
  writtenDraft s r

def checkCommit (s : State) (r : DraftCommit) : Except Failure WorkingDraft := do
  loadOwnedDocument s r.actorId
  draftToCommit s r

/--
The row that a write leaves. An insert fails if there is a row, and so does an update if there is none.
-/
def writeRow (loaded : Option WorkingDraft) (written : WorkingDraft) (current : Option WorkingDraft)
    : Option WorkingDraft :=
  match loaded, current with
  | none, none => some written
  | some old, some row => some (updateRow same old written row)
  | _, _ => none

def savedEdit (loaded : WorkingDraft) (r : DraftCommit) : UserEdit where
  actorId := r.actorId
  versionId := r.versionId
  resolvedText := loaded.plainText
  resolvedJson := loaded.editorJson
  notes := some (notesOr r.notes (py "Saved working draft from Legalise document editor"))

def Drafts.exec (σ : Drafts C) : Event C → Drafts C
  | .get c actorId =>
    match (σ.client c).pending, loadOwnedDocument σ.doc actorId with
    | .idle, .ok () =>
      match σ.doc.draft with
      | some row => σ.respond c row.read
      | none => σ.wait c .reading
    | _, _ => σ
  | .readInitial c =>
    match (σ.client c).pending with
    | .reading => σ.respond c (initialWorkingDraft σ.doc)
    | _ => σ
  | .put c r =>
    match (σ.client c).pending, (σ.client c).seen, checkPut σ.doc ((σ.client c).upsert r) with
    | .idle, some _, .ok written => σ.wait c (.putting σ.doc.draft written σ.clears)
    | _, _, _ => σ
  | .write c =>
    match (σ.client c).pending with
    | .putting loaded written _ =>
      match writeRow same loaded written σ.doc.draft with
      | some row => { σ with doc := { σ.doc with draft := some row } }.respond c written.read
      | none => σ.wait c .idle
    | _ => σ
  | .commit c r carries =>
    match (σ.client c).pending, checkCommit σ.doc ((σ.client c).commit r carries) with
    | .idle, .ok loaded => σ.wait c (.committing loaded ((σ.client c).commit r carries) σ.clears)
    | _, _ => σ
  | .save c =>
    match (σ.client c).pending with
    | .committing loaded r _ =>
      match createUserEditVersion E σ.doc (savedEdit loaded r) (py "working_draft") with
      | .ok (t, _) =>
        if r.clearDraft then { σ with doc := { t with draft := none }, clears := σ.clears + 1 }.wait c .idle
        else { σ with doc := t }.wait c .idle
      | .error _ => σ.wait c .idle
    | _ => σ
  | .abort c => σ.wait c .idle

/--
A document without a draft, and clients that have received nothing.
-/
def Drafts.fresh (s : State) : Drafts C where
  doc := { s with draft := none }
  clears := 0
  client := fun _ => ⟨none, 0, .idle⟩

def Drafts.run (s : State) (events : List (Event C)) : Drafts C :=
  events.foldl (Drafts.exec E same) (fresh s)

end Clients

section Content

variable {C : Type} {same : Option Json → Option Json → Bool}

/--
The contents are equal, for the editor document as Python compares it.
-/
def SameContent (same : Option Json → Option Json → Bool) (a b : DraftRead) : Prop :=
  a.plainText = b.plainText ∧ (a.editorJson = b.editorJson ∨ same a.editorJson b.editorJson = true)

theorem SameContent.refl (a : DraftRead) : SameContent same a a :=
  ⟨rfl, .inl rfl⟩

/--
No write or clear has come between the read of the request and its own write.
-/
def Undisturbed (σ : Drafts C) (c : C) : Prop :=
  match (σ.client c).pending with
  | .putting loaded _ since => σ.doc.draft = loaded ∧ since = σ.clears
  | .committing loaded _ since => σ.doc.draft = some loaded ∧ since = σ.clears
  | _ => True

/--
The draft has not been cleared since the latest response to the client.
-/
def UpToDate (σ : Drafts C) (c : C) : Prop :=
  (σ.client c).seenAt = σ.clears

/--
The counter that the client has received is the one that the draft has.
-/
def SameCounter (σ : Drafts C) (c : C) : Prop :=
  (σ.client c).seen.map (·.versionCounter) = some ((σ.doc.draft.map (·.versionCounter)).getD 0)

/--
The counter of a client that does not know of a clear is not the one that the draft has by now, and no write comes
between the read of a request and its own write.
-/
def Careful (σ : Drafts C) : Event C → Prop
  | .put c _ => UpToDate σ c ∨ ¬ SameCounter σ c
  | .commit c _ carries => carries = true → UpToDate σ c ∨ ¬ SameCounter σ c
  | .write c => Undisturbed σ c
  | .save c => Undisturbed σ c
  | _ => True

/--
A write that succeeds replaces what its client has received, and a commit that carries a counter saves what its client
has received.
-/
def LosesNoUpdate (same : Option Json → Option Json → Bool) (σ : Drafts C) : Event C → Prop
  | .write c => ∀ loaded written since row, (σ.client c).pending = .putting loaded written since
    → writeRow same loaded written σ.doc.draft = some row
      → ∃ seen, (σ.client c).seen = some seen ∧ SameContent same seen (draftRead σ.doc)
  | .save c => ∀ loaded r since, (σ.client c).pending = .committing loaded r since → r.expectedVersionCounter ≠ none
    → ∃ seen, (σ.client c).seen = some seen ∧ (savedEdit loaded r).resolvedText = seen.plainText
      ∧ ((savedEdit loaded r).resolvedJson = seen.editorJson
        ∨ same seen.editorJson (savedEdit loaded r).resolvedJson = true)
  | _ => True

end Content

section Invariant

variable {C : Type} {E : Env} {same : Option Json → Option Json → Bool} {s t : State} {n : Nat} {client : Client}

/--
What a client knows that has received something since the draft was cleared.
-/
def Knows (same : Option Json → Option Json → Bool) (s : State) (seen : DraftRead) : Prop :=
  match s.draft with
  | none => seen.versionCounter = 0 ∧ SameContent same seen (initialWorkingDraft s)
  | some row =>
    seen.versionCounter ≤ row.versionCounter
      ∧ (seen.versionCounter = row.versionCounter → SameContent same seen row.read)

/--
A client that has passed the check of its request has received what the request has read.
-/
structure ClientInv (same : Option Json → Option Json → Bool) (s : State) (n : Nat) (client : Client) : Prop where
  seenAt : client.seenAt ≤ n
  knows : ∀ seen, client.seen = some seen → client.seenAt = n → Knows same s seen
  putting : ∀ loaded written since, client.pending = .putting loaded written since
    → since ≤ n ∧ written.versionCounter = (loaded.map (·.versionCounter)).getD 0 + 1
      ∧ ∃ seen, client.seen = some seen ∧ (∀ row, loaded = some row → SameContent same seen row.read)
        ∧ (loaded = none → since = n → s.draft = none → SameContent same seen (initialWorkingDraft s))
  committing : ∀ loaded r since, client.pending = .committing loaded r since
    → since ≤ n ∧ (r.expectedVersionCounter ≠ none
      → ∃ seen, client.seen = some seen ∧ SameContent same seen loaded.read)

structure Drafts.Inv (same : Option Json → Option Json → Bool) (σ : Drafts C) : Prop where
  positive : ∀ row, σ.doc.draft = some row → 0 < row.versionCounter
  client : ∀ c, ClientInv same σ.doc σ.clears (σ.client c)

/--
The draft is cleared.
-/
theorem ClientInv.clear (h : ClientInv same s n client) : ClientInv same t (n + 1) client := by
  refine ⟨h.seenAt.trans (Nat.le_succ n), ?_, ?_, ?_⟩
  . intro seen hseen hat
    have := h.seenAt
    omega
  . intro loaded written since hpending
    have ⟨hle, hcounter, seen, hseen, hsome, _⟩ := h.putting loaded written since hpending
    refine ⟨by omega, hcounter, seen, hseen, hsome, ?_⟩
    intro _ hat
    omega
  . intro loaded r since hpending
    have ⟨hle, hseen⟩ := h.committing loaded r since hpending
    exact ⟨by omega, hseen⟩

/--
The row stays or a new one with a greater counter comes.
-/
theorem ClientInv.grow {row : WorkingDraft} (h : ClientInv same s n client) (hrow : t.draft = some row)
    (hgrow : s.draft = some row ∨ (s.draft.map (·.versionCounter)).getD 0 < row.versionCounter)
    : ClientInv same t n client := by
  refine ⟨h.seenAt, ?_, ?_, h.committing⟩
  . intro seen hseen hat
    have hknows := h.knows seen hseen hat
    unfold Knows at hknows ⊢
    rw [hrow]
    rcases hgrow with hsame | hlt
    . rw [hsame] at hknows
      exact hknows
    . have hless : seen.versionCounter < row.versionCounter := by
        cases hdraft : s.draft with
        | none =>
          rw [hdraft] at hknows hlt
          rw [hknows.left]
          exact hlt
        | some old =>
          rw [hdraft] at hknows hlt
          exact hknows.left.trans_lt hlt
      exact ⟨hless.le, fun heq => absurd heq hless.ne⟩
  . intro loaded written since hpending
    have ⟨hle, hcounter, seen, hseen, hsome, _⟩ := h.putting loaded written since hpending
    refine ⟨hle, hcounter, seen, hseen, hsome, ?_⟩
    intro _ _ hnone
    rw [hrow] at hnone
    contradiction

theorem clientInv_idle {seen : DraftRead} (hknows : Knows same s seen) : ClientInv same s n ⟨some seen, n, .idle⟩ := by
  refine ⟨le_refl n, ?_, ?_, ?_⟩
  . intro seen' hseen _
    cases hseen
    exact hknows
  . intro loaded written since hpending
    contradiction
  . intro loaded r since hpending
    contradiction

/--
A client whose request goes on or ends without a response.
-/
theorem ClientInv.wait (h : ClientInv same s n client) {pending : Pending}
    (hputting : ∀ loaded written since, pending ≠ .putting loaded written since)
    (hcommitting : ∀ loaded r since, pending ≠ .committing loaded r since)
    : ClientInv same s n { client with pending := pending } :=
  ⟨h.seenAt, h.knows, fun _ _ _ heq => absurd heq (hputting _ _ _), fun _ _ _ heq => absurd heq (hcommitting _ _ _)⟩

theorem writtenDraft_eq_ok {r : DraftUpsert} {written : WorkingDraft} (h : writtenDraft s r = .ok written)
    : written.versionCounter = (s.draft.map (·.versionCounter)).getD 0 + 1
        ∧ ∀ expected, r.expectedVersionCounter = some expected
          → expected = (s.draft.map (·.versionCounter)).getD 0 := by
  unfold writtenDraft at h
  dsimp only at h
  split at h
  . contradiction
  . split at h
    . next hdraft =>
      split at h
      . contradiction
      . next hexpected =>
        cases h
        refine ⟨by rw [hdraft]; rfl, fun expected heq => ?_⟩
        rw [heq] at hexpected
        rw [hdraft]
        simpa using hexpected
    . next row hdraft =>
      split at h
      . contradiction
      . next hexpected =>
        cases h
        refine ⟨by rw [hdraft]; rfl, fun expected heq => ?_⟩
        rw [heq] at hexpected
        rw [hdraft]
        simpa using hexpected

theorem draftToCommit_eq_ok {r : DraftCommit} {loaded : WorkingDraft} (h : draftToCommit s r = .ok loaded)
    : s.draft = some loaded
        ∧ ∀ expected, r.expectedVersionCounter = some expected → expected = loaded.versionCounter := by
  unfold draftToCommit at h
  split at h
  . contradiction
  . next row hdraft =>
    split at h
    . contradiction
    . split at h
      . contradiction
      . next hexpected =>
        cases h
        refine ⟨hdraft, fun expected heq => ?_⟩
        rw [heq] at hexpected
        simpa using hexpected

/--
A client that is up to date and gives the counter of the row has received the row.
-/
theorem Knows.sameContent {seen : DraftRead} (h : Knows same s seen)
    (hcounter : seen.versionCounter = (s.draft.map (·.versionCounter)).getD 0)
    : SameContent same seen (draftRead s) := by
  unfold Knows at h
  unfold draftRead
  cases hdraft : s.draft with
  | none =>
    rw [hdraft] at h
    exact h.right
  | some row =>
    rw [hdraft] at h hcounter
    exact h.right hcounter

/--
A row that was not disturbed gets all columns of the write.
-/
theorem writeRow_eq_some {loaded : Option WorkingDraft} {written row : WorkingDraft}
    (hcounter : written.versionCounter = (loaded.map (·.versionCounter)).getD 0 + 1)
    (h : writeRow same loaded written loaded = some row)
    : row.versionCounter = written.versionCounter ∧ SameContent same written.read row.read := by
  unfold writeRow at h
  cases loaded with
  | none =>
    cases h
    exact ⟨rfl, .refl _⟩
  | some old =>
    cases h
    have hne : written.versionCounter ≠ old.versionCounter := by
      have hcounter : written.versionCounter = old.versionCounter + 1 := hcounter
      omega
    unfold updateRow SameContent WorkingDraft.read
    dsimp only
    refine ⟨if_neg hne, ?_, ?_⟩
    . split
      . next heq => exact heq
      . rfl
    . split
      . next hsame => exact .inr hsame
      . exact .inl rfl

theorem draft_createUserEditVersion {r : UserEdit} {source : PyStr} {v : DocumentVersion}
    (h : createUserEditVersion E s r source = .ok (t, v)) : t.draft = s.draft := by
  unfold createUserEditVersion at h
  simp only [Except.bind_eq_ok_iff] at h
  obtain ⟨contents, _, u, hinsert, hrest⟩ := h
  cases hrest
  rw [eq_of_insertVersion hinsert]
  rfl

variable {σ : Drafts C} {c : C}

theorem inv_fresh (s : State) : (Drafts.fresh s : Drafts C).Inv same := by
  refine ⟨fun row hrow => by contradiction, fun c => ⟨le_refl _, ?_, ?_, ?_⟩⟩
  . intro seen hseen
    contradiction
  . intro loaded written since hpending
    contradiction
  . intro loaded r since hpending
    contradiction

theorem losesNoUpdate_of_inv (h : σ.Inv same) {e : Event C} (hcareful : Careful σ e) : LosesNoUpdate same σ e := by
  cases e with
  | get c actorId => trivial
  | readInitial c => trivial
  | put c r => trivial
  | commit c r carries => trivial
  | abort c => trivial
  | write c =>
    intro loaded written since row hpending hrow
    have hundisturbed : Undisturbed σ c := hcareful
    unfold Undisturbed at hundisturbed
    rw [hpending] at hundisturbed
    have ⟨hdraft, hsince⟩ := hundisturbed
    have ⟨_, _, seen, hseen, hsome, hnone⟩ := (h.client c).putting loaded written since hpending
    refine ⟨seen, hseen, ?_⟩
    unfold draftRead
    cases loaded with
    | none =>
      rw [hdraft]
      exact hnone rfl hsince hdraft
    | some old =>
      rw [hdraft]
      exact hsome old rfl
  | save c =>
    intro loaded r since hpending hcarries
    have ⟨_, hseen⟩ := (h.client c).committing loaded r since hpending
    have ⟨seen, hseen, htext, hjson⟩ := hseen hcarries
    exact ⟨seen, hseen, htext.symm, hjson.imp Eq.symm id⟩

variable [DecidableEq C]

theorem client_set (σ : Drafts C) (c d : C) (client : Client)
    : (σ.set c client).client d = if d = c then client else σ.client d := by
  unfold Drafts.set
  exact Function.update_apply _ _ _ _

/--
One client changes.
-/
theorem Drafts.Inv.set (h : σ.Inv same) (hclient : ClientInv same σ.doc σ.clears client)
    : (σ.set c client).Inv same := by
  refine ⟨h.positive, fun d => ?_⟩
  rw [client_set]
  split
  . exact hclient
  . exact h.client d

theorem inv_put (h : σ.Inv same) {r : DraftUpsert} {written : WorkingDraft} {seen : DraftRead}
    (hseen : (σ.client c).seen = some seen) (hcheck : checkPut σ.doc ((σ.client c).upsert r) = .ok written)
    (hcareful : UpToDate σ c ∨ ¬ SameCounter σ c)
    : (σ.wait c (.putting σ.doc.draft written σ.clears)).Inv same := by
  have hclient := h.client c
  unfold checkPut at hcheck
  simp only [Except.bind_eq_ok_iff] at hcheck
  obtain ⟨_, _, hwritten⟩ := hcheck
  obtain ⟨hcounter, hexpected⟩ := writtenDraft_eq_ok hwritten
  have hequal := hexpected seen.versionCounter (by unfold Client.upsert; rw [hseen]; rfl)
  have hmeets : SameCounter σ c := by
    unfold SameCounter
    rw [hseen, Option.map_some, hequal]
  have hsame := (hclient.knows seen hseen (hcareful.resolve_right (not_not_intro hmeets))).sameContent hequal
  refine h.set ⟨hclient.seenAt, hclient.knows, ?_, fun _ _ _ heq => by contradiction⟩
  intro loaded written' since heq
  cases heq
  refine ⟨le_refl _, hcounter, seen, hseen, fun row hrow => ?_, fun hnone _ _ => ?_⟩
  . unfold draftRead at hsame
    rw [hrow] at hsame
    exact hsame
  . unfold draftRead at hsame
    rw [hnone] at hsame
    exact hsame

theorem inv_commit (h : σ.Inv same) {r : DraftCommit} {carries : Bool} {loaded : WorkingDraft}
    (hcheck : checkCommit σ.doc ((σ.client c).commit r carries) = .ok loaded)
    (hcareful : carries = true → UpToDate σ c ∨ ¬ SameCounter σ c)
    : (σ.wait c (.committing loaded ((σ.client c).commit r carries) σ.clears)).Inv same := by
  have hclient := h.client c
  unfold checkCommit at hcheck
  simp only [Except.bind_eq_ok_iff] at hcheck
  obtain ⟨_, _, hloaded⟩ := hcheck
  obtain ⟨hdraft, hexpected⟩ := draftToCommit_eq_ok hloaded
  refine h.set ⟨hclient.seenAt, hclient.knows, fun _ _ _ heq => (by contradiction), ?_⟩
  intro loaded' r' since heq
  cases heq
  refine ⟨le_refl _, fun hcarries => ?_⟩
  unfold Client.commit at hcarries hexpected
  dsimp only at hcarries hexpected
  split at hcarries
  . next hcarry =>
    rw [if_pos hcarry] at hexpected
    cases hseen : (σ.client c).seen with
    | none =>
      rw [hseen] at hcarries
      exact absurd rfl hcarries
    | some seen =>
      have hequal : seen.versionCounter = (σ.doc.draft.map (·.versionCounter)).getD 0 := by
        rw [hdraft]
        exact hexpected _ (by rw [hseen]; rfl)
      have hmeets : SameCounter σ c := by
        unfold SameCounter
        rw [hseen, Option.map_some, hequal]
      have hknows := hclient.knows seen hseen ((hcareful hcarry).resolve_right (not_not_intro hmeets))
      have hsame := hknows.sameContent hequal
      unfold draftRead at hsame
      rw [hdraft] at hsame
      exact ⟨seen, rfl, hsame⟩
  . exact absurd rfl hcarries

theorem inv_write (h : σ.Inv same) {loaded : Option WorkingDraft} {written row : WorkingDraft} {since : Nat}
    (hpending : (σ.client c).pending = .putting loaded written since) (hdraft : σ.doc.draft = loaded)
    (hrow : writeRow same loaded written σ.doc.draft = some row)
    : ({ σ with doc := { σ.doc with draft := some row } }.respond c written.read).Inv same := by
  have ⟨_, hcounter, _⟩ := (h.client c).putting loaded written since hpending
  rw [hdraft] at hrow
  have ⟨hsameCounter, hsame⟩ := writeRow_eq_some hcounter hrow
  refine Drafts.Inv.set ⟨?_, fun d => ?_⟩ (clientInv_idle ?_)
  . intro row' hrow'
    cases hrow'
    omega
  . refine (h.client d).grow rfl (.inr ?_)
    rw [hdraft]
    omega
  . exact ⟨le_of_eq hsameCounter.symm, fun _ => hsame⟩

theorem inv_save (h : σ.Inv same) {loaded : WorkingDraft} {r : DraftCommit} {v : DocumentVersion}
    (hdraft : σ.doc.draft = some loaded)
    (hsave : createUserEditVersion E σ.doc (savedEdit loaded r) (py "working_draft") = .ok (t, v))
    : (if r.clearDraft then { σ with doc := { t with draft := none }, clears := σ.clears + 1 }.wait c .idle
      else { σ with doc := t }.wait c .idle).Inv same := by
  have hkept : t.draft = some loaded := (draft_createUserEditVersion hsave).trans hdraft
  split
  . refine Drafts.Inv.set ⟨fun row hrow => by contradiction, fun d => (h.client d).clear⟩ ?_
    exact (h.client c).clear.wait (by simp) (by simp)
  . refine Drafts.Inv.set ⟨fun row hrow => ?_, fun d => (h.client d).grow hkept (.inl hdraft)⟩ ?_
    . rw [hkept] at hrow
      cases hrow
      exact h.positive loaded hdraft
    . exact ((h.client c).grow hkept (.inl hdraft)).wait (by simp) (by simp)

theorem inv_exec (h : σ.Inv same) {e : Event C} (hcareful : Careful σ e) : (σ.exec E same e).Inv same := by
  cases e with
  | get c actorId =>
    unfold Drafts.exec
    dsimp only
    split
    . split
      . next row hdraft =>
        refine h.set (clientInv_idle ?_)
        unfold Knows
        rw [hdraft]
        exact ⟨le_refl _, fun _ => .refl _⟩
      . exact h.set ((h.client c).wait (by simp) (by simp))
    . exact h
  | readInitial c =>
    unfold Drafts.exec
    dsimp only
    split
    . refine h.set (clientInv_idle ?_)
      have hzero : (initialWorkingDraft σ.doc).versionCounter = 0 := by
        unfold initialWorkingDraft
        split <;> rfl
      unfold Knows
      split
      . exact ⟨hzero, .refl _⟩
      . next row hdraft =>
        have hpositive := h.positive row hdraft
        exact ⟨by omega, fun heq => by omega⟩
    . exact h
  | put c r =>
    unfold Drafts.exec
    dsimp only
    split
    . next seen written _ hseen hcheck =>
      exact inv_put h hseen hcheck hcareful
    . exact h
  | write c =>
    unfold Drafts.exec
    dsimp only
    split
    . next loaded written since hpending =>
      split
      . next row hrow =>
        have hundisturbed : Undisturbed σ c := hcareful
        unfold Undisturbed at hundisturbed
        rw [hpending] at hundisturbed
        exact inv_write h hpending hundisturbed.left hrow
      . exact h.set ((h.client c).wait (by simp) (by simp))
    . exact h
  | commit c r carries =>
    unfold Drafts.exec
    dsimp only
    split
    . next loaded _ hcheck =>
      exact inv_commit h hcheck hcareful
    . exact h
  | save c =>
    unfold Drafts.exec
    dsimp only
    split
    . next loaded r since hpending =>
      split
      . next t v hsave =>
        have hundisturbed : Undisturbed σ c := hcareful
        unfold Undisturbed at hundisturbed
        rw [hpending] at hundisturbed
        exact inv_save h hundisturbed.left hsave
      . exact h.set ((h.client c).wait (by simp) (by simp))
    . exact h
  | abort c => exact h.set ((h.client c).wait (by simp) (by simp))

/--
No update of the draft is lost in a run in which no write comes between the read of a request and its own write, and in
which no counter from before a clear is taken for the one that the draft has after it.
-/
theorem losesNoUpdate_of_careful (E : Env) (same : Option Json → Option Json → Bool) (s : State)
    (events : List (Event C))
    (h : ∀ earlier e, earlier ++ [e] <+: events → Careful (Drafts.run E same s earlier) e)
    : ∀ earlier e, earlier ++ [e] <+: events → LosesNoUpdate same (Drafts.run E same s earlier) e := by
  intro earlier e hbegin
  refine losesNoUpdate_of_inv ?_ (h earlier e hbegin)
  refine @Runs.foldl_invariant (Drafts C) (Event C) (Drafts.exec E same) (Drafts.Inv same) Careful
    (fun _ _ hallowed hinv => inv_exec hinv hallowed) _ (inv_fresh s) earlier fun before o hbefore => ?_
  exact h before o (hbefore.trans ((List.prefix_append _ _).trans hbegin))

end Invariant

section Examples

def draftOf (text : String) : DraftUpsert :=
  ⟨owner, py text, none, none, none, none⟩

/--
Two clients read and write at the same time.
-/
def twoClients : List (Event Bool) :=
  [.get false owner, .readInitial false, .put false (draftOf "The lessee pays."), .write false, .get true owner,
    .put false (draftOf "The lessee pays rent."), .put true (draftOf "The tenant pays rent."), .write false]

/--
The two clients read at the same time, but the second one puts only after the write of the first. It is refused, reads
again, and puts once more.
-/
def carefulClients : List (Event Bool) :=
  [.get false owner, .get true owner, .readInitial false, .readInitial true, .put false (draftOf "The lessee pays."),
    .write false, .put true (draftOf "The tenant pays."), .get true owner, .put true (draftOf "The lessee pays rent.")]

theorem losesNoUpdate_carefulClients
    : LosesNoUpdate (fun _ _ => false)
          (Drafts.run plainEnv (fun _ _ => false) (uploaded plainEnv lease) carefulClients) (.write true)
        ∧ (draftRead (Drafts.run plainEnv (fun _ _ => false) (uploaded plainEnv lease)
          (carefulClients ++ [.write true])).doc).plainText = py "The lessee pays rent." := by
  refine ⟨losesNoUpdate_of_careful plainEnv (fun _ _ => false) (uploaded plainEnv lease)
    (carefulClients ++ [.write true]) (fun earlier e hbegin => ?_) _ _ (List.prefix_refl _), by decide +kernel⟩
  have hsteps : Runs.Steps (Drafts.exec plainEnv fun _ _ => false) Careful (Drafts.fresh (uploaded plainEnv lease))
      (carefulClients ++ [.write true]) :=
    ⟨trivial, trivial, trivial, trivial, .inl rfl, ⟨rfl, rfl⟩, .inl rfl, trivial, .inl rfl, ⟨rfl, rfl⟩, trivial⟩
  exact hsteps.of_prefix hbegin

/--
The second client overwrites the text of the first, which it has never received.
-/
theorem not_losesNoUpdate_twoClients
    : ¬ LosesNoUpdate (fun _ _ => false)
        (Drafts.run plainEnv (fun _ _ => false) (uploaded plainEnv lease) twoClients) (.write true) := by
  intro h
  have hsome : ∃ loaded written since row,
      ((Drafts.run plainEnv (fun _ _ => false) (uploaded plainEnv lease) twoClients).client true).pending
          = .putting loaded written since
        ∧ writeRow (fun _ _ => false) loaded written
            (Drafts.run plainEnv (fun _ _ => false) (uploaded plainEnv lease) twoClients).doc.draft = some row :=
    ⟨_, _, _, _, rfl, rfl⟩
  have ⟨loaded, written, since, row, hpending, hrow⟩ := hsome
  have ⟨seen, hseen, hsame⟩ := h loaded written since row hpending hrow
  have hstale : ((Drafts.run plainEnv (fun _ _ => false) (uploaded plainEnv lease) twoClients).client true).seen.map
      (·.plainText) = some (py "The lessee pays.") := by decide +kernel
  have hnow : (draftRead (Drafts.run plainEnv (fun _ _ => false) (uploaded plainEnv lease) twoClients).doc).plainText
      = py "The lessee pays rent." := by decide +kernel
  rw [hseen, Option.map_some, Option.some.injEq, hsame.left, hnow] at hstale
  exact absurd hstale (by decide +kernel)

end Examples

end DocumentVersions
