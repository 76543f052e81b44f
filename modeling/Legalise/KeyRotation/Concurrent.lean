import Legalise.KeyRotation.Resume

/-!
This module contains a rotation while users save, replace and delete their keys through the server, which
encrypts under the old master key.
-/

namespace KeyRotation

section Interleaving

variable (A : AesGcm) (oldKey newKey : MasterKey) (batchSize : Nat)

/--
The committed rows, the entries of the preflight that have not been written back, and what the users have
done: the ids that were drawn, the text that was saved last in a row, and whether it was saved after the
row had been rotated.
-/
structure State where
  table : KeyTable
  pending : List (Uuid × PyStr)
  drawn : List Uuid
  saved : Uuid → PyStr
  late : Uuid → Bool

/--
The requests of the users and the batches of the tool. A batch holds locks on its rows, so that saves of
them come before or after it.
-/
inductive Event where
  | save (userId : Uuid) (provider plaintext : PyStr) (nonce : Bytes) (newId : Uuid)
  | delete (userId : Uuid) (provider : PyStr)
  | batch (urandom : Uuid → Bytes)

def KeyTable.find? (t : KeyTable) (userId : Uuid) (provider : PyStr) : Option UserApiKey :=
  t.rows.find? fun row => row.owner = (userId, provider)

def KeyTable.delete (t : KeyTable) (userId : Uuid) (provider : PyStr) : KeyTable where
  rows := t.rows.filter fun row => row.owner ≠ (userId, provider)
  ids := t.ids.sublist (List.filter_sublist.map _)
  owners := t.owners.sublist (List.filter_sublist.map _)

/--
The table with one more row, unless it violates a constraint.
-/
def KeyTable.insert? (t : KeyTable) (row : UserApiKey) : Option KeyTable :=
  if h : row.id ∉ t.rows.map UserApiKey.id ∧ row.owner ∉ t.rows.map UserApiKey.owner then
    some {
      rows := row :: t.rows
      ids := List.nodup_cons.mpr ⟨h.left, t.ids⟩
      owners := List.nodup_cons.mpr ⟨h.right, t.owners⟩
    }
  else none

/--
`upsert_user_provider_key`, with the id that a new row gets. No id is drawn twice.
-/
def State.save (s : State) (userId : Uuid) (provider plaintext : PyStr) (nonce : Bytes) (newId : Uuid)
    : State :=
  match encryptWith A plaintext oldKey nonce with
  | none => s
  | some ciphertext =>
    match s.table.find? userId provider with
    | some existing =>
      {
        s with
        table := s.table.update existing.id ciphertext nonce
        saved := Function.update s.saved existing.id plaintext
        late := Function.update s.late existing.id (existing.id ∉ s.pending.map Prod.fst)
      }
    | none =>
      if newId ∈ s.drawn then s
      else
        match s.table.insert? {
          id := newId, userId := userId, provider := provider, ciphertext := ciphertext, nonce := nonce
        } with
        | some table =>
          {
            s with
            table := table
            drawn := newId :: s.drawn
            saved := Function.update s.saved newId plaintext
          }
        | none => s

def State.exec (s : State) : Event → State
  | .save userId provider plaintext nonce newId =>
    s.save A oldKey userId provider plaintext nonce newId
  | .delete userId provider => { s with table := s.table.delete userId provider }
  | .batch urandom =>
    match rotateChunk A newKey urandom s.table (s.pending.take batchSize) with
    | some table => { s with table := table, pending := s.pending.drop batchSize }
    | none => s

/--
The state after the preflight.
-/
def State.afterPreflight (t : KeyTable) (entries : List (Uuid × PyStr)) (plaintexts : Uuid → PyStr) : State where
  table := t
  pending := entries
  drawn := t.rows.map UserApiKey.id
  saved := plaintexts
  late _ := false

end Interleaving

section Invariant

variable {A : AesGcm} {oldKey newKey : MasterKey} {batchSize : Nat} {plaintexts : Uuid → PyStr} {ids : List Uuid}
  {s : State}

/--
What a row of the preflight holds: what its user saved last, under the old key, as long as no batch has
written it or if it was saved afterwards, and else what the preflight read, under the new key.
-/
structure Holds (A : AesGcm) (oldKey newKey : MasterKey) (plaintexts : Uuid → PyStr) (s : State)
    (row : UserApiKey) : Prop where
  pending : row.id ∈ s.pending.map Prod.fst → EncryptedUnder A oldKey (s.saved row.id) row
  late : row.id ∉ s.pending.map Prod.fst → s.late row.id = true
    → EncryptedUnder A oldKey (s.saved row.id) row
  rotated : row.id ∉ s.pending.map Prod.fst → s.late row.id = false
    → EncryptedUnder A newKey (plaintexts row.id) row

structure Inv (A : AesGcm) (oldKey newKey : MasterKey) (plaintexts : Uuid → PyStr) (ids : List Uuid)
    (s : State) : Prop where
  entries : ∀ entry ∈ s.pending, entry.2 = plaintexts entry.1
  encode : AllEncode s.pending
  nodup : (s.pending.map Prod.fst).Nodup
  drawn : ids ⊆ s.drawn
  late : ∀ id ∈ s.pending.map Prod.fst, s.late id = false
  rows : ∀ row ∈ s.table.rows, row.id ∈ ids → Holds A oldKey newKey plaintexts s row

theorem inv_save (h : Inv A oldKey newKey plaintexts ids s) (userId : Uuid) (provider plaintext : PyStr)
    (nonce : Bytes) (newId : Uuid)
    : Inv A oldKey newKey plaintexts ids (s.save A oldKey userId provider plaintext nonce newId) := by
  unfold State.save
  split
  . exact h
  . next ciphertext hencrypt =>
    have ⟨data, hdata, hciphertext⟩ := Option.map_eq_some_iff.mp hencrypt
    split
    . next existing hexisting =>
      refine ⟨h.entries, h.encode, h.nodup, h.drawn, ?_, ?_⟩
      . intro id hid
        dsimp only at hid ⊢
        by_cases heq : id = existing.id
        . rw [heq] at hid
          simp [heq, hid]
        . rw [Function.update_of_ne heq]
          exact h.late id hid
      . intro row hrow hmem
        rcases mem_update hrow with ⟨hid, hct, hnonce⟩ | ⟨hid, hbefore⟩
        . have hunder : EncryptedUnder A oldKey plaintext row := ⟨data, hdata, by rw [hct, hnonce, hciphertext]⟩
          constructor
          . intro _
            simpa [hid] using hunder
          . intro _ _
            simpa [hid] using hunder
          . intro hpending hlate
            simp only [hid, Function.update_self, decide_eq_false_iff_not] at hpending hlate
            exact absurd hpending hlate
        . have hrowInv := h.rows row hbefore hmem
          constructor
          . simpa only [Function.update_of_ne hid] using hrowInv.pending
          . simpa only [Function.update_of_ne hid] using hrowInv.late
          . simpa only [Function.update_of_ne hid] using hrowInv.rotated
    . split
      . exact h
      . next hdrawn =>
        split
        . next table hinsert =>
          unfold KeyTable.insert? at hinsert
          split at hinsert
          . have hrows := congrArg KeyTable.rows (Option.some.inj hinsert)
            refine ⟨h.entries, h.encode, h.nodup, fun id hid => List.mem_cons_of_mem _ (h.drawn hid), h.late, ?_⟩
            intro row hrow hmem
            simp only [← hrows, List.mem_cons] at hrow
            rcases hrow with rfl | hbefore
            . exact absurd (h.drawn hmem) hdrawn
            . have hne : row.id ≠ newId := fun heq => hdrawn (heq ▸ h.drawn hmem)
              have hrowInv := h.rows row hbefore hmem
              constructor
              . simpa only [Function.update_of_ne hne] using hrowInv.pending
              . simpa only [Function.update_of_ne hne] using hrowInv.late
              . exact hrowInv.rotated
          . simp at hinsert
        . exact h

theorem inv_batch (h : Inv A oldKey newKey plaintexts ids s) (urandom : Uuid → Bytes)
    : Inv A oldKey newKey plaintexts ids (s.exec A oldKey newKey batchSize (.batch urandom)) := by
  have hchunk : AllEncode (s.pending.take batchSize) :=
    fun entry hentry => h.encode entry (List.mem_of_mem_take hentry)
  have ⟨table, htable, hrotated⟩ := rotateChunk_rotated A newKey urandom hchunk s.table
  simp only [State.exec, htable]
  have hsplit : s.pending.map Prod.fst
      = (s.pending.take batchSize).map Prod.fst ++ (s.pending.drop batchSize).map Prod.fst := by
    rw [← List.map_append, List.take_append_drop]
  have hnodup := h.nodup
  rw [hsplit, List.nodup_append] at hnodup
  refine ⟨?_, ?_, hnodup.right.left, h.drawn, ?_, ?_⟩
  . exact fun entry hentry => h.entries entry (List.mem_of_mem_drop hentry)
  . exact fun entry hentry => h.encode entry (List.mem_of_mem_drop hentry)
  . intro id hid
    exact h.late id (by rw [hsplit]; exact List.mem_append_right _ hid)
  . intro row hrow hmem
    rcases hrotated.rows row hrow with ⟨entry, hentry, hid, hnew⟩ | ⟨hid, hbefore⟩
    . have htake : row.id ∈ (s.pending.take batchSize).map Prod.fst :=
        List.mem_map.mpr ⟨entry, hentry, hid⟩
      have hlate := h.late row.id (by rw [hsplit]; exact List.mem_append_left _ htake)
      have hplaintext := h.entries entry (List.mem_of_mem_take hentry)
      constructor
      . intro hpending
        exact absurd rfl (hnodup.right.right row.id htake row.id hpending)
      . intro _ htrue
        simp [hlate] at htrue
      . intro _ _
        rwa [hplaintext, hid] at hnew
    . have hrowInv := h.rows row hbefore hmem
      have hiff : row.id ∈ s.pending.map Prod.fst ↔ row.id ∈ (s.pending.drop batchSize).map Prod.fst := by
        rw [hsplit, List.mem_append]
        exact or_iff_right hid
      exact ⟨fun hpending => hrowInv.pending (hiff.mpr hpending),
        fun hpending => hrowInv.late (fun hmem => hpending (hiff.mp hmem)),
        fun hpending => hrowInv.rotated (fun hmem => hpending (hiff.mp hmem))⟩

theorem inv_exec (h : Inv A oldKey newKey plaintexts ids s) (event : Event)
    : Inv A oldKey newKey plaintexts ids (s.exec A oldKey newKey batchSize event) := by
  cases event with
  | save userId provider plaintext nonce newId => exact inv_save h ..
  | delete userId provider =>
    refine ⟨h.entries, h.encode, h.nodup, h.drawn, h.late, fun row hrow hmem => ?_⟩
    have hrowInv := h.rows row (List.mem_of_mem_filter hrow) hmem
    exact ⟨hrowInv.pending, hrowInv.late, hrowInv.rotated⟩
  | batch urandom => exact inv_batch h urandom

theorem inv_foldl (h : Inv A oldKey newKey plaintexts ids s) (events : List Event)
    : Inv A oldKey newKey plaintexts ids
        (events.foldl (fun s event => s.exec A oldKey newKey batchSize event) s) := by
  induction events generalizing s with
  | nil => exact h
  | cons event events ih => exact ih (inv_exec h event)

end Invariant

section Finished

variable {A : AesGcm}

/--
Every row of the preflight that is still there decrypts under the new key to what its user saved last.
-/
def KeepsSaved (A : AesGcm) (newKey : MasterKey) (ids : List Uuid) (s : State) : Prop :=
  ∀ row ∈ s.table.rows, row.id ∈ ids → decryptWith A row.ciphertext row.nonce newKey = .ok (s.saved row.id)

/--
No row of the preflight that is still there was saved after its batch, unless the keys are the same, and
what was saved last before the batch is what the preflight read.
-/
def Undisturbed (oldKey newKey : MasterKey) (plaintexts : Uuid → PyStr) (ids : List Uuid) (s : State) : Prop :=
  ∀ row ∈ s.table.rows, row.id ∈ ids
    → if s.late row.id then oldKey = newKey else s.saved row.id = plaintexts row.id

theorem keepsSaved_iff_of_inv {oldKey newKey : MasterKey} {plaintexts : Uuid → PyStr} {ids : List Uuid}
    {s : State} (h : Inv A oldKey newKey plaintexts ids s) (hdone : s.pending = [])
    : KeepsSaved A newKey ids s ↔ Undisturbed oldKey newKey plaintexts ids s := by
  unfold KeepsSaved Undisturbed
  have hrow (row : UserApiKey) (hrow : row ∈ s.table.rows) (hid : row.id ∈ ids)
      : decryptWith A row.ciphertext row.nonce newKey = .ok (s.saved row.id)
          ↔ if s.late row.id then oldKey = newKey else s.saved row.id = plaintexts row.id := by
    have hholds := h.rows row hrow hid
    have hpending : row.id ∉ s.pending.map Prod.fst := by simp [hdone]
    cases hlate : s.late row.id with
    | true =>
      have hunder := hholds.late hpending hlate
      simp only [if_true]
      constructor
      . intro hok
        exact (key_of_decryptWith hunder hok).symm
      . intro heq
        rw [← heq]
        exact hunder.decryptWith
    | false =>
      have hunder := hholds.rotated hpending hlate
      rw [hunder.decryptWith]
      simp only [Bool.false_eq_true, if_false, Except.ok.injEq]
      exact eq_comm
  constructor
  . intro hall row hmem hid
    exact (hrow row hmem hid).mp (hall row hmem hid)
  . intro hall row hmem hid
    exact (hrow row hmem hid).mpr (hall row hmem hid)

theorem keepsSaved_iff (plaintexts : Uuid → PyStr) (run : Run) (t : KeyTable)
    (h : ∀ row ∈ t.rows, EncryptedUnder A run.oldKey (plaintexts row.id) row)
    {entries : List (Uuid × PyStr)} (hpreflight : preflight A run.oldKey (run.select t.rows) = .ok entries)
    {events : List Event} {s : State}
    (hrun : events.foldl (fun s event => s.exec A run.oldKey run.newKey run.batchSize event)
      (.afterPreflight t entries plaintexts) = s) (hdone : s.pending = [])
    : KeepsSaved A run.newKey (t.rows.map UserApiKey.id) s
        ↔ Undisturbed run.oldKey run.newKey plaintexts (t.rows.map UserApiKey.id) s := by
  have hselected : ∀ row ∈ run.select t.rows, EncryptedUnder A run.oldKey (plaintexts row.id) row :=
    fun row hrow => h row ((run.select_perm t.rows).mem_iff.mp hrow)
  rw [preflight_eq_ok hselected] at hpreflight
  have hentries : entriesOf plaintexts run t = entries := Except.ok.inj hpreflight
  have hinv : Inv A run.oldKey run.newKey plaintexts (t.rows.map UserApiKey.id)
      (.afterPreflight t entries plaintexts) := by
    rw [← hentries]
    constructor
    . intro entry hentry
      have ⟨_, _, _, heq⟩ := mem_entriesOf.mp hentry
      exact heq.symm
    . intro entry hentry
      have ⟨row, hrow, hid, hplaintext⟩ := mem_entriesOf.mp hentry
      have ⟨data, hdata, _⟩ := h row hrow
      exact ⟨data, by rw [← hplaintext, ← hid, hdata]⟩
    . exact nodup_entriesOf
    . exact List.Subset.refl _
    . exact fun _ _ => rfl
    . intro row hrow _
      have hmem : row.id ∈ (entriesOf plaintexts run t).map Prod.fst :=
        List.mem_map.mpr ⟨(row.id, plaintexts row.id), mem_entriesOf.mpr ⟨row, hrow, rfl, rfl⟩, rfl⟩
      exact ⟨fun _ => h row hrow, fun hno => absurd hmem hno, fun hno => absurd hmem hno⟩
  exact keepsSaved_iff_of_inv (hrun ▸ inv_foldl hinv events) hdone

/--
The state after a save of the first key and the batch that was pending.
-/
def saveThenBatch : State :=
  [
    Event.save (Uuid.ofNat 1) (py "anthropic") (py "sk-new") [] (Uuid.ofNat 3), .batch fun _ => [],
    .batch fun _ => []
  ].foldl (fun s event => s.exec .plain (keyOf 1) (keyOf 2) 1 event)
    (.afterPreflight twoRows [(Uuid.ofNat 1, []), (Uuid.ofNat 2, [])] fun _ => [])

theorem keepsSaved_iff_saveThenBatch
    : KeepsSaved .plain (keyOf 2) (twoRows.rows.map UserApiKey.id) saveThenBatch
        ↔ Undisturbed (keyOf 1) (keyOf 2) (fun _ => []) (twoRows.rows.map UserApiKey.id) saveThenBatch :=
  keepsSaved_iff (fun _ => []) (runOf 2) twoRows encryptedUnder_twoRows
    (@preflight_eq_ok .plain (keyOf 1) (fun _ => []) twoRows.rows encryptedUnder_twoRows) rfl
    (by decide +kernel)

/--
The batch has put back the key that its user had replaced.
-/
theorem not_keepsSaved : ¬ KeepsSaved .plain (keyOf 2) (twoRows.rows.map UserApiKey.id) saveThenBatch := by
  intro h
  have hrow : (saveThenBatch.table.rows.head?).map (fun row =>
      (row.id, (decryptWith .plain row.ciphertext row.nonce (keyOf 2)).toOption))
      = some (Uuid.ofNat 1, some []) := by
    decide +kernel
  have hsaved : saveThenBatch.saved (Uuid.ofNat 1) = py "sk-new" := by
    decide +kernel
  have ⟨row, hhead, heq⟩ := Option.map_eq_some_iff.mp hrow
  simp only [Prod.mk.injEq] at heq
  have hid : row.id ∈ twoRows.rows.map UserApiKey.id := by
    rw [heq.left]
    decide
  have hok := h row (List.mem_of_mem_head? hhead) hid
  rw [hok, heq.left, hsaved] at heq
  revert heq
  decide

end Finished

end KeyRotation
