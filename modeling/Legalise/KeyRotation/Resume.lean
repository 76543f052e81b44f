import Legalise.KeyRotation.Basic

/-!
This module contains what an interrupted rotation leaves behind, and when further runs of the tool can
complete it.
-/

namespace KeyRotation

variable {A : AesGcm}

section Rows

/--
The row is an encryption of a text under a key.
-/
def EncryptedUnder (A : AesGcm) (key : MasterKey) (plaintext : PyStr) (row : UserApiKey) : Prop :=
  ∃ data, Utf8.encode plaintext = some data ∧ row.ciphertext = A.encrypt key row.nonce data

theorem EncryptedUnder.decryptWith {key : MasterKey} {plaintext : PyStr} {row : UserApiKey}
    (h : EncryptedUnder A key plaintext row)
    : KeyRotation.decryptWith A row.ciphertext row.nonce key = .ok plaintext := by
  have ⟨data, hdata, hciphertext⟩ := h
  simp [KeyRotation.decryptWith, hciphertext, A.decrypt_encrypt, Utf8.decode_encode hdata]

theorem EncryptedUnder.decryptWith_of_ne {key other : MasterKey} {plaintext : PyStr} {row : UserApiKey}
    (h : EncryptedUnder A key plaintext row) (hne : other ≠ key)
    : KeyRotation.decryptWith A row.ciphertext row.nonce other = .error .invalidTag := by
  have ⟨data, _, hciphertext⟩ := h
  simp [KeyRotation.decryptWith, hciphertext, A.decrypt_of_ne hne]

theorem mem_update {t : KeyTable} {id : Uuid} {ciphertext nonce : Bytes} {row : UserApiKey}
    (h : row ∈ (t.update id ciphertext nonce).rows)
    : row.id = id ∧ row.ciphertext = ciphertext ∧ row.nonce = nonce ∨ row.id ≠ id ∧ row ∈ t.rows := by
  have ⟨before, hbefore, heq⟩ := List.mem_map.mp h
  unfold setKey at heq
  split at heq
  . next hid =>
    rw [← heq]
    exact .inl ⟨hid, rfl, rfl⟩
  . next hid =>
    rw [← heq]
    exact .inr ⟨hid, hbefore⟩

end Rows

section Preflight

theorem preflight_eq_ok {oldKey : MasterKey} {plaintexts : Uuid → PyStr} {selected : List UserApiKey}
    (h : ∀ row ∈ selected, EncryptedUnder A oldKey (plaintexts row.id) row)
    : preflight A oldKey selected = .ok (selected.map fun row => (row.id, plaintexts row.id)) := by
  unfold preflight
  rw [Except.mapM_eq_ok_iff, List.forall₂_map_right_iff, List.forall₂_same]
  intro row hrow
  simp [(h row hrow).decryptWith]

/--
A row under another key refuses the run.
-/
theorem preflight_isError {oldKey key : MasterKey} {plaintext : PyStr} {selected : List UserApiKey}
    {row : UserApiKey} (hrow : row ∈ selected) (h : EncryptedUnder A key plaintext row) (hne : oldKey ≠ key)
    : ∃ error, preflight A oldKey selected = .error error := by
  cases hpreflight : preflight A oldKey selected with
  | error error => exact ⟨error, rfl⟩
  | ok entries =>
    unfold preflight at hpreflight
    have hrows := (Except.mapM_isOk_iff _ _).mp ⟨entries, hpreflight⟩
    have ⟨entry, hentry⟩ := hrows row hrow
    simp [h.decryptWith_of_ne hne] at hentry

end Preflight

section Batches

variable {newKey : MasterKey} {urandom : Uuid → Bytes}

/--
The rows after some plaintexts have been written back: those that were among them are under the new key,
the others are as they were.
-/
structure Rotated (A : AesGcm) (newKey : MasterKey) (entries : List (Uuid × PyStr)) (t t' : KeyTable) : Prop where
  ids : t'.rows.map UserApiKey.id = t.rows.map UserApiKey.id
  rows : ∀ row ∈ t'.rows, (∃ entry ∈ entries, entry.1 = row.id ∧ EncryptedUnder A newKey entry.2 row)
    ∨ row.id ∉ entries.map Prod.fst ∧ row ∈ t.rows

theorem Rotated.nil (t : KeyTable) : Rotated A newKey [] t t where
  ids := rfl
  rows := fun _ hrow => .inr ⟨List.not_mem_nil, hrow⟩

theorem Rotated.append {first second : List (Uuid × PyStr)} {t t' t'' : KeyTable}
    (h : Rotated A newKey first t t') (h' : Rotated A newKey second t' t'')
    : Rotated A newKey (first ++ second) t t'' where
  ids := h'.ids.trans h.ids
  rows := by
    intro row hrow
    rcases h'.rows row hrow with ⟨entry, hentry, hrest⟩ | ⟨hid, hrow⟩
    . exact .inl ⟨entry, List.mem_append_right _ hentry, hrest⟩
    . rcases h.rows row hrow with ⟨entry, hentry, hrest⟩ | ⟨hid', hrow⟩
      . exact .inl ⟨entry, List.mem_append_left _ hentry, hrest⟩
      . refine .inr ⟨?_, hrow⟩
        rw [List.map_append, List.mem_append]
        exact not_or.mpr ⟨hid', hid⟩

theorem rotated_update (t : KeyTable) {entry : Uuid × PyStr} {nonce data : Bytes}
    (hdata : Utf8.encode entry.2 = some data)
    : Rotated A newKey [entry] t (t.update entry.1 (A.encrypt newKey nonce data) nonce) where
  ids := by simp [KeyTable.update, Function.comp_def]
  rows := by
    intro row hrow
    rcases mem_update hrow with ⟨hid, hciphertext, hnonce⟩ | ⟨hid, hrow⟩
    . refine .inl ⟨entry, List.mem_singleton.mpr rfl, hid.symm, data, hdata, ?_⟩
      rw [hciphertext, hnonce]
    . exact .inr ⟨by simpa using hid, hrow⟩

/--
The plaintexts can be encoded again.
-/
def AllEncode (entries : List (Uuid × PyStr)) : Prop :=
  ∀ entry ∈ entries, ∃ data, Utf8.encode entry.2 = some data

theorem rotateChunk_rotated (A : AesGcm) (newKey : MasterKey) (urandom : Uuid → Bytes)
    {chunk : List (Uuid × PyStr)} (h : AllEncode chunk) (t : KeyTable)
    : ∃ t', rotateChunk A newKey urandom t chunk = some t' ∧ Rotated A newKey chunk t t' := by
  induction chunk generalizing t with
  | nil => exact ⟨t, rfl, .nil t⟩
  | cons entry chunk ih =>
    have ⟨data, hdata⟩ := h entry List.mem_cons_self
    have ⟨t', hchunk, hrotated⟩ := ih (fun entry hentry => h entry (List.mem_cons_of_mem _ hentry))
      (t.update entry.1 (A.encrypt newKey (urandom entry.1) data) (urandom entry.1))
    refine ⟨t', ?_, (rotated_update t hdata).append hrotated⟩
    unfold rotateChunk at hchunk ⊢
    rw [List.foldlM_cons]
    simpa [encryptWith, hdata] using hchunk

theorem rotateBatches_rotated {batchSize : Nat} (batches : Nat) {entries : List (Uuid × PyStr)}
    (h : AllEncode entries) (t : KeyTable)
    : Rotated A newKey (entries.take (batches * batchSize)) t
        (rotateBatches A newKey batchSize urandom batches t entries) := by
  induction batches generalizing entries t with
  | zero =>
    rw [Nat.zero_mul, List.take_zero]
    exact .nil t
  | succ batches ih =>
    unfold rotateBatches
    split
    . next hnil =>
      rw [hnil, List.take_nil]
      exact .nil t
    . have hchunk : AllEncode (entries.take batchSize) := fun entry hentry => h entry (List.mem_of_mem_take hentry)
      have hrest : AllEncode (entries.drop batchSize) := fun entry hentry => h entry (List.mem_of_mem_drop hentry)
      have ⟨t', ht', hrotated⟩ := rotateChunk_rotated A newKey urandom hchunk t
      have hsplit : entries.take ((batches + 1) * batchSize)
          = entries.take batchSize ++ (entries.drop batchSize).take (batches * batchSize) := by
        rw [Nat.succ_mul, Nat.add_comm, List.take_add]
      rw [ht', hsplit]
      exact hrotated.append (ih hrest t')

end Batches

section Resume

variable {plaintexts : Uuid → PyStr} {run : Run} {t : KeyTable}

/--
The entries that a run gets from its preflight.
-/
def entriesOf (plaintexts : Uuid → PyStr) (run : Run) (t : KeyTable) : List (Uuid × PyStr) :=
  (run.select t.rows).map fun row => (row.id, plaintexts row.id)

theorem mem_entriesOf {entry : Uuid × PyStr}
    : entry ∈ entriesOf plaintexts run t
        ↔ ∃ row ∈ t.rows, row.id = entry.1 ∧ plaintexts entry.1 = entry.2 := by
  unfold entriesOf
  rw [List.mem_map]
  constructor
  . rintro ⟨row, hrow, rfl⟩
    exact ⟨row, (run.select_perm t.rows).mem_iff.mp hrow, rfl, rfl⟩
  . rintro ⟨row, hrow, hid, hplaintext⟩
    exact ⟨row, (run.select_perm t.rows).mem_iff.mpr hrow, by rw [hid, hplaintext]⟩

theorem length_entriesOf : (entriesOf plaintexts run t).length = t.rows.length := by
  rw [entriesOf, List.length_map, (run.select_perm t.rows).length_eq]

theorem nodup_entriesOf : ((entriesOf plaintexts run t).map Prod.fst).Nodup := by
  rw [entriesOf, List.map_map]
  exact ((run.select_perm t.rows).map UserApiKey.id).nodup_iff.mpr t.ids

/--
A run over rows that are all under its old key rotates as many of them as its batches hold.
-/
theorem rotate_rotated (hdry : run.dryRun = false)
    (h : ∀ row ∈ t.rows, EncryptedUnder A run.oldKey (plaintexts row.id) row)
    : Rotated A run.newKey ((entriesOf plaintexts run t).take (run.batches * run.batchSize)) t
        (rotate A run t) := by
  have hselected : ∀ row ∈ run.select t.rows, EncryptedUnder A run.oldKey (plaintexts row.id) row :=
    fun row hrow => h row ((run.select_perm t.rows).mem_iff.mp hrow)
  have hencode : AllEncode (entriesOf plaintexts run t) := by
    intro entry hentry
    have ⟨row, hrow, hid, hplaintext⟩ := mem_entriesOf.mp hentry
    have ⟨data, hdata, _⟩ := h row hrow
    exact ⟨data, by rw [← hplaintext, ← hid, hdata]⟩
  unfold rotate
  rw [preflight_eq_ok hselected]
  simp only [hdry, Bool.false_eq_true, if_false]
  exact rotateBatches_rotated _ hencode t

/--
Two rows of the table are under different keys.
-/
def Mixed (A : AesGcm) (t : KeyTable) : Prop :=
  ∃ row ∈ t.rows, ∃ other ∈ t.rows, ∃ key otherKey plaintext otherPlaintext, key ≠ otherKey
    ∧ EncryptedUnder A key plaintext row ∧ EncryptedUnder A otherKey otherPlaintext other

/--
No run is accepted on a mixed table.
-/
theorem rotate_of_mixed (h : Mixed A t) (run : Run) : rotate A run t = t := by
  have ⟨row, hrow, other, hother, key, otherKey, plaintext, otherPlaintext, hne, hkey, hotherKey⟩ := h
  have hselected {row : UserApiKey} (hrow : row ∈ t.rows) : row ∈ run.select t.rows :=
    (run.select_perm t.rows).mem_iff.mpr hrow
  have ⟨error, herror⟩ : ∃ error, preflight A run.oldKey (run.select t.rows) = .error error := by
    by_cases heq : run.oldKey = key
    . exact preflight_isError (hselected hother) hotherKey (heq ▸ hne)
    . exact preflight_isError (hselected hrow) hkey heq
  rw [rotate, herror]

theorem foldl_rotate_of_mixed (h : Mixed A t) (runs : List Run)
    : runs.foldl (fun t run => rotate A run t) t = t := by
  induction runs with
  | nil => rfl
  | cons run runs ih => rw [List.foldl_cons, rotate_of_mixed h run, ih]

/--
The runs that resume after a run to a key: each one takes the new key of the last one as its old key, and
a fresh one as its new key.
-/
def Resumes : MasterKey → List Run → Prop
  | _, [] => True
  | key, run :: runs => run.oldKey = key ∧ run.newKey ≠ key ∧ run.dryRun = false ∧ Resumes run.newKey runs

/--
Some runs that resume lead to a table whose rows all decrypt under one key to their plaintexts.
-/
def CanComplete (A : AesGcm) (plaintexts : Uuid → PyStr) (newKey : MasterKey) (t : KeyTable) : Prop :=
  ∃ runs, Resumes newKey runs ∧ ∃ key, ∀ row ∈ (runs.foldl (fun t run => rotate A run t) t).rows,
    decryptWith A row.ciphertext row.nonce key = .ok (plaintexts row.id)

theorem key_of_decryptWith {key other : MasterKey} {plaintext text : PyStr} {row : UserApiKey}
    (h : EncryptedUnder A key plaintext row) (hok : decryptWith A row.ciphertext row.nonce other = .ok text)
    : other = key := by
  by_contra hne
  rw [h.decryptWith_of_ne hne] at hok
  contradiction

theorem not_canComplete_of_mixed (h : Mixed A t) (plaintexts : Uuid → PyStr) (newKey : MasterKey)
    : ¬ CanComplete A plaintexts newKey t := by
  rintro ⟨runs, _, key, hrows⟩
  rw [foldl_rotate_of_mixed h] at hrows
  have ⟨row, hrow, other, hother, _, _, _, _, hne, hkey, hotherKey⟩ := h
  exact hne ((key_of_decryptWith hkey (hrows row hrow)).symm.trans
    (key_of_decryptWith hotherKey (hrows other hother)))

theorem exists_mem_of_id {t t' : KeyTable} (hids : t'.rows.map UserApiKey.id = t.rows.map UserApiKey.id)
    {row : UserApiKey} (hrow : row ∈ t.rows) : ∃ row' ∈ t'.rows, row'.id = row.id := by
  have hmem : row.id ∈ t'.rows.map UserApiKey.id := hids ▸ List.mem_map_of_mem hrow
  exact List.mem_map.mp hmem

/--
An interruption between two batches leaves a mixed table.
-/
theorem mixed_rotate (plaintexts : Uuid → PyStr) (hdry : run.dryRun = false)
    (h : ∀ row ∈ t.rows, EncryptedUnder A run.oldKey (plaintexts row.id) row) (hne : run.oldKey ≠ run.newKey)
    (hpos : 0 < run.batches * run.batchSize) (hlt : run.batches * run.batchSize < t.rows.length)
    : Mixed A (rotate A run t) := by
  have hrotated := rotate_rotated hdry h
  have hids := hrotated.ids
  have hlength : (entriesOf plaintexts run t).length = t.rows.length := length_entriesOf
  have hnodup : ((entriesOf plaintexts run t).map Prod.fst).Nodup := nodup_entriesOf
  have hmem (entry : Uuid × PyStr) (hentry : entry ∈ entriesOf plaintexts run t)
      : ∃ row ∈ (rotate A run t).rows, row.id = entry.1 := by
    have ⟨before, hbefore, hid, _⟩ := mem_entriesOf.mp hentry
    have ⟨row, hrow, hrowId⟩ := exists_mem_of_id hids hbefore
    exact ⟨row, hrow, hrowId.trans hid⟩
  generalize run.batches * run.batchSize = k at hpos hlt hrotated
  generalize entriesOf plaintexts run t = entries at hrotated hlength hnodup hmem
  -- The first entry has been written back, the last one has not.
  have ⟨first, hfirst⟩ : ∃ entry, entry ∈ entries.take k := by
    apply List.exists_mem_of_length_pos
    rw [List.length_take]
    omega
  have ⟨last, hlast⟩ : ∃ entry, entry ∈ entries.drop k := by
    apply List.exists_mem_of_length_pos
    rw [List.length_drop]
    omega
  have ⟨row, hrow, hid⟩ := hmem first (List.mem_of_mem_take hfirst)
  have ⟨other, hother, hotherId⟩ := hmem last (List.mem_of_mem_drop hlast)
  have hnew : ∃ plaintext, EncryptedUnder A run.newKey plaintext row := by
    rcases hrotated.rows row hrow with ⟨entry, _, _, hentry⟩ | ⟨hnot, _⟩
    . exact ⟨entry.2, hentry⟩
    . exact absurd (List.mem_map.mpr ⟨first, hfirst, hid.symm⟩) hnot
  have hold : EncryptedUnder A run.oldKey (plaintexts other.id) other := by
    rcases hrotated.rows other hother with ⟨entry, hentry, heq, _⟩ | ⟨_, hbefore⟩
    . rw [← List.take_append_drop k entries, List.map_append] at hnodup
      have hdisjoint := (List.nodup_append.mp hnodup).right.right
      exact absurd (heq.trans hotherId)
        (hdisjoint entry.1 (List.mem_map_of_mem hentry) last.1 (List.mem_map_of_mem hlast))
    . exact h other hbefore
  have ⟨plaintext, hplaintext⟩ := hnew
  exact ⟨row, hrow, other, hother, run.newKey, run.oldKey, plaintext, _, hne.symm, hplaintext, hold⟩

theorem canComplete_iff (plaintexts : Uuid → PyStr) (run : Run) (t : KeyTable) (hdry : run.dryRun = false)
    (h : ∀ row ∈ t.rows, EncryptedUnder A run.oldKey (plaintexts row.id) row)
    : CanComplete A plaintexts run.newKey (rotate A run t)
        ↔ run.oldKey = run.newKey ∨ run.batches * run.batchSize = 0
          ∨ t.rows.length ≤ run.batches * run.batchSize := by
  have hrotated := rotate_rotated hdry h
  constructor
  . intro hcomplete
    by_contra hcondition
    push Not at hcondition
    obtain ⟨hne, hpos, hlt⟩ := hcondition
    exact not_canComplete_of_mixed (mixed_rotate plaintexts hdry h hne (Nat.pos_of_ne_zero hpos) hlt) plaintexts
      run.newKey hcomplete
  . intro hcondition
    -- No further run is needed: all rows are under one key.
    have hplaintext (entry : Uuid × PyStr)
        (hentry : entry ∈ (entriesOf plaintexts run t).take (run.batches * run.batchSize))
        : entry.2 = plaintexts entry.1 := by
      have ⟨_, _, _, heq⟩ := mem_entriesOf.mp (List.mem_of_mem_take hentry)
      exact heq.symm
    rcases hcondition with heq | hzero | hall
    . refine ⟨[], trivial, run.newKey, fun row hrow => ?_⟩
      rcases hrotated.rows row hrow with ⟨entry, hentry, hid, hnew⟩ | ⟨_, hbefore⟩
      . rw [hnew.decryptWith, hplaintext entry hentry, hid]
      . rw [← heq]
        exact (h row hbefore).decryptWith
    . refine ⟨[], trivial, run.oldKey, fun row hrow => ?_⟩
      rw [hzero, List.take_zero] at hrotated
      rcases hrotated.rows row hrow with ⟨entry, hentry, _⟩ | ⟨_, hbefore⟩
      . exact absurd hentry List.not_mem_nil
      . exact (h row hbefore).decryptWith
    . refine ⟨[], trivial, run.newKey, fun row hrow => ?_⟩
      rcases hrotated.rows row hrow with ⟨entry, hentry, hid, hnew⟩ | ⟨hnot, hbefore⟩
      . rw [hnew.decryptWith, hplaintext entry hentry, hid]
      . have hentry : (row.id, plaintexts row.id) ∈ entriesOf plaintexts run t :=
          mem_entriesOf.mpr ⟨row, hbefore, rfl, rfl⟩
        rw [List.take_of_length_le (length_entriesOf.trans_le hall)] at hnot
        exact absurd (List.mem_map_of_mem hentry) hnot

end Resume

section Interrupted

/--
The key of 32 equal bytes.
-/
def keyOf (n : Nat) : MasterKey where
  bytes := List.replicate 32 (Utf8.byte n)
  length_eq := List.length_replicate

/--
A row of the first user, under the first key.
-/
def rowOf (n : Nat) (provider : PyStr) : UserApiKey where
  id := Uuid.ofNat n
  userId := Uuid.ofNat 1
  provider := provider
  ciphertext := AesGcm.plain.encrypt (keyOf 1) [] []
  nonce := []

def twoRows : KeyTable where
  rows := [rowOf 1 (py "anthropic"), rowOf 2 (py "openai")]
  ids := by decide
  owners := by decide

/--
A run in batches of one row.
-/
def runOf (batches : Nat) : Run where
  oldKey := keyOf 1
  newKey := keyOf 2
  dryRun := false
  batchSize := 1
  select := id
  select_perm := List.Perm.refl
  urandom _ := []
  batches := batches

theorem encryptedUnder_twoRows : ∀ row ∈ twoRows.rows, EncryptedUnder .plain (keyOf 1) [] row := by
  intro row hrow
  have hrow : row = rowOf 1 (py "anthropic") ∨ row = rowOf 2 (py "openai") := by
    simpa [twoRows] using hrow
  rcases hrow with rfl | rfl <;> exact ⟨[], rfl, rfl⟩

theorem canComplete_iff_twoRows
    : CanComplete .plain (fun _ => []) (keyOf 2) (rotate .plain (runOf 2) twoRows)
        ↔ keyOf 1 = keyOf 2 ∨ 2 * 1 = 0 ∨ twoRows.rows.length ≤ 2 * 1 :=
  canComplete_iff (fun _ => []) (runOf 2) twoRows rfl encryptedUnder_twoRows

/--
One of two rows has been rotated, and no run accepts the table any more.
-/
theorem not_canComplete
    : ¬ CanComplete .plain (fun _ => []) (keyOf 2) (rotate .plain (runOf 1) twoRows) := by
  have hmixed : Mixed .plain (rotate .plain (runOf 1) twoRows) :=
    mixed_rotate (fun _ => []) rfl encryptedUnder_twoRows (by decide) (by decide) (by decide)
  exact not_canComplete_of_mixed hmixed _ _

end Interrupted

end KeyRotation
