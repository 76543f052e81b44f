import Legalise.KeyRotation.Resume

/-!
This module contains a run of the tool with the batch size that the command line gives it, which may be any integer,
and what a run that says "Done" has done.
-/

namespace KeyRotation

section Run

variable (A : AesGcm)

/--
How a call ends: it returns, it calls `sys.exit(1)`, or an error is raised.
-/
inductive Ending where
  | returned
  | exited
  | raised
  deriving DecidableEq

/--
What a run gets from the command line, the order in which its query returns the rows, and the nonces that it draws.
-/
structure CommandLine where
  oldKey : MasterKey
  newKey : MasterKey
  dryRun : Bool
  batchSize : Int
  select : List UserApiKey → List UserApiKey
  select_perm : ∀ rows, (select rows).Perm rows
  urandom : Uuid → Bytes

/--
`range(0, total, step)`, where `none` stands for a `ValueError`.
-/
def offsets (total : Nat) (step : Int) : Option (List Nat) :=
  if step = 0 then none
  else if step < 0 then some []
  else some ((List.range ((total + step.toNat - 1) / step.toNat)).map fun i => i * step.toNat)

/--
`plaintexts[offset : offset + batch_size]`
-/
def chunkAt (batchSize : Int) (plaintexts : List (Uuid × PyStr)) (offset : Nat) : List (Uuid × PyStr) :=
  (plaintexts.drop offset).take batchSize.toNat

/--
One batch after the other. The batches before one that raises are committed.
-/
def rotateChunks (newKey : MasterKey) (urandom : Uuid → Bytes) : KeyTable → List (List (Uuid × PyStr)) → Ending × KeyTable
  | t, [] => (.returned, t)
  | t, chunk :: chunks =>
    match rotateChunk A newKey urandom t chunk with
    | none => (.raised, t)
    | some t => rotateChunks newKey urandom t chunks

/--
`_rotate`: how it ends, and the table that it leaves.
-/
def rotateTable (c : CommandLine) (t : KeyTable) : Ending × KeyTable :=
  let rows := c.select t.rows
  if rows = [] then (.returned, t)
  else
    match preflight A c.oldKey rows with
    | .error .invalidTag => (.exited, t)
    | .error .unicodeDecodeError => (.raised, t)
    | .ok plaintexts =>
      if c.dryRun then (.returned, t)
      else
        match offsets plaintexts.length c.batchSize with
        | none => (.raised, t)
        | some offsets => rotateChunks A c.newKey c.urandom t (offsets.map (chunkAt c.batchSize plaintexts))

/--
A run that is no dry run and returns has put every plaintext under the new key. A run that exits, or is a dry run, has
changed nothing.
-/
structure Truthful (c : CommandLine) (t : KeyTable) : Prop where
  ids : (rotateTable A c t).snd.rows.map UserApiKey.id = t.rows.map UserApiKey.id
  done : c.dryRun = false → (rotateTable A c t).fst = .returned →
    ∀ row ∈ t.rows, ∀ row' ∈ (rotateTable A c t).snd.rows, row'.id = row.id →
      ∃ plaintext, decryptWith A row.ciphertext row.nonce c.oldKey = .ok plaintext
        ∧ decryptWith A row'.ciphertext row'.nonce c.newKey = .ok plaintext
  unchanged : (rotateTable A c t).fst = .exited ∨ c.dryRun = true → (rotateTable A c t).snd = t

end Run

section Slices

/--
The chunks of one width make up the list.
-/
theorem flatten_chunks {α : Type} (xs : List α) (width count : Nat)
    : ((List.range count).map fun i => (xs.drop (i * width)).take width).flatten = xs.take (count * width) := by
  induction count with
  | zero => simp
  | succ count ih =>
    rw [List.range_succ, List.map_append, List.flatten_append, ih, Nat.succ_mul, List.take_add, List.map_singleton,
      List.flatten_singleton]

/--
The batches of a positive size cover all of the plaintexts, each once.
-/
theorem flatten_chunkAt {batchSize : Int} (h : 0 < batchSize) (plaintexts : List (Uuid × PyStr)) {starts : List Nat}
    (hstarts : offsets plaintexts.length batchSize = some starts)
    : (starts.map (chunkAt batchSize plaintexts)).flatten = plaintexts := by
  unfold offsets at hstarts
  rw [if_neg (by omega), if_neg (by omega), Option.some.injEq] at hstarts
  have hchunks := flatten_chunks plaintexts batchSize.toNat
    ((plaintexts.length + batchSize.toNat - 1) / batchSize.toNat)
  have hcover : plaintexts.length ≤ (plaintexts.length + batchSize.toNat - 1) / batchSize.toNat * batchSize.toNat := by
    have hpos : 0 < batchSize.toNat := by
      omega
    have hdiv := Nat.div_add_mod (plaintexts.length + batchSize.toNat - 1) batchSize.toNat
    have hmod := Nat.mod_lt (plaintexts.length + batchSize.toNat - 1) hpos
    rw [Nat.mul_comm] at hdiv
    omega
  rw [List.take_of_length_le hcover] at hchunks
  rw [← hstarts, List.map_map]
  exact hchunks

end Slices

section Done

variable {A : AesGcm} {newKey : MasterKey} {urandom : Uuid → Bytes}

theorem allEncode_of_rotateChunk {t t' : KeyTable} {chunk : List (Uuid × PyStr)}
    (h : rotateChunk A newKey urandom t chunk = some t') : AllEncode chunk := by
  induction chunk generalizing t with
  | nil => exact fun entry hentry => (List.not_mem_nil hentry).elim
  | cons entry chunk ih =>
    unfold rotateChunk at h
    rw [List.foldlM_cons] at h
    have ⟨t'', hstep, hrest⟩ := Option.bind_eq_some_iff.mp h
    have ⟨ciphertext, hencrypt, _⟩ := Option.map_eq_some_iff.mp hstep
    have ⟨data, hdata, _⟩ := Option.map_eq_some_iff.mp hencrypt
    exact List.forall_mem_cons.mpr ⟨⟨data, hdata⟩, ih hrest⟩

/--
Whatever stops the batches, the rows are those that were there.
-/
theorem ids_rotateChunks (t : KeyTable) (chunks : List (List (Uuid × PyStr)))
    : (rotateChunks A newKey urandom t chunks).snd.rows.map UserApiKey.id = t.rows.map UserApiKey.id := by
  induction chunks generalizing t with
  | nil => rfl
  | cons chunk chunks ih =>
    unfold rotateChunks
    cases hchunk : rotateChunk A newKey urandom t chunk with
    | none => rfl
    | some t' =>
      have ⟨t'', hsome, hrotated⟩ := rotateChunk_rotated A newKey urandom (allEncode_of_rotateChunk hchunk) t
      rw [hchunk, Option.some.injEq] at hsome
      exact (ih t').trans (hsome ▸ hrotated.ids)

theorem rotated_rotateChunks {t : KeyTable} {chunks : List (List (Uuid × PyStr))}
    (h : (rotateChunks A newKey urandom t chunks).fst = .returned)
    : Rotated A newKey chunks.flatten t (rotateChunks A newKey urandom t chunks).snd := by
  induction chunks generalizing t with
  | nil => exact .nil t
  | cons chunk chunks ih =>
    unfold rotateChunks at h ⊢
    cases hchunk : rotateChunk A newKey urandom t chunk with
    | none =>
      rw [hchunk] at h
      cases h
    | some t' =>
      rw [hchunk] at h
      have ⟨t'', hsome, hrotated⟩ := rotateChunk_rotated A newKey urandom (allEncode_of_rotateChunk hchunk) t
      rw [hchunk, Option.some.injEq] at hsome
      rw [List.flatten_cons]
      exact (hsome ▸ hrotated).append (ih h)

theorem mem_preflight {oldKey : MasterKey} {selected : List UserApiKey} {plaintexts : List (Uuid × PyStr)}
    (h : preflight A oldKey selected = .ok plaintexts) (entry : Uuid × PyStr)
    : entry ∈ plaintexts
        ↔ ∃ row ∈ selected, row.id = entry.1 ∧ decryptWith A row.ciphertext row.nonce oldKey = .ok entry.2 := by
  unfold preflight at h
  rw [Except.mem_iff_of_mapM_eq_ok h]
  refine exists_congr fun row => and_congr_right fun _ => ?_
  rw [Except.map_eq_ok_iff]
  constructor
  . rintro ⟨plaintext, hplaintext, rfl⟩
    exact ⟨rfl, hplaintext⟩
  . rintro ⟨hid, hplaintext⟩
    exact ⟨entry.2, hplaintext, by rw [hid]⟩

/--
The preflight passes exactly if every row decrypts.
-/
theorem preflight_isOk_iff (oldKey : MasterKey) (selected : List UserApiKey)
    : (∃ plaintexts, preflight A oldKey selected = .ok plaintexts)
        ↔ ∀ row ∈ selected, ∃ plaintext, decryptWith A row.ciphertext row.nonce oldKey = .ok plaintext := by
  unfold preflight
  rw [Except.mapM_isOk_iff]
  refine forall₂_congr fun row _ => ?_
  constructor
  . rintro ⟨_, hentry⟩
    have ⟨plaintext, hplaintext, _⟩ := (Except.map_eq_ok_iff _ _ _).mp hentry
    exact ⟨plaintext, hplaintext⟩
  . rintro ⟨plaintext, hplaintext⟩
    exact ⟨_, (Except.map_eq_ok_iff _ _ _).mpr ⟨plaintext, hplaintext, rfl⟩⟩

/--
What a run finds once its preflight is done.
-/
theorem rotateTable_of_preflight {c : CommandLine} {t : KeyTable} {plaintexts : List (Uuid × PyStr)}
    (h : preflight A c.oldKey (c.select t.rows) = .ok plaintexts) (hdry : c.dryRun = false) (hrows : t.rows ≠ [])
    : rotateTable A c t
        = match offsets plaintexts.length c.batchSize with
          | none => (.raised, t)
          | some offsets => rotateChunks A c.newKey c.urandom t (offsets.map (chunkAt c.batchSize plaintexts)) := by
  have hselected : c.select t.rows ≠ [] := by
    intro hnil
    have hperm := c.select_perm t.rows
    rw [hnil] at hperm
    exact hrows hperm.nil_eq.symm
  unfold rotateTable
  dsimp only
  rw [if_neg hselected, h]
  dsimp only
  rw [hdry]
  rfl

theorem mem_select (c : CommandLine) (t : KeyTable) {row : UserApiKey} : row ∈ c.select t.rows ↔ row ∈ t.rows :=
  (c.select_perm t.rows).mem_iff

theorem rotateTable_of_dryRun {c : CommandLine} {t : KeyTable} (h : c.dryRun = true) : (rotateTable A c t).snd = t := by
  unfold rotateTable
  dsimp only
  rw [h]
  split
  . rfl
  . cases preflight A c.oldKey (c.select t.rows) with
    | error error => cases error <;> rfl
    | ok plaintexts => rfl

/--
A run with a batch size that is not negative, past its preflight, puts every plaintext under the new key.
-/
theorem decrypts_of_returned {c : CommandLine} {t : KeyTable} {plaintexts : List (Uuid × PyStr)}
    (hpreflight : preflight A c.oldKey (c.select t.rows) = .ok plaintexts) (hdry : c.dryRun = false)
    (hrows : t.rows ≠ []) (hsize : 0 ≤ c.batchSize) (h : (rotateTable A c t).fst = .returned)
    : ∀ row ∈ t.rows, ∀ row' ∈ (rotateTable A c t).snd.rows, row'.id = row.id →
      ∃ plaintext, decryptWith A row.ciphertext row.nonce c.oldKey = .ok plaintext
        ∧ decryptWith A row'.ciphertext row'.nonce c.newKey = .ok plaintext := by
  rw [rotateTable_of_preflight hpreflight hdry hrows] at h ⊢
  cases hoffsets : offsets plaintexts.length c.batchSize with
  | none =>
    rw [hoffsets] at h
    cases h
  | some starts =>
    rw [hoffsets] at h
    have hpos : 0 < c.batchSize := by
      rcases eq_or_lt_of_le hsize with hzero | hpos
      . unfold offsets at hoffsets
        rw [if_pos hzero.symm] at hoffsets
        cases hoffsets
      . exact hpos
    have hrotated := rotated_rotateChunks h
    rw [flatten_chunkAt hpos plaintexts hoffsets] at hrotated
    intro row hrow row' hrow' hid
    have ⟨plaintext, hplaintext⟩ := (preflight_isOk_iff c.oldKey _).mp ⟨_, hpreflight⟩ row ((mem_select c t).mpr hrow)
    have hentry : (row.id, plaintext) ∈ plaintexts :=
      (mem_preflight hpreflight _).mpr ⟨row, (mem_select c t).mpr hrow, rfl, hplaintext⟩
    rcases hrotated.rows row' hrow' with ⟨entry, hmem, hentryId, hencrypted⟩ | ⟨hnotMem, _⟩
    . have ⟨source, hsource, hsourceId, hdecrypts⟩ := (mem_preflight hpreflight entry).mp hmem
      have hsame : source = row := List.inj_on_of_nodup_map t.ids ((mem_select c t).mp hsource) hrow
        (hsourceId.trans (hentryId.trans hid))
      rw [hsame] at hdecrypts
      exact ⟨entry.2, hdecrypts, hencrypted.decryptWith⟩
    . rw [hid] at hnotMem
      exact (hnotMem (List.mem_map.mpr ⟨_, hentry, rfl⟩)).elim

theorem ids_rotateTable (c : CommandLine) (t : KeyTable)
    : (rotateTable A c t).snd.rows.map UserApiKey.id = t.rows.map UserApiKey.id := by
  unfold rotateTable
  dsimp only
  split
  . rfl
  . split
    . rfl
    . rfl
    . split
      . rfl
      . split
        . rfl
        . exact ids_rotateChunks _ _

theorem fst_rotateChunks_ne_exited (t : KeyTable) (chunks : List (List (Uuid × PyStr)))
    : (rotateChunks A newKey urandom t chunks).fst ≠ .exited := by
  induction chunks generalizing t with
  | nil => simp [rotateChunks]
  | cons chunk chunks ih =>
    unfold rotateChunks
    cases rotateChunk A newKey urandom t chunk with
    | none => simp
    | some t' => exact ih t'

theorem rotateTable_of_exited {c : CommandLine} {t : KeyTable} (h : (rotateTable A c t).fst = .exited)
    : (rotateTable A c t).snd = t := by
  unfold rotateTable at h ⊢
  dsimp only at h ⊢
  by_cases hselected : c.select t.rows = []
  . rw [if_pos hselected]
  . rw [if_neg hselected] at h ⊢
    cases hpreflight : preflight A c.oldKey (c.select t.rows) with
    | error error => cases error <;> rfl
    | ok plaintexts =>
      rw [hpreflight] at h
      dsimp only at h ⊢
      by_cases hdry : c.dryRun = true
      . rw [if_pos hdry]
      . rw [if_neg hdry] at h ⊢
        cases hoffsets : offsets plaintexts.length c.batchSize with
        | none => rfl
        | some starts =>
          rw [hoffsets] at h
          exact (fst_rotateChunks_ne_exited _ _ h).elim

/--
A run that returns and is no dry run has either found no rows, or has passed its preflight.
-/
theorem preflight_of_returned {c : CommandLine} {t : KeyTable} (h : (rotateTable A c t).fst = .returned)
    (hrows : t.rows ≠ []) : ∃ plaintexts, preflight A c.oldKey (c.select t.rows) = .ok plaintexts := by
  have hselected : c.select t.rows ≠ [] := by
    intro hnil
    have hperm := c.select_perm t.rows
    rw [hnil] at hperm
    exact hrows hperm.nil_eq.symm
  unfold rotateTable at h
  dsimp only at h
  rw [if_neg hselected] at h
  cases hpreflight : preflight A c.oldKey (c.select t.rows) with
  | error error =>
    rw [hpreflight] at h
    cases error <;> cases h
  | ok plaintexts => exact ⟨plaintexts, rfl⟩

/--
The batches of a negative size are none at all.
-/
theorem rotateTable_of_neg {c : CommandLine} {t : KeyTable} {plaintexts : List (Uuid × PyStr)}
    (hpreflight : preflight A c.oldKey (c.select t.rows) = .ok plaintexts) (hdry : c.dryRun = false)
    (hrows : t.rows ≠ []) (hsize : c.batchSize < 0) : rotateTable A c t = (.returned, t) := by
  rw [rotateTable_of_preflight hpreflight hdry hrows]
  unfold offsets
  rw [if_neg (by omega), if_pos hsize]
  rfl

/--
A run is truthful if and only if its batch size is not negative, or it is a dry run, or some row does not decrypt
under the old key, or every row already decrypts to the same under both keys.
-/
theorem truthful_iff (A : AesGcm) (c : CommandLine) (t : KeyTable)
    : Truthful A c t
        ↔
      0 ≤ c.batchSize ∨ c.dryRun = true
        ∨ (∃ row ∈ t.rows, ∀ plaintext, decryptWith A row.ciphertext row.nonce c.oldKey ≠ .ok plaintext)
        ∨ ∀ row ∈ t.rows, decryptWith A row.ciphertext row.nonce c.newKey
            = decryptWith A row.ciphertext row.nonce c.oldKey := by
  constructor
  . intro h
    by_contra hnone
    simp only [not_or, not_exists, not_and, not_forall, not_not, not_le, Bool.not_eq_true] at hnone
    have ⟨hsize, hdry, hdecrypt, row, hrow, hdiffer⟩ := hnone
    have hrows : t.rows ≠ [] := List.ne_nil_of_mem hrow
    have ⟨plaintexts, hpreflight⟩ := (preflight_isOk_iff (A := A) c.oldKey (c.select t.rows)).mpr
      fun row hrow => hdecrypt row ((mem_select c t).mp hrow)
    have hdone := h.done hdry
    rw [rotateTable_of_neg hpreflight hdry hrows hsize] at hdone
    have ⟨plaintext, hold, hnew⟩ := hdone rfl row hrow row hrow rfl
    exact hdiffer (hnew.trans hold.symm)
  . intro h
    refine ⟨ids_rotateTable c t, ?_, ?_⟩
    . intro hdry hreturned row hrow row' hrow' hid
      have hrows : t.rows ≠ [] := List.ne_nil_of_mem hrow
      have ⟨plaintexts, hpreflight⟩ := preflight_of_returned hreturned hrows
      by_cases hsize : 0 ≤ c.batchSize
      . exact decrypts_of_returned hpreflight hdry hrows hsize hreturned row hrow row' hrow' hid
      . have hdecrypt := (preflight_isOk_iff c.oldKey _).mp ⟨_, hpreflight⟩ row ((mem_select c t).mpr hrow)
        rcases h with hnonneg | hdryRun | ⟨failing, hfailing, hfails⟩ | hsame
        . exact (hsize hnonneg).elim
        . rw [hdry] at hdryRun
          cases hdryRun
        . have ⟨plaintext, hplaintext⟩ :=
            (preflight_isOk_iff c.oldKey _).mp ⟨_, hpreflight⟩ failing ((mem_select c t).mpr hfailing)
          exact (hfails plaintext hplaintext).elim
        . rw [rotateTable_of_neg hpreflight hdry hrows (by omega)] at hrow'
          have hrowEq : row' = row := List.inj_on_of_nodup_map t.ids hrow' hrow hid
          have ⟨plaintext, hplaintext⟩ := hdecrypt
          exact ⟨plaintext, hplaintext, by rw [hrowEq, hsame row hrow, hplaintext]⟩
    . rintro (hexited | hdry)
      . exact rotateTable_of_exited hexited
      . exact rotateTable_of_dryRun hdry

/--
A run over two rows with the batch size -1.
-/
def negativeBatches : CommandLine where
  oldKey := keyOf 1
  newKey := keyOf 2
  dryRun := false
  batchSize := -1
  select := id
  select_perm := List.Perm.refl
  urandom _ := []

theorem not_truthful : ¬ Truthful .plain negativeBatches twoRows := by
  intro h
  have hpreflight : preflight .plain (keyOf 1) (negativeBatches.select twoRows.rows)
      = .ok (twoRows.rows.map fun row => (row.id, [])) :=
    @preflight_eq_ok .plain (keyOf 1) (fun _ => []) twoRows.rows encryptedUnder_twoRows
  have hdone := h.done rfl
  rw [rotateTable_of_neg hpreflight rfl (by decide) (by decide)] at hdone
  have hfirst : rowOf 1 (py "anthropic") ∈ twoRows.rows := List.mem_cons_self
  have ⟨plaintext, _, hnew⟩ := hdone rfl _ hfirst _ hfirst rfl
  rw [(encryptedUnder_twoRows _ hfirst).decryptWith_of_ne (by decide)] at hnew
  cases hnew

end Done

end KeyRotation
