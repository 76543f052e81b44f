import Legalise.Matters.Routes

/-!
This module contains what a request to a matter leaves alone.
-/

namespace Matters

section Matters

variable {E : Env} {db : Database} {userId : Uuid} {slug : PyStr}

def MatterUpdate.KeepsPosture (update : MatterUpdate) : Prop :=
  ∀ m, (update.apply m).privilegePosture = m.privilegePosture

/--
What a request makes of the table of the matters: nothing, a change of one row that keeps its posture, or a change of
its posture.
-/
inductive MattersAfter (db : Database) (userId : Uuid) (slug : PyStr) : Request → Database → Prop where
  | same {r after} (h : after.matters = db.matters)
    : MattersAfter db userId slug r after
  | updated {r after m update} (hm : db.matter? userId slug = some m) (hkeeps : MatterUpdate.KeepsPosture update)
      (h : after.matters = (db.update m.id update).matters)
    : MattersAfter db userId slug r after
  | lifted {posture after m} (hm : db.matter? userId slug = some m) (hvalue : posture ∈ privilegeValues)
      (hother : m.privilegePosture ≠ posture) (h : after.matters = (db.update m.id (setPosture posture)).matters)
    : MattersAfter db userId slug (.setPrivilegePosture posture) after

theorem matters_storeUpload (m : Matter) (u : Upload) : (storeUpload E db userId m u).fst.matters = db.matters := by
  unfold storeUpload
  dsimp only
  split
  . rfl
  . split <;> rfl

theorem mattersAfter_handle (r : Request) : MattersAfter db userId slug r (handle E db userId slug r).fst := by
  cases r with
  | uploadDocument u =>
    unfold handle uploadDocument
    dsimp only
    split
    . exact .same rfl
    . exact .same (matters_storeUpload _ u)
  | reindexDocuments =>
    unfold handle reindexDocuments
    dsimp only
    split <;> exact .same rfl
  | setPrivilegePosture posture =>
    unfold handle setPrivilegePosture
    dsimp only
    split
    . exact .same rfl
    . next hvalue =>
      split
      . exact .same rfl
      . next m hm =>
        split
        . exact .same rfl
        . next hother => exact .lifted hm (not_not.mp hvalue) hother rfl
  | updateMatter modelId =>
    unfold handle updateMatter
    dsimp only
    split
    . exact .same rfl
    . split
      . exact .same rfl
      . next m hm =>
        split
        . exact .same rfl
        . split
          . exact .same rfl
          . exact .updated hm (fun _ => rfl) rfl
  | closeMatter now =>
    unfold handle closeMatter
    dsimp only
    split
    . exact .same rfl
    . next m hm =>
      split
      . exact .same rfl
      . split
        . exact .same rfl
        . exact .updated hm (fun _ => rfl) rfl
  | deleteMatter storageDeleted =>
    unfold handle deleteMatter
    dsimp only
    split
    . exact .same rfl
    . next m hm =>
      split
      . exact .same rfl
      . split
        . exact .same rfl
        . exact .same rfl
        . exact .updated hm (fun _ => rfl) rfl

theorem exists_mem_update (id : Uuid) {update : MatterUpdate} (hkeeps : update.KeepsPosture) {m : Matter}
    (hm : m ∈ db.matters)
    : ∃ after ∈ (db.update id update).matters, after.id = m.id ∧ after.key = m.key
        ∧ after.privilegePosture = m.privilegePosture := by
  refine ⟨if m.id = id then update.apply m else m, List.mem_map_of_mem hm, ?_⟩
  split
  . exact ⟨update.id m, update.key m, hkeeps m⟩
  . exact ⟨rfl, rfl, rfl⟩

/--
Unless a request sets another posture, the posture of every matter stays.
-/
theorem exists_mem_handle {r : Request} {m : Matter} (hm : m ∈ db.matters)
    (hkeeps : ∀ posture, r = .setPrivilegePosture posture → posture ∈ privilegeValues
      → ∀ found, db.matter? userId slug = some found → found.privilegePosture = posture)
    : ∃ after ∈ (handle E db userId slug r).fst.matters, after.id = m.id ∧ after.key = m.key
        ∧ after.privilegePosture = m.privilegePosture := by
  cases @mattersAfter_handle E db userId slug r with
  | same h => exact ⟨m, h ▸ hm, rfl, rfl, rfl⟩
  | updated _ hupdate h =>
    rw [h]
    exact exists_mem_update _ hupdate hm
  | lifted hfound hvalue hother => exact absurd (hkeeps _ rfl hvalue _ hfound) hother

end Matters

section Documents

variable {E : Env} {db : Database} {userId : Uuid} {slug : PyStr}

/--
The columns that say which documents there are.
-/
def documentKeys (db : Database) : List (Uuid × Uuid) :=
  db.documents.map fun d => (d.id, d.matterId)

/--
An upload that gets past its checks and is stored.
-/
def Accepts (E : Env) (db : Database) (userId : Uuid) (slug : PyStr) (u : Upload) : Prop :=
  (∃ m, checkUpload E db userId slug u = .ok m) ∧ u.storageError = none

/--
Only an upload adds a document, and no request takes one away.
-/
theorem documentKeys_handle {r : Request} (hrefused : ∀ u, r = .uploadDocument u → ¬ Accepts E db userId slug u)
    : documentKeys (handle E db userId slug r).fst = documentKeys db := by
  cases r with
  | uploadDocument u =>
    unfold handle uploadDocument
    dsimp only
    split
    . rfl
    . next m hcheck =>
      unfold storeUpload
      dsimp only
      split
      . rfl
      . next hstored => exact absurd ⟨⟨m, hcheck⟩, hstored⟩ (hrefused u rfl)
  | reindexDocuments =>
    unfold handle reindexDocuments
    dsimp only
    split
    . rfl
    . unfold documentKeys
      dsimp only
      rw [List.map_map]
      apply List.map_congr_left
      intro d _
      rw [Function.comp_apply]
      split <;> rfl
  | setPrivilegePosture posture =>
    unfold handle setPrivilegePosture
    dsimp only
    split
    . rfl
    . split
      . rfl
      . split <;> rfl
  | updateMatter modelId =>
    unfold handle updateMatter
    dsimp only
    split
    . rfl
    . split
      . rfl
      . split
        . rfl
        . split <;> rfl
  | closeMatter now =>
    unfold handle closeMatter
    dsimp only
    split
    . rfl
    . split
      . rfl
      . split <;> rfl
  | deleteMatter storageDeleted =>
    unfold handle deleteMatter
    dsimp only
    split
    . rfl
    . split
      . rfl
      . split <;> rfl

end Documents

end Matters
