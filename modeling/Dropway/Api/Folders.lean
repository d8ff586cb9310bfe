import Dropway.Api.Storage
import Dropway.Cloud.Quota
import Dropway.Lib.Outcome

/-! The folders of an org's skills (internal/store/skills.go and the tables of
migration 0008). -/

namespace Dropway.Api
open Lib
open Outcome (orFail require)

structure FolderRow where
  id : Text
  slug : Text
  title : Text
  deriving DecidableEq

structure FolderItem where
  folderId : Text
  skillId : Text
  isPreset : Bool
  addedBy : Text
  deriving DecidableEq

/-- The primary key. -/
def FolderItem.key (item : FolderItem) : Text × Text := (item.folderId, item.skillId)

/-- A folder as a listing of skills shows it. -/
structure SkillFolderRef where
  folderId : Text
  slug : Text
  title : Text
  isPreset : Bool
  deriving DecidableEq

inductive FolderError where
  | notFound
  | folderNotFound
  | exceeded (error : Cloud.ExceededError)
  | foreignKeyViolation
  deriving DecidableEq

/-- What one org has of skills and folders. The foreign keys of a membership hold. -/
structure SkillFolders where
  planTier : Option Text
  skills : Table SkillRow.id
  folders : Table FolderRow.id
  items : Table FolderItem.key
  housed : ∀ item ∈ items.rows,
    (folders.get? item.folderId).isSome = true ∧ (skills.get? item.skillId).isSome = true

namespace SkillFolders

variable (state : SkillFolders)

def getPlanTier : Text := state.planTier.getD Cloud.tierFree

def countFolderItems (folderId : Text) : Nat :=
  (state.items.filter fun item => decide (item.folderId = folderId)).length

/-- The memberships of a skill, joined with the folders. -/
def listFoldersForSkills (skillId : Text) : List SkillFolderRef :=
  (state.items.filter fun item => decide (item.skillId = skillId)).filterMap fun item =>
    (state.folders.get? item.folderId).map fun folder =>
      ⟨folder.id, folder.slug, folder.title, item.isPreset⟩

def isFolderMember (folderId skillId : Text) : Bool :=
  (state.listFoldersForSkills skillId).any fun ref => decide (ref.folderId = folderId)

def deleteSkillFolderItemsForSkill (skillId : Text) : SkillFolders where
  planTier := state.planTier
  skills := state.skills
  folders := state.folders
  items := state.items.delete fun item => decide (item.skillId = skillId)
  housed := fun item mem => state.housed item (Table.mem_delete.mp mem).1

private theorem flag_key (isPreset : Bool) (item : FolderItem) :
    FolderItem.key { item with isPreset := isPreset } = item.key := rfl

private theorem upsert_housed {row : FolderItem} (folder : (state.folders.get? row.folderId).isSome = true)
    (skill : (state.skills.get? row.skillId).isSome = true) :
    ∀ item ∈ (state.items.upsert row (fun item => { item with isPreset := row.isPreset })
        (flag_key row.isPreset)).rows,
      (state.folders.get? item.folderId).isSome = true ∧ (state.skills.get? item.skillId).isSome = true := by
  intro item mem
  rcases Table.mem_upsert mem with old | rfl | ⟨old, present, rfl⟩
  · exact state.housed item old
  · exact ⟨folder, skill⟩
  · exact state.housed old (Table.get?_eq_some.mp present).1

/-- A membership that is there already only takes the flag. -/
def upsertSkillFolderItem (row : FolderItem) : Except FolderError SkillFolders :=
  if folder : (state.folders.get? row.folderId).isSome = true then
    if skill : (state.skills.get? row.skillId).isSome = true then
      .ok ⟨state.planTier, state.skills, state.folders,
        state.items.upsert row (fun item => { item with isPreset := row.isPreset }) (flag_key row.isPreset),
        state.upsert_housed folder skill⟩
    else .error .foreignKeyViolation
  else .error .foreignKeyViolation

def addFolderItemTx (userId planTier folderId skillId : Text) (isPreset : Bool) :
    Except FolderError SkillFolders := do
  let _ ← orFail (state.folders.get? folderId) .folderNotFound
  let current := state.countFolderItems folderId
  -- A membership that exists takes no slot.
  let _ ← if state.isFolderMember folderId skillId = true then .ok ()
    else (Cloud.allowSkillPerFolder planTier current).mapError .exceeded
  state.upsertSkillFolderItem ⟨folderId, skillId, isPreset, userId⟩

/-- The map from folders to flags that the loop over the memberships fills. -/
def presetOf (refs : List SkillFolderRef) (folderId : Text) : Bool :=
  ((ofEntries (refs.map fun ref => (ref.folderId, ref.isPreset))).lookup folderId).getD false

/-- The body of the transaction. -/
def setSkillFoldersTx (userId skillId : Text) (folderIds : List Text) :
    Except FolderError ((SkillRow × List SkillFolderRef) × SkillFolders) := do
  let row ← orFail (state.skills.get? skillId) .notFound
  let planTier := state.getPlanTier
  let existing := state.listFoldersForSkills skillId
  let cleared := state.deleteSkillFolderItemsForSkill skillId
  let after ← folderIds.foldlM (fun current folderId =>
    current.addFolderItemTx userId planTier folderId skillId (presetOf existing folderId)) cleared
  return ((row, after.listFoldersForSkills skillId), after)

/-- A transaction that fails is rolled back. -/
def withTx {α : Type} (tx : Except FolderError (α × SkillFolders)) : Except FolderError α × SkillFolders :=
  match tx with
  | .ok (value, after) => (.ok value, after)
  | .error error => (.error error, state)

/-- The memberships of a skill become the given folders. -/
def setSkillFolders (userId skillId : Text) (folderIds : List Text) :
    Except FolderError (SkillRow × List SkillFolderRef) × SkillFolders :=
  state.withTx (state.setSkillFoldersTx userId skillId folderIds)

end SkillFolders
end Dropway.Api
