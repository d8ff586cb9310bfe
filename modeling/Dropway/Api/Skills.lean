import Dropway.Api.Storage
import Dropway.Api.Store

/-! The skills of one org: uploads, publishes and downloads
(internal/store/skills.go, handlers/skill_uploads.go), and the two checks for
updates (cli/internal/cmd/skills.go, services/mcp/internal/tools/tools.go). -/

namespace Dropway.Api
open Lib
open Outcome (orFail require)

structure SkillLibrary where
  skills : Table SkillRow.id
  versions : Table SkillVersionRow.id

namespace SkillLibrary

def empty : SkillLibrary := ⟨.empty, .empty⟩

variable (library : SkillLibrary)

def versionNos (skillId : Text) : List Nat :=
  (library.versions.filter fun row => row.skillId = skillId).map SkillVersionRow.versionNo

def nextSkillVersionNo (skillId : Text) : Nat := (library.versionNos skillId).foldr max 0 + 1

/-- The number of the version that is live, zero without one. -/
def currentVersionNo (skill : SkillRow) : Nat :=
  ((skill.currentVersionId.bind library.versions.get?).map SkillVersionRow.versionNo).getD 0

def getSkillVersionByContentHash (skillId contentHash : Text) : Option SkillVersionRow :=
  library.versions.rows.find? fun row => row.skillId = skillId ∧ row.contentHash = contentHash

def createSkill (id slug ownerUserId : Text) : Except StoreError SkillLibrary :=
  match free : library.skills.get? id with
  | some _ => .error (.db .uniqueViolation)
  | none =>
    if library.skills.rows.any fun skill => decide (skill.slug = slug) then .error .slugTaken
    else .ok { library with skills := library.skills.insert ⟨id, slug, ownerUserId, none⟩ free }

/-- The version of an upload. Content that the skill has had before keeps its version. -/
def createSkillVersion (id skillId contentHash : Text) (accountStorage : Except StoreError Unit) :
    Except StoreError (SkillVersionRow × SkillLibrary) := do
  let _ ← orFail (library.skills.get? skillId) .notFound
  accountStorage
  match library.getSkillVersionByContentHash skillId contentHash with
  | some existing => return (existing, library)
  | none =>
    let row : SkillVersionRow := ⟨id, skillId, library.nextSkillVersionNo skillId, contentHash⟩
    match free : library.versions.get? id with
    | some _ => .error (.db .uniqueViolation)
    | none => return (row, { library with versions := library.versions.insert row free })

private theorem live_id (versionId : Text) (skill : SkillRow) :
    ({ skill with currentVersionId := some versionId } : SkillRow).id = skill.id := rfl

def publishSkillVersion (skillId versionId : Text) : Except StoreError SkillLibrary := do
  let _ ← orFail (library.skills.get? skillId) .notFound
  let version ← orFail (library.versions.get? versionId) .notFound
  require (version.skillId = skillId) .notFound
  return { library with
    skills := library.skills.update (fun skill => skill.id = skillId)
      (fun skill => { skill with currentVersionId := some versionId }) (live_id versionId) }

/-- An upload is made live once its manifest is stored. -/
def finalizeSkillUpload (id skillId contentHash : Text) (accountStorage : Except StoreError Unit) :
    Except StoreError SkillLibrary := do
  let (version, library) ← library.createSkillVersion id skillId contentHash accountStorage
  library.publishSkillVersion skillId version.id

end SkillLibrary

/-! ### The clients -/

/-- What the API tells of a skill. -/
structure SkillInfo where
  slug : Text
  version : Nat
  deriving DecidableEq

/-- What a pull leaves beside the files. -/
structure SkillRecord where
  slug : Text
  skillId : Text
  version : Nat
  deriving DecidableEq

/-- A skill without a live version is listed to its owner only. -/
def SkillLibrary.listSkills (library : SkillLibrary) (caller : Text) : List SkillInfo :=
  (library.skills.filter fun skill => skill.currentVersionId.isSome || decide (skill.ownerUserId = caller)).map
    fun skill => ⟨skill.slug, library.currentVersionNo skill⟩

/-- The live version and the record of its download. -/
def SkillLibrary.download (library : SkillLibrary) (skillId : Text) : Option (SkillRecord × Text) := do
  let skill ← library.skills.get? skillId
  let versionId ← skill.currentVersionId
  return (⟨skill.slug, skill.id, library.currentVersionNo skill⟩, versionId)

structure SkillUpdate where
  slug : Text
  held : Nat
  want : Nat
  deriving DecidableEq

def SkillUpdate.SlugLe (one two : SkillUpdate) : Prop := one.slug ≤ two.slug

instance : DecidableRel SkillUpdate.SlugLe := fun one two => inferInstanceAs (Decidable (one.slug ≤ two.slug))

/-- The map from slugs that both checks read the list into. -/
def latest (skills : List SkillInfo) (slug : Text) : Option SkillInfo :=
  skills.reverse.find? fun skill => skill.slug = slug

def planSkillUpdates (records : List SkillRecord) (skills : List SkillInfo) : List SkillUpdate :=
  (records.filterMap fun record =>
    match latest skills record.slug with
    | none => none
    | some skill =>
      if skill.version = 0 then none
      else if record.version < skill.version then some ⟨record.slug, record.version, skill.version⟩
      else none).insertionSort SkillUpdate.SlugLe

structure InstalledSkill where
  name : Text
  version : Nat
  deriving DecidableEq

structure SkillUpdateInfo where
  name : Text
  installedVersion : Nat
  latestVersion : Nat
  outdated : Bool
  deriving DecidableEq

def checkSkillUpdates (installed : List InstalledSkill) (skills : List SkillInfo) : List SkillUpdateInfo :=
  installed.map fun held =>
    let want := ((latest skills held.name).map SkillInfo.version).getD 0
    { name := held.name, installedVersion := held.version, latestVersion := want
      outdated := decide (held.version < want) }

end Dropway.Api
