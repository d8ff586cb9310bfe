import Dropway.Api.Uploads

/-! The lazy seeding of an org's preset skills (handlers/skills.go,
internal/store/skillfolders.go), without their folders. -/

namespace Dropway.Api
open Lib

/-- An embedded file with its hash. -/
structure SeedFile where
  path : Text
  sha256 : Text
  contentType : Text
  content : Bytes
  hashed : sha256 ≠ []
  deriving DecidableEq

structure SkillSeed where
  slug : Text
  contentHash : Text
  files : List SeedFile
  deriving DecidableEq

def SkillSeed.blobs (seed : SkillSeed) : List BlobSize :=
  seed.files.map fun file => ⟨file.sha256, file.content.length⟩

def SkillSeed.targets (seed : SkillSeed) : List (Text × ManifestTarget) :=
  seed.files.foldl (fun files file =>
    putFile file.path ⟨file.sha256, file.contentType, file.content.length⟩ files) []

/-- A staged seed with its skill and its version. -/
structure SeededSkill where
  seed : SkillSeed
  skillId : Text
  versionId : Text
  deriving DecidableEq

def seedOwnerUserID : Text := "00000000-0000-0000-0000-000000000000".toList

inductive Seeding where
  | skillsSeeded (seeds : List SkillSeed)
  | putBlobs (seeds : List SkillSeed) (rest : List SeedFile)
  | lockOrgSkillsSeed (seeds : List SkillSeed)
  | getOrgSkillsSeeded (seeds : List SkillSeed)
  | createSeedSkill (rest : List SkillSeed) (created : List SeededSkill)
  | getSkillBySlug (seed : SkillSeed) (rest : List SkillSeed) (created : List SeededSkill)
  | meterStorageNoCap (seed : SkillSeed) (skillId : Text) (rest : List SkillSeed)
      (created : List SeededSkill) (metering : Metering)
  | upsertSkillVersion (seed : SkillSeed) (skillId : Text) (rest : List SkillSeed)
      (created : List SeededSkill)
  | putSkillManifests (created rest : List SeededSkill)
  | lockPublish (created : List SeededSkill)
  | getPublished (created : List SeededSkill)
  | setSkillCurrentVersion (rest : List SeededSkill)
  | publishCommit
  | seeded
  | failed

def Seeding.meter (seed : SkillSeed) (skillId : Text) (rest : List SkillSeed)
    (created : List SeededSkill) : Seeding :=
  .meterStorageNoCap seed skillId rest created (.start false seed.blobs)

def Seeding.next (quota : StorageQuota) (input : Input) (position : Seeding) (org : OrgStorage) :
    Option (Effect Change LockKey × Seeding) :=
  match position with
  | .skillsSeeded seeds =>
    some (.read [], if org.skillsSeeded then .seeded else .putBlobs seeds (seeds.flatMap SkillSeed.files))
  | .putBlobs seeds [] => some (.read [], .lockOrgSkillsSeed seeds)
  | .putBlobs seeds (file :: rest) =>
    if input.fails then some (.read [], .failed)
    else some (.outside (.putBlob ⟨file.sha256, file.content, some input.now⟩), .putBlobs seeds rest)
  | .lockOrgSkillsSeed seeds => some (.write .skillsSeed, .getOrgSkillsSeeded seeds)
  | .getOrgSkillsSeeded seeds =>
    if org.skillsSeeded then some (.rollback, .seeded) else some (.read [], .createSeedSkill seeds [])
  | .createSeedSkill [] created => some (.commit, .putSkillManifests created created)
  | .createSeedSkill (seed :: rest) created =>
    if (org.getSkillBySlug seed.slug).isSome then
      some (.read [.skillSlug seed.slug], .getSkillBySlug seed rest created)
    else if org.ids.contains input.id then none
    else some (.write (.skill ⟨input.id, seed.slug, seedOwnerUserID, none⟩),
      .meter seed input.id rest created)
  | .getSkillBySlug seed rest created =>
    match org.getSkillBySlug seed.slug with
    | none => some (.rollback, .failed)
    | some skill =>
      -- A skill of a real user is left alone.
      if skill.ownerUserId ≠ seedOwnerUserID then some (.read [], .createSeedSkill rest created)
      else some (.read [], .meter seed skill.id rest created)
  | .meterStorageNoCap seed skillId rest created metering =>
    match metering.next quota org with
    | some (.ok (effect, metering)) =>
      some (effect, .meterStorageNoCap seed skillId rest created metering)
    | some (.error _) => some (.rollback, .failed)
    | none => some (.read [], .upsertSkillVersion seed skillId rest created)
  | .upsertSkillVersion seed skillId rest created =>
    match org.getSkillVersionByContentHash skillId seed.contentHash with
    | some version =>
      some (.write (.skillVersion version), .createSeedSkill rest (created ++ [⟨seed, skillId, version.id⟩]))
    | none =>
      let row : SkillVersionRow := ⟨input.id, skillId, 1, seed.contentHash⟩
      if org.ids.contains input.id then none
      else if org.skillVersionConflict row then some (.rollback, .failed)
      else some (.write (.skillVersion row),
        .createSeedSkill rest (created ++ [⟨seed, skillId, input.id⟩]))
  | .putSkillManifests created [] => some (.read [], .lockPublish created)
  | .putSkillManifests created (skill :: rest) =>
    if input.fails then some (.read [], .failed)
    else some (.outside (.putManifest ⟨.skill skill.skillId skill.versionId, skill.seed.targets⟩),
      .putSkillManifests created rest)
  | .lockPublish created => some (.write .skillsSeed, .getPublished created)
  | .getPublished created =>
    if org.skillsSeeded then some (.rollback, .seeded) else some (.read [], .setSkillCurrentVersion created)
  | .setSkillCurrentVersion [] => some (.write .seeded, .publishCommit)
  | .setSkillCurrentVersion (skill :: rest) =>
    some (.write (.currentSkillVersion skill.skillId skill.versionId), .setSkillCurrentVersion rest)
  | .publishCommit => some (.commit, .seeded)
  | .seeded => none
  | .failed => none

end Dropway.Api
