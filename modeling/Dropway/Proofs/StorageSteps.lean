import Dropway.Api.Requests
import Dropway.Proofs.Metering

/-! What each request can do to the storage of its org in one step. -/

namespace Dropway.Api
open Lib
open Lib.Outcome (bind_ok)

variable {hash : Sha256} {quota : StorageQuota} {org : OrgStorage} {input : Input}
  {effect : Effect Change LockKey} {change : Change}

theorem Metering.next_write {metering next : Metering}
    (ran : metering.next quota org = some (.ok (.write change, next))) : change.Meters := by
  rcases Metering.next_effect ran with ⟨_, same⟩ | ⟨other, same, meters⟩
  · cases same
  · cases same
    exact meters

theorem Creating.next_write {position next : Creating}
    (ran : position.next quota input org = some (.write change, next)) :
    change.Meters ∨ ∃ p row, change = .siteVersion row ∧ next = .created p row := by
  cases position with
  | accountStorage p metering =>
    simp only [Creating.next] at ran
    split at ran
    · rename_i step
      cases ran
      exact .inl (Metering.next_write step)
    · cases ran
    · cases ran
  | createSiteVersion p versionNo =>
    simp only [Creating.next] at ran
    split at ran
    · cases ran
    · split at ran
      · cases ran
      · cases ran
        exact .inr ⟨p, _, rfl, rfl⟩
  | getSite p =>
    simp only [Creating.next] at ran
    split at ran <;> cases ran
  | getSiteVersionByContentHash p =>
    simp only [Creating.next] at ran
    split at ran <;> cases ran
  | _ => cases ran

/-- A file that is added has the size of its blob. -/
theorem Verified.add_ok {verified later : Verified} {file : ManifestFile}
    (added : verified.add hash org file = .ok later) : validSHA256 file.sha256 = true ∧ ∃ observed : Nat,
      file.size = observed ∧ later.blobs = (if (verified.size file.sha256).isSome then verified.blobs
        else verified.blobs ++ [⟨file.sha256, observed⟩]) ∧
      later.files = putFile file.path ⟨file.sha256, file.contentType, observed⟩ verified.files := by
  unfold Verified.add at added
  by_cases valid : validSHA256 file.sha256 = true
  · simp only [valid, Bool.not_true, Bool.false_eq_true, if_false] at added
    refine ⟨valid, ?_⟩
    split at added
    · obtain ⟨observed, -, added⟩ := bind_ok.mp added
      split at added
      · cases added
      · rename_i size
        cases added
        exact ⟨observed, not_not.mp size, rfl, rfl⟩
    · obtain ⟨observed, -, added⟩ := bind_ok.mp added
      split at added
      · cases added
      · rename_i size
        cases added
        exact ⟨observed, not_not.mp size, rfl, rfl⟩
  · simp only [valid, Bool.not_false, if_true] at added
    cases added

theorem Finalizing.next_create {files : List (Text × ManifestTarget)} {creating : Creating}
    {next : Finalizing}
    (ran : (Finalizing.create files creating).next hash quota input org = some (effect, next)) :
    (∃ p version, creating = .returned p version ∧ effect = .read [] ∧ next = .putManifest files version) ∨
    (∃ error, creating = .failed error ∧ effect = .read [] ∧ next = .refused (.store error)) ∨
    ∃ later, creating.next quota input org = some (effect, later) ∧ next = .create files later := by
  cases creating with
  | returned p version =>
    cases ran
    exact .inl ⟨p, version, rfl, rfl, rfl⟩
  | failed error =>
    cases ran
    exact .inr (.inl ⟨error, rfl, rfl, rfl⟩)
  | _ =>
    refine .inr (.inr ?_)
    simp only [Finalizing.next, Option.map_eq_some_iff, Prod.mk.injEq] at ran
    obtain ⟨⟨made, later⟩, stepped, rfl, rfl⟩ := ran
    exact ⟨later, stepped, rfl⟩

theorem Finalizing.next_write {position next : Finalizing}
    (ran : position.next hash quota input org = some (.write change, next)) :
    change.Meters ∨ (∃ files p row, change = .siteVersion row ∧ next = .create files (.created p row)) ∨
      ∃ versionId expiresAt, change = .previewExpiry versionId expiresAt := by
  cases position with
  | create files creating =>
    rcases Finalizing.next_create ran with ⟨_, _, _, same, _⟩ | ⟨_, _, same, _⟩ | ⟨later, step, rfl⟩
    · cases same
    · cases same
    · rcases Creating.next_write step with meters | ⟨p, row, made, rfl⟩
      · exact .inl meters
      · exact .inr (.inl ⟨files, p, row, made, rfl⟩)
  | createPreview version =>
    simp only [Finalizing.next] at ran
    split at ran
    · cases ran
    · cases ran
      exact .inr (.inr ⟨_, _, rfl⟩)
  | verifyManifest r =>
    simp only [Finalizing.next] at ran
    split at ran
    · cases ran
    · split at ran
      · cases ran
      · split at ran <;> cases ran
  | verifyFiles r rest verified =>
    cases rest with
    | nil => cases ran
    | cons file rest =>
      simp only [Finalizing.next] at ran
      split at ran
      · cases ran
      · split at ran <;> cases ran
  | putManifest files version =>
    simp only [Finalizing.next] at ran
    split at ran <;> cases ran
  | _ => cases ran

theorem Publishing.next_write {position next : Publishing}
    (ran : position.next input org = some (.write change, next)) :
    (∃ siteId versionId, change = .currentVersion siteId versionId ∧
      position = .setCurrentVersion siteId versionId) ∨
    ∃ versionId expiresAt, change = .previewExpiry versionId expiresAt := by
  cases position with
  | getSite siteId versionId =>
    simp only [Publishing.next] at ran
    split at ran <;> cases ran
  | getSiteVersion siteId versionId =>
    simp only [Publishing.next] at ran
    split at ran
    · cases ran
    · split at ran <;> cases ran
  | getHostRoute siteId versionId =>
    simp only [Publishing.next] at ran
    split at ran <;> cases ran
  | setCurrentVersion siteId versionId =>
    cases ran
    exact .inl ⟨siteId, versionId, rfl, rfl⟩
  | setVersionPreviewExpiry siteId versionId =>
    cases ran
    exact .inr ⟨_, _, rfl⟩
  | _ => cases ran

/-- The changes that seeding makes besides metering. -/
inductive Change.Seeds : Change → Prop
  | skillsSeed : Seeds .skillsSeed
  | skill (row : SkillRow) : Seeds (.skill row)
  | skillVersion (row : SkillVersionRow) : Seeds (.skillVersion row)
  | currentSkillVersion (skillId versionId : Text) : Seeds (.currentSkillVersion skillId versionId)
  | seeded : Seeds .seeded

theorem Seeding.next_write {position next : Seeding}
    (ran : position.next quota input org = some (.write change, next)) : change.Meters ∨ change.Seeds := by
  cases position with
  | skillsSeeded seeds => cases ran
  | putBlobs seeds rest =>
    cases rest with
    | nil => cases ran
    | cons file rest =>
      simp only [Seeding.next] at ran
      split at ran <;> cases ran
  | lockOrgSkillsSeed seeds =>
    cases ran
    exact .inr .skillsSeed
  | getOrgSkillsSeeded seeds =>
    simp only [Seeding.next] at ran
    split at ran <;> cases ran
  | createSeedSkill rest created =>
    cases rest with
    | nil => cases ran
    | cons seed rest =>
      simp only [Seeding.next] at ran
      split at ran
      · cases ran
      · split at ran
        · cases ran
        · cases ran
          exact .inr (.skill _)
  | getSkillBySlug seed rest created =>
    simp only [Seeding.next] at ran
    split at ran
    · cases ran
    · split at ran <;> cases ran
  | meterStorageNoCap seed skillId rest created metering =>
    simp only [Seeding.next] at ran
    split at ran
    · rename_i step
      cases ran
      exact .inl (Metering.next_write step)
    · cases ran
    · cases ran
  | upsertSkillVersion seed skillId rest created =>
    simp only [Seeding.next] at ran
    split at ran
    · cases ran
      exact .inr (.skillVersion _)
    · split at ran
      · cases ran
      · split at ran
        · cases ran
        · cases ran
          exact .inr (.skillVersion _)
  | putSkillManifests created rest =>
    cases rest with
    | nil => cases ran
    | cons skill rest =>
      simp only [Seeding.next] at ran
      split at ran <;> cases ran
  | lockPublish created =>
    cases ran
    exact .inr .skillsSeed
  | getPublished created =>
    simp only [Seeding.next] at ran
    split at ran <;> cases ran
  | setSkillCurrentVersion rest =>
    cases rest with
    | nil =>
      cases ran
      exact .inr .seeded
    | cons skill rest =>
      cases ran
      exact .inr (.currentSkillVersion _ _)
  | _ => cases ran

theorem Collecting.next_write {position next : Collecting}
    (ran : position.next input org = some (.write change, next)) :
    (∃ deleted freed, change = .subStorage freed ∧ position = .deleteOrgBlobs deleted [] freed ∧
      next = .releaseCommit deleted) ∨
    ∃ deleted sha rest freed row, change = .dropOrgBlob sha ∧ org.orgBlobs.get? sha = some row ∧
      position = .deleteOrgBlobs deleted (sha :: rest) freed ∧
      next = .deleteOrgBlobs deleted rest (freed + row.sizeBytes) := by
  cases position with
  | readManifests policy now keys referenced =>
    cases keys with
    | nil =>
      simp only [Collecting.next] at ran
      split at ran <;> cases ran
    | cons key keys =>
      simp only [Collecting.next] at ran
      split at ran <;> cases ran
  | deleteBlobs deleted rest =>
    cases rest with
    | nil => cases ran
    | cons sha rest =>
      simp only [Collecting.next] at ran
      split at ran <;> cases ran
  | deleteOrgBlobs deleted rest freed =>
    cases rest with
    | nil =>
      simp only [Collecting.next] at ran
      split at ran
      · cases ran
      · cases ran
        exact .inl ⟨deleted, freed, rfl, rfl, rfl⟩
    | cons sha rest =>
      simp only [Collecting.next] at ran
      split at ran
      · cases ran
      · rename_i row found
        cases ran
        exact .inr ⟨deleted, sha, rest, freed, row, rfl, found, rfl, rfl⟩
  | _ => cases ran

/-! The calls to the object store. -/

theorem Creating.next_outside {position next : Creating} :
    position.next quota input org ≠ some (.outside change, next) := by
  intro ran
  cases position with
  | accountStorage p metering =>
    simp only [Creating.next] at ran
    split at ran
    · rename_i step
      cases ran
      rcases Metering.next_effect step with ⟨_, same⟩ | ⟨_, same, _⟩ <;> cases same
    · cases ran
    · cases ran
  | createSiteVersion p versionNo =>
    simp only [Creating.next] at ran
    split at ran
    · cases ran
    · split at ran <;> cases ran
  | getSite p =>
    simp only [Creating.next] at ran
    split at ran <;> cases ran
  | getSiteVersionByContentHash p =>
    simp only [Creating.next] at ran
    split at ran <;> cases ran
  | _ => cases ran

theorem Finalizing.next_outside {position next : Finalizing}
    (ran : position.next hash quota input org = some (.outside change, next)) :
    ∃ files version, position = .putManifest files version ∧
      change = .putManifest ⟨.site version.siteId version.id, files⟩ ∧ next = .createPreview version := by
  cases position with
  | create files creating =>
    rcases Finalizing.next_create ran with ⟨_, _, _, same, _⟩ | ⟨_, _, same, _⟩ | ⟨later, step, rfl⟩
    · cases same
    · cases same
    · exact absurd step Creating.next_outside
  | putManifest files version =>
    simp only [Finalizing.next] at ran
    split at ran
    · cases ran
    · cases ran
      exact ⟨files, version, rfl, rfl, rfl⟩
  | createPreview version =>
    simp only [Finalizing.next] at ran
    split at ran <;> cases ran
  | verifyManifest r =>
    simp only [Finalizing.next] at ran
    split at ran
    · cases ran
    · split at ran
      · cases ran
      · split at ran <;> cases ran
  | verifyFiles r rest verified =>
    cases rest with
    | nil => cases ran
    | cons file rest =>
      simp only [Finalizing.next] at ran
      split at ran
      · cases ran
      · split at ran <;> cases ran
  | _ => cases ran

theorem Publishing.next_outside {position next : Publishing} :
    position.next input org ≠ some (.outside change, next) := by
  intro ran
  cases position with
  | getSite siteId versionId =>
    simp only [Publishing.next] at ran
    split at ran <;> cases ran
  | getSiteVersion siteId versionId =>
    simp only [Publishing.next] at ran
    split at ran
    · cases ran
    · split at ran <;> cases ran
  | getHostRoute siteId versionId =>
    simp only [Publishing.next] at ran
    split at ran <;> cases ran
  | _ => cases ran

theorem Seeding.next_outside {position next : Seeding}
    (ran : position.next quota input org = some (.outside change, next)) :
    (∃ seeds file rest, position = .putBlobs seeds (file :: rest) ∧
      change = .putBlob ⟨file.sha256, file.content, some input.now⟩ ∧ next = .putBlobs seeds rest) ∨
    ∃ created skill rest, position = .putSkillManifests created (skill :: rest) ∧
      change = .putManifest ⟨.skill skill.skillId skill.versionId, skill.seed.targets⟩ ∧
      next = .putSkillManifests created rest := by
  cases position with
  | putBlobs seeds rest =>
    cases rest with
    | nil => cases ran
    | cons file rest =>
      simp only [Seeding.next] at ran
      split at ran
      · cases ran
      · cases ran
        exact .inl ⟨seeds, file, rest, rfl, rfl, rfl⟩
  | putSkillManifests created rest =>
    cases rest with
    | nil => cases ran
    | cons skill rest =>
      simp only [Seeding.next] at ran
      split at ran
      · cases ran
      · cases ran
        exact .inr ⟨created, skill, rest, rfl, rfl, rfl⟩
  | getOrgSkillsSeeded seeds =>
    simp only [Seeding.next] at ran
    split at ran <;> cases ran
  | createSeedSkill rest created =>
    cases rest with
    | nil => cases ran
    | cons seed rest =>
      simp only [Seeding.next] at ran
      split at ran
      · cases ran
      · split at ran <;> cases ran
  | getSkillBySlug seed rest created =>
    simp only [Seeding.next] at ran
    split at ran
    · cases ran
    · split at ran <;> cases ran
  | meterStorageNoCap seed skillId rest created metering =>
    simp only [Seeding.next] at ran
    split at ran
    · rename_i step
      cases ran
      rcases Metering.next_effect step with ⟨_, same⟩ | ⟨_, same, _⟩ <;> cases same
    · cases ran
    · cases ran
  | upsertSkillVersion seed skillId rest created =>
    simp only [Seeding.next] at ran
    split at ran
    · cases ran
    · split at ran
      · cases ran
      · split at ran <;> cases ran
  | getPublished created =>
    simp only [Seeding.next] at ran
    split at ran <;> cases ran
  | setSkillCurrentVersion rest => cases rest <;> cases ran
  | _ => cases ran

theorem Collecting.next_outside {position next : Collecting}
    (ran : position.next input org = some (.outside change, next)) :
    ∃ deleted sha rest, position = .deleteBlobs deleted (sha :: rest) ∧ change = .deleteBlob sha ∧
      next = .deleteBlobs (deleted ++ [sha]) rest := by
  cases position with
  | readManifests policy now keys referenced =>
    cases keys with
    | nil =>
      simp only [Collecting.next] at ran
      split at ran <;> cases ran
    | cons key keys =>
      simp only [Collecting.next] at ran
      split at ran <;> cases ran
  | deleteBlobs deleted rest =>
    cases rest with
    | nil => cases ran
    | cons sha rest =>
      simp only [Collecting.next] at ran
      split at ran
      · cases ran
      · cases ran
        exact ⟨deleted, sha, rest, rfl, rfl, rfl⟩
  | deleteOrgBlobs deleted rest freed =>
    cases rest with
    | nil =>
      simp only [Collecting.next] at ran
      split at ran <;> cases ran
    | cons sha rest =>
      simp only [Collecting.next] at ran
      split at ran <;> cases ran
  | _ => cases ran

theorem StorageRequest.next_finalize {position : Finalizing} {next : StorageRequest}
    (ran : (StorageRequest.finalize position).next hash quota input org = some (effect, next)) :
    ∃ later, position.next hash quota input org = some (effect, later) ∧ next = .finalize later := by
  simp only [StorageRequest.next, Option.map_eq_some_iff, Prod.mk.injEq] at ran
  obtain ⟨⟨made, later⟩, step, rfl, rfl⟩ := ran
  exact ⟨later, step, rfl⟩

theorem StorageRequest.next_publish {position : Publishing} {next : StorageRequest}
    (ran : (StorageRequest.publish position).next hash quota input org = some (effect, next)) :
    ∃ later, position.next input org = some (effect, later) ∧ next = .publish later := by
  simp only [StorageRequest.next, Option.map_eq_some_iff, Prod.mk.injEq] at ran
  obtain ⟨⟨made, later⟩, step, rfl, rfl⟩ := ran
  exact ⟨later, step, rfl⟩

theorem StorageRequest.next_seed {position : Seeding} {next : StorageRequest}
    (ran : (StorageRequest.seed position).next hash quota input org = some (effect, next)) :
    ∃ later, position.next quota input org = some (effect, later) ∧ next = .seed later := by
  simp only [StorageRequest.next, Option.map_eq_some_iff, Prod.mk.injEq] at ran
  obtain ⟨⟨made, later⟩, step, rfl, rfl⟩ := ran
  exact ⟨later, step, rfl⟩

theorem StorageRequest.next_collect {position : Collecting} {next : StorageRequest}
    (ran : (StorageRequest.collect position).next hash quota input org = some (effect, next)) :
    ∃ later, position.next input org = some (effect, later) ∧ next = .collect later := by
  simp only [StorageRequest.next, Option.map_eq_some_iff, Prod.mk.injEq] at ran
  obtain ⟨⟨made, later⟩, step, rfl, rfl⟩ := ran
  exact ⟨later, step, rfl⟩

theorem StorageRequest.next_siteVersion {request next : StorageRequest} {row : VersionRow}
    (ran : request.next hash quota input org = some (.write (.siteVersion row), next)) :
    ∃ files p, next = .finalize (.create files (.created p row)) := by
  cases request with
  | finalize position =>
    obtain ⟨later, step, rfl⟩ := next_finalize ran
    rcases Finalizing.next_write step with meters | ⟨files, p, made, same, rfl⟩ | ⟨_, _, same⟩
    · cases meters
    · cases same
      exact ⟨files, p, rfl⟩
    · cases same
  | publish position =>
    obtain ⟨later, step, rfl⟩ := next_publish ran
    rcases Publishing.next_write step with ⟨_, _, same, _⟩ | ⟨_, _, same⟩ <;> cases same
  | seed position =>
    obtain ⟨later, step, rfl⟩ := next_seed ran
    rcases Seeding.next_write step with meters | seeds
    · cases meters
    · cases seeds
  | collect position =>
    obtain ⟨later, step, rfl⟩ := next_collect ran
    rcases Collecting.next_write step with ⟨_, _, same, _⟩ | ⟨_, _, _, _, _, same, _⟩ <;> cases same
  | upload sha bytes => cases ran
  | uploaded => cases ran

theorem StorageRequest.next_currentVersion {request next : StorageRequest} {siteId versionId : Text}
    (ran : request.next hash quota input org = some (.write (.currentVersion siteId versionId), next)) :
    request = .publish (.setCurrentVersion siteId versionId) := by
  cases request with
  | finalize position =>
    obtain ⟨later, step, rfl⟩ := next_finalize ran
    rcases Finalizing.next_write step with meters | ⟨_, _, _, same, _⟩ | ⟨_, _, same⟩
    · cases meters
    · cases same
    · cases same
  | publish position =>
    obtain ⟨later, step, rfl⟩ := next_publish ran
    rcases Publishing.next_write step with ⟨_, _, same, rfl⟩ | ⟨_, _, same⟩
    · cases same
      rfl
    · cases same
  | seed position =>
    obtain ⟨later, step, rfl⟩ := next_seed ran
    rcases Seeding.next_write step with meters | seeds
    · cases meters
    · cases seeds
  | collect position =>
    obtain ⟨later, step, rfl⟩ := next_collect ran
    rcases Collecting.next_write step with ⟨_, _, same, _⟩ | ⟨_, _, _, _, _, same, _⟩ <;> cases same
  | upload sha bytes => cases ran
  | uploaded => cases ran

/-- The changes of the object store. -/
inductive Change.Stores : Change → Prop
  | putBlob (blob : Blob) : Stores (.putBlob blob)
  | deleteBlob (sha : Text) : Stores (.deleteBlob sha)
  | putManifest (manifest : Manifest) : Stores (.putManifest manifest)

/-- No statement touches the object store. -/
theorem StorageRequest.next_write {request next : StorageRequest}
    (ran : request.next hash quota input org = some (.write change, next)) : ¬ change.Stores := by
  intro stores
  cases request with
  | finalize position =>
    obtain ⟨later, step, rfl⟩ := next_finalize ran
    rcases Finalizing.next_write step with meters | ⟨_, _, _, rfl, _⟩ | ⟨_, _, rfl⟩
    · cases meters <;> cases stores
    · cases stores
    · cases stores
  | publish position =>
    obtain ⟨later, step, rfl⟩ := next_publish ran
    rcases Publishing.next_write step with ⟨_, _, rfl, _⟩ | ⟨_, _, rfl⟩ <;> cases stores
  | seed position =>
    obtain ⟨later, step, rfl⟩ := next_seed ran
    rcases Seeding.next_write step with meters | seeds
    · cases meters <;> cases stores
    · cases seeds <;> cases stores
  | collect position =>
    obtain ⟨later, step, rfl⟩ := next_collect ran
    rcases Collecting.next_write step with ⟨_, _, rfl, _⟩ | ⟨_, _, _, _, _, rfl, _⟩ <;> cases stores
  | upload sha bytes => cases ran
  | uploaded => cases ran

theorem StorageRequest.next_outside {request next : StorageRequest}
    (ran : request.next hash quota input org = some (.outside change, next)) : change.Stores := by
  cases request with
  | finalize position =>
    obtain ⟨later, step, rfl⟩ := next_finalize ran
    obtain ⟨_, _, _, rfl, _⟩ := Finalizing.next_outside step
    exact .putManifest _
  | publish position =>
    obtain ⟨later, step, rfl⟩ := next_publish ran
    exact absurd step Publishing.next_outside
  | seed position =>
    obtain ⟨later, step, rfl⟩ := next_seed ran
    rcases Seeding.next_outside step with ⟨_, _, _, _, rfl, _⟩ | ⟨_, _, _, _, rfl, _⟩
    · exact .putBlob _
    · exact .putManifest _
  | collect position =>
    obtain ⟨later, step, rfl⟩ := next_collect ran
    obtain ⟨_, _, _, _, rfl, _⟩ := Collecting.next_outside step
    exact .deleteBlob _
  | upload sha bytes =>
    cases ran
    exact .putBlob _
  | uploaded => cases ran

end Dropway.Api
