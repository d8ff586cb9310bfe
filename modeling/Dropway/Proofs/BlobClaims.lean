import Dropway.Proofs.ReadyManifests

/-! The blobs that a deploy or a seeding counts on: it finds each in the ledger,
or puts it there, before its version is committed and its manifest is written. -/

namespace Dropway.Api
open Lib
open Lib.Outcome (bind_ok)

variable {hash : Sha256} {quota : StorageQuota} {org view : OrgStorage} {input : Input}
  {effect : Effect Change LockKey} {request next : StorageRequest} {sha : Text}

def SkillVersionRow.manifestKey (version : SkillVersionRow) : ManifestKey :=
  .skill version.skillId version.id

def Metered (org : OrgStorage) (sha : Text) : Prop := (org.orgBlobs.get? sha).isSome

def Present (org : OrgStorage) (sha : Text) : Prop := (org.blobs.get? sha).isSome

/-- A site or a skill has a version row with its manifest under the key. -/
def Recorded (org : OrgStorage) (key : ManifestKey) : Prop :=
  Listed org key ∨ ∃ version ∈ org.skillVersions.rows, version.manifestKey = key

/-- The blobs that metering has still to look at. -/
def Metering.rest : Metering → List Text
  | .lockOrgStorageQuota _ blobs => blobs.map BlobSize.sha
  | .getOrgStorage blobs => blobs.map BlobSize.sha
  | .insertOrgBlob _ _ _ rest => rest.map BlobSize.sha
  | _ => []

def Creating.Claims (files : List (Text × ManifestTarget)) (sha : Text) : Creating → Prop
  | .accountStorage _ metering => sha ∈ files.map (·.2.sha256) ∧ sha ∉ metering.rest
  | .nextVersionNo _ | .createSiteVersion _ _ | .created _ _ => sha ∈ files.map (·.2.sha256)
  | _ => False

def SkillSeed.shas (seed : SkillSeed) : List Text := seed.files.map SeedFile.sha256

def Seeding.Claims (sha : Text) : Seeding → Prop
  | .createSeedSkill _ created => ∃ skill ∈ created, sha ∈ skill.seed.shas
  | .getSkillBySlug _ _ created => ∃ skill ∈ created, sha ∈ skill.seed.shas
  | .meterStorageNoCap seed _ _ created metering =>
    (∃ skill ∈ created, sha ∈ skill.seed.shas) ∨ sha ∈ seed.shas ∧ sha ∉ metering.rest
  | .upsertSkillVersion seed _ _ created => (∃ skill ∈ created, sha ∈ skill.seed.shas) ∨ sha ∈ seed.shas
  | _ => False

/-- What an uncommitted deploy or seeding has metered. -/
def StorageRequest.Claims (sha : Text) : StorageRequest → Prop
  | .finalize (.create files creating) => creating.Claims files sha
  | .seed seeding => seeding.Claims sha
  | _ => False

/-- What the manifests refer to that a committed deploy or seeding has to write. -/
def StorageRequest.Owes (sha : Text) : StorageRequest → Prop
  | .finalize (.create files (.returned _ _)) => sha ∈ files.map (·.2.sha256)
  | .finalize (.putManifest files _) => sha ∈ files.map (·.2.sha256)
  | .seed (.putSkillManifests _ rest) => ∃ skill ∈ rest, sha ∈ skill.seed.shas
  | _ => False

/-- What a deploy refers to that has found its version there. -/
def StorageRequest.Reuses (sha : Text) : StorageRequest → Prop
  | .finalize (.create files (.existing _ _)) => sha ∈ files.map (·.2.sha256)
  | _ => False

/-- What a pass has deleted and not yet released. -/
def StorageRequest.Unreleased (sha : Text) : StorageRequest → Prop
  | .collect (.deleteBlobs deleted _) => sha ∈ deleted
  | .collect (.deleteOrgBlobs deleted _ _) => sha ∈ deleted
  | .collect (.releaseCommit deleted) => sha ∈ deleted
  | _ => False

/-- What a pass is releasing. -/
def StorageRequest.Releases (sha : Text) : StorageRequest → Prop
  | .collect (.deleteOrgBlobs deleted _ _) => sha ∈ deleted
  | .collect (.releaseCommit deleted) => sha ∈ deleted
  | _ => False

/-- The metering of the blobs looks at every file. -/
def Blobbed (blobs : List BlobSize) (files : List (Text × ManifestTarget)) : Prop :=
  ∀ file ∈ files, file.2.sha256 ≠ [] ∧ file.2.sha256 ∈ blobs.map BlobSize.sha

def StorageRequest.Formed : StorageRequest → Prop
  | .finalize (.verifyFiles _ _ verified) => Blobbed verified.blobs verified.files
  | .finalize (.create files (.getSite p)) => Blobbed p.blobs files
  | .finalize (.create files (.getSiteVersionByContentHash p)) => Blobbed p.blobs files
  | .finalize (.create files (.accountStorage _ _)) => ∀ file ∈ files, file.2.sha256 ≠ []
  | .collect (.deleteOrgBlobs deleted rest _) => ∀ sha ∈ rest, sha ∈ deleted
  | _ => True

/-- What a step does to the blobs that its request counts on. -/
structure Charges (view : OrgStorage) (request : StorageRequest) (effect : Effect Change LockKey)
    (next : StorageRequest) : Prop where
  claims : ∀ sha, next.Claims sha → request.Claims sha ∨ Metered view sha ∨
    ∃ row, effect = .write (.orgBlob row) ∧ row.contentHash = sha
  owes : ∀ sha, next.Owes sha → request.Owes sha ∨
    effect = .commit ∧ (request.Claims sha ∨ request.Reuses sha)
  unreleased : ∀ sha, next.Unreleased sha → request.Unreleased sha ∨ effect = .outside (.deleteBlob sha)
  releases : ∀ sha, request.Releases sha → next.Releases sha ∨ effect = .commit ∨ effect = .rollback
  ended : effect = .commit ∨ effect = .rollback → ∀ sha, ¬ next.Claims sha
  drops : ∀ sha, effect = .write (.dropOrgBlob sha) → next.Releases sha
  siteVersion : ∀ row, effect = .write (.siteVersion row) → view.manifests.get? row.manifestKey = none
  skillVersion : ∀ row, effect = .write (.skillVersion row) →
    Recorded view row.manifestKey ∨ view.manifests.get? row.manifestKey = none
  manifest : ∀ manifest, effect = .outside (.putManifest manifest) →
    ∀ file ∈ manifest.files, request.Owes file.2.sha256
  formed : next.Formed

/-- The write neither drops a row of the ledger nor records a version. -/
def Change.plain : Change → Bool
  | .dropOrgBlob _ | .siteVersion _ | .skillVersion _ => false
  | _ => true

private theorem Charges.read {keys : List LockKey}
    (claims : ∀ sha, next.Claims sha → request.Claims sha ∨ Metered view sha)
    (owes : ∀ sha, next.Owes sha → request.Owes sha)
    (unreleased : ∀ sha, next.Unreleased sha → request.Unreleased sha)
    (releases : ∀ sha, request.Releases sha → next.Releases sha) (formed : next.Formed) :
    Charges view request (.read keys) next where
  claims sha here := (claims sha here).imp_right .inl
  owes sha here := .inl (owes sha here)
  unreleased sha here := .inl (unreleased sha here)
  releases sha here := .inl (releases sha here)
  ended same := by rcases same with same | same <;> cases same
  drops sha same := by cases same
  siteVersion row same := by cases same
  skillVersion row same := by cases same
  manifest manifest same := by cases same
  formed := formed

private theorem Charges.write {change : Change} (plain : change.plain = true)
    (claims : ∀ sha, next.Claims sha → request.Claims sha ∨ Metered view sha ∨
      ∃ row, Effect.write change = Effect.write (κ := LockKey) (.orgBlob row) ∧ row.contentHash = sha)
    (owes : ∀ sha, next.Owes sha → request.Owes sha)
    (unreleased : ∀ sha, next.Unreleased sha → request.Unreleased sha)
    (releases : ∀ sha, request.Releases sha → next.Releases sha) (formed : next.Formed) :
    Charges view request (.write change) next where
  claims := claims
  owes sha here := .inl (owes sha here)
  unreleased sha here := .inl (unreleased sha here)
  releases sha here := .inl (releases sha here)
  ended same := by rcases same with same | same <;> cases same
  drops sha same := by
    cases same
    cases plain
  siteVersion row same := by
    cases same
    cases plain
  skillVersion row same := by
    cases same
    cases plain
  manifest manifest same := by cases same
  formed := formed

private theorem Charges.commit (claims : ∀ sha, ¬ next.Claims sha)
    (owes : ∀ sha, next.Owes sha → request.Claims sha ∨ request.Reuses sha)
    (unreleased : ∀ sha, ¬ next.Unreleased sha) (formed : next.Formed) :
    Charges view request .commit next where
  claims sha here := absurd here (claims sha)
  owes sha here := .inr ⟨rfl, owes sha here⟩
  unreleased sha here := absurd here (unreleased sha)
  releases sha here := .inr (.inl rfl)
  ended _ := claims
  drops sha same := by cases same
  siteVersion row same := by cases same
  skillVersion row same := by cases same
  manifest manifest same := by cases same
  formed := formed

private theorem Charges.rollback (claims : ∀ sha, ¬ next.Claims sha) (owes : ∀ sha, ¬ next.Owes sha)
    (unreleased : ∀ sha, ¬ next.Unreleased sha) (formed : next.Formed) :
    Charges view request .rollback next where
  claims sha here := absurd here (claims sha)
  owes sha here := absurd here (owes sha)
  unreleased sha here := absurd here (unreleased sha)
  releases sha here := .inr (.inr rfl)
  ended _ := claims
  drops sha same := by cases same
  siteVersion row same := by cases same
  skillVersion row same := by cases same
  manifest manifest same := by cases same
  formed := formed

private theorem Charges.outside {change : Change} (claims : ∀ sha, ¬ next.Claims sha)
    (owes : ∀ sha, next.Owes sha → request.Owes sha)
    (unreleased : ∀ sha, next.Unreleased sha → request.Unreleased sha ∨ change = .deleteBlob sha)
    (releases : ∀ sha, ¬ request.Releases sha)
    (manifest : ∀ manifest, change = .putManifest manifest →
      ∀ file ∈ manifest.files, request.Owes file.2.sha256) (formed : next.Formed) :
    Charges view request (.outside change) next where
  claims sha here := absurd here (claims sha)
  owes sha here := .inl (owes sha here)
  unreleased sha here := (unreleased sha here).imp_right (congrArg Effect.outside)
  releases sha here := absurd here (releases sha)
  ended same := by rcases same with same | same <;> cases same
  drops sha same := by cases same
  siteVersion row same := by cases same
  skillVersion row same := by cases same
  manifest found same := manifest found (by cases same; rfl)
  formed := formed

/-- Every blob that metering passes by is in the ledger, or put there. -/
theorem Metering.next_rest {metering next : Metering} (ran : metering.next quota org = some (.ok (effect, next)))
    (some : sha ≠ []) (before : sha ∈ metering.rest) : sha ∈ next.rest ∨ Metered org sha ∨
      ∃ row, effect = .write (.orgBlob row) ∧ row.contentHash = sha := by
  cases metering with
  | lockOrgStorageQuota capped blobs =>
    cases ran
    cases capped <;> exact .inl before
  | getOrgStorage blobs =>
    cases ran
    exact .inl before
  | insertOrgBlob capped current delta rest =>
    cases rest with
    | nil => cases before
    | cons blob rest =>
      simp only [Metering.next] at ran
      rcases List.mem_cons.mp before with here | later
      · subst here
        rw [if_neg some] at ran
        split at ran
        · rename_i metered
          exact .inr (.inl metered)
        · cases ran
          exact .inr (.inr ⟨_, rfl, rfl⟩)
      · split at ran
        · cases ran
          exact .inl later
        · split at ran <;> (cases ran; exact .inl later)
  | getPlanTier current delta => cases before
  | addOrgStorage delta => cases before
  | metered => cases before

theorem Metering.start_rest (capped : Bool) (blobs : List BlobSize) :
    (Metering.start capped blobs).rest = blobs.map BlobSize.sha := by
  unfold Metering.start
  split
  · rename_i none
    rw [none]
    rfl
  · rfl

theorem mem_putFile {path : Text} {target : ManifestTarget} {files : List (Text × ManifestTarget)}
    {entry : Text × ManifestTarget} (mem : entry ∈ putFile path target files) :
    entry = (path, target) ∨ entry ∈ files := by
  induction files with
  | nil => exact .inl (List.mem_singleton.mp mem)
  | cons old rest ih =>
    simp only [putFile] at mem
    split at mem
    · rcases List.mem_cons.mp mem with here | later
      · exact .inl here
      · exact .inr (List.mem_cons_of_mem old later)
    · split at mem
      · exact List.mem_cons.mp mem
      · rcases List.mem_cons.mp mem with here | later
        · exact .inr (here ▸ List.mem_cons_self)
        · exact (ih later).imp_right (List.mem_cons_of_mem old)

private theorem validSHA256_some (valid : validSHA256 sha = true) : sha ≠ [] := by
  intro empty
  rw [empty] at valid
  cases valid

private theorem size_known {verified : Verified} (known : (verified.size sha).isSome) :
    sha ∈ verified.blobs.map BlobSize.sha := by
  rw [Verified.size, Option.isSome_map, List.find?_isSome] at known
  obtain ⟨blob, mem, same⟩ := known
  exact List.mem_map.mpr ⟨blob, mem, by simpa using same⟩

/-- What one round of verifyManifest's loop has found. -/
private theorem Verified.add_blobbed {verified later : Verified} {file : ManifestFile}
    (blobbed : Blobbed verified.blobs verified.files) (added : verified.add hash org file = .ok later) :
    Blobbed later.blobs later.files := by
  obtain ⟨valid, observed, -, blobs, files⟩ := add_ok added
  have kept : ∀ sha ∈ verified.blobs.map BlobSize.sha, sha ∈ later.blobs.map BlobSize.sha := by
    intro sha mem
    rw [blobs]
    split
    · exact mem
    · rw [List.map_append]
      exact List.mem_append_left _ mem
  intro entry mem
  rw [files] at mem
  rcases mem_putFile mem with rfl | mem
  · refine ⟨validSHA256_some valid, ?_⟩
    by_cases known : (verified.size file.sha256).isSome
    · exact kept _ (size_known known)
    · simp [blobs, known]
  · exact (blobbed entry mem).imp_right (kept _)

private theorem Creating.next_charges {files : List (Text × ManifestTarget)} {creating later : Creating}
    (formed : (StorageRequest.finalize (.create files creating)).Formed)
    (ran : creating.next quota input org = some (effect, later)) :
    Charges org (.finalize (.create files creating)) effect (.finalize (.create files later)) := by
  cases creating with
  | getSite p =>
    simp only [Creating.next] at ran
    split at ran
    · cases ran
      exact .read (fun _ => .inl) (fun _ => id) (fun _ => id) (fun _ => id) formed
    · cases ran
      exact .rollback (fun _ => id) (fun _ => id) (fun _ => id) trivial
  | getSiteVersionByContentHash p =>
    simp only [Creating.next] at ran
    split at ran
    · cases ran
      exact .read (fun _ => .inl) (fun _ => id) (fun _ => id) (fun _ => id) trivial
    · cases ran
      refine .read (fun sha here => ?_) (fun _ => id) (fun _ => id) (fun _ => id)
        fun file mem => (formed file mem).1
      obtain ⟨mem, passed⟩ := here
      obtain ⟨file, fileMem, rfl⟩ := List.mem_map.mp mem
      rw [Metering.start_rest] at passed
      exact absurd (formed file fileMem).2 passed
  | accountStorage p metering =>
    simp only [Creating.next] at ran
    split at ran
    · cases ran
      rename_i metering_ step
      have claims : ∀ sha, (StorageRequest.finalize (.create files (.accountStorage p metering_))).Claims sha →
          (StorageRequest.finalize (.create files (.accountStorage p metering))).Claims sha ∨
            Metered org sha ∨ ∃ row, effect = .write (.orgBlob row) ∧ row.contentHash = sha := by
        intro sha here
        obtain ⟨mem, passed⟩ := here
        by_cases before : sha ∈ metering.rest
        · obtain ⟨file, fileMem, rfl⟩ := List.mem_map.mp mem
          exact .inr ((Metering.next_rest step (formed file fileMem) before).resolve_left passed)
        · exact .inl ⟨mem, before⟩
      rcases Metering.next_effect step with ⟨keys, rfl⟩ | ⟨change, rfl, meters⟩
      · refine .read (fun sha here => ?_) (fun _ => id) (fun _ => id) (fun _ => id) formed
        rcases claims sha here with claimed | metered | ⟨row, same, _⟩
        · exact .inl claimed
        · exact .inr metered
        · cases same
      · exact .write (by cases meters <;> rfl) claims (fun _ => id) (fun _ => id) (fun _ => id) formed
    · cases ran
      exact .rollback (fun _ => id) (fun _ => id) (fun _ => id) trivial
    · rename_i done
      cases ran
      obtain rfl := Metering.next_none done
      exact .read (fun sha here => .inl ⟨here, List.not_mem_nil⟩) (fun _ => id) (fun _ => id) (fun _ => id) trivial
  | nextVersionNo p =>
    cases ran
    exact .read (fun _ => .inl) (fun _ => id) (fun _ => id) (fun _ => id) trivial
  | createSiteVersion p versionNo =>
    simp only [Creating.next] at ran
    split at ran
    · cases ran
    · rename_i undrawn
      split at ran
      · cases ran
        exact .rollback (fun _ => id) (fun _ => id) (fun _ => id) trivial
      · cases ran
        exact {
          claims := fun _ here => .inl here
          owes := fun _ here => here.elim
          unreleased := fun _ here => here.elim
          releases := fun _ here => here.elim
          ended := fun same => by rcases same with same | same <;> cases same
          drops := fun _ same => by cases same
          siteVersion := fun row same => by
            cases same
            exact OrgStorage.manifest_undrawn fun mem => undrawn (List.contains_iff_mem.mpr mem)
          skillVersion := fun _ same => by cases same
          manifest := fun _ same => by cases same
          formed := trivial }
  | existing p version =>
    cases ran
    exact .commit (fun _ => id) (fun _ => .inr) (fun _ => id) trivial
  | created p version =>
    cases ran
    exact .commit (fun _ => id) (fun _ => .inl) (fun _ => id) trivial
  | returned p version => cases ran
  | failed error => cases ran

private theorem Finalizing.next_charges {position later : Finalizing}
    (formed : (StorageRequest.finalize position).Formed)
    (ran : position.next hash quota input org = some (effect, later)) :
    Charges org (.finalize position) effect (.finalize later) := by
  cases position with
  | create files creating =>
    rcases Finalizing.next_create ran with ⟨p, version, rfl, rfl, rfl⟩ | ⟨error, rfl, rfl, rfl⟩ |
      ⟨creating, step, rfl⟩
    · exact .read (fun _ => False.elim) (fun _ => id) (fun _ => id) (fun _ => id) trivial
    · exact .read (fun _ => False.elim) (fun _ => False.elim) (fun _ => id) (fun _ => id) trivial
    · exact Creating.next_charges formed step
  | verifyManifest r =>
    simp only [Finalizing.next] at ran
    split at ran
    · cases ran
      exact .read (fun _ => False.elim) (fun _ => False.elim) (fun _ => id) (fun _ => id) trivial
    · split at ran
      · cases ran
        exact .read (fun _ => False.elim) (fun _ => False.elim) (fun _ => id) (fun _ => id) trivial
      · split at ran
        · cases ran
          exact .read (fun _ => False.elim) (fun _ => False.elim) (fun _ => id) (fun _ => id) trivial
        · cases ran
          exact .read (fun _ => False.elim) (fun _ => False.elim) (fun _ => id) (fun _ => id)
            fun file mem => absurd mem List.not_mem_nil
  | verifyFiles r rest verified =>
    cases rest with
    | nil =>
      cases ran
      exact .read (fun _ => False.elim) (fun _ => False.elim) (fun _ => id) (fun _ => id) formed
    | cons file rest =>
      simp only [Finalizing.next] at ran
      split at ran
      · cases ran
        exact .read (fun _ => False.elim) (fun _ => False.elim) (fun _ => id) (fun _ => id) trivial
      · split at ran
        · rename_i added
          cases ran
          exact .read (fun _ => False.elim) (fun _ => False.elim) (fun _ => id) (fun _ => id)
            (Verified.add_blobbed formed added)
        · cases ran
          exact .read (fun _ => False.elim) (fun _ => False.elim) (fun _ => id) (fun _ => id) trivial
  | putManifest files version =>
    simp only [Finalizing.next] at ran
    split at ran
    · cases ran
      exact .read (fun _ => False.elim) (fun _ => False.elim) (fun _ => id) (fun _ => id) trivial
    · cases ran
      refine .outside (fun _ => id) (fun _ => False.elim) (fun _ => False.elim) (fun _ => id)
        (fun manifest same file mem => ?_) trivial
      cases same
      exact List.mem_map.mpr ⟨file, mem, rfl⟩
  | createPreview version =>
    simp only [Finalizing.next] at ran
    split at ran
    · cases ran
      exact .read (fun _ => False.elim) (fun _ => False.elim) (fun _ => id) (fun _ => id) trivial
    · cases ran
      exact .write rfl (fun _ => False.elim) (fun _ => False.elim) (fun _ => id) (fun _ => id) trivial
  | previewCommit version =>
    cases ran
    exact .commit (fun _ => id) (fun _ => False.elim) (fun _ => id) trivial
  | finalized version => cases ran
  | refused error => cases ran

private theorem Publishing.next_charges {position later : Publishing}
    (ran : position.next input org = some (effect, later)) :
    Charges org (.publish position) effect (.publish later) := by
  have reads : ∀ keys, Charges org (.publish position) (.read keys) (.publish later) := fun keys =>
    .read (fun _ => False.elim) (fun _ => False.elim) (fun _ => id) (fun _ => id) trivial
  have writes : ∀ change : Change, change.plain = true →
      Charges org (.publish position) (.write change) (.publish later) := fun change plain =>
    .write plain (fun _ => False.elim) (fun _ => False.elim) (fun _ => id) (fun _ => id) trivial
  have commits : Charges org (.publish position) .commit (.publish later) :=
    .commit (fun _ => id) (fun _ => False.elim) (fun _ => id) trivial
  have stops : Charges org (.publish position) .rollback (.publish later) :=
    .rollback (fun _ => id) (fun _ => id) (fun _ => id) trivial
  cases effect with
  | read keys => exact reads keys
  | write change =>
    rcases Publishing.next_write ran with ⟨_, _, rfl, _⟩ | ⟨_, _, rfl⟩ <;> exact writes _ rfl
  | commit => exact commits
  | rollback => exact stops
  | outside change => exact absurd ran Publishing.next_outside

private theorem meter_charges {seed : SkillSeed} {created : List SeededSkill}
    (claims : ∀ sha, (∃ skill ∈ created, sha ∈ skill.seed.shas) → request.Claims sha)
    (here : (∃ skill ∈ created, sha ∈ skill.seed.shas) ∨
      sha ∈ seed.shas ∧ sha ∉ (Metering.start false seed.blobs).rest) : request.Claims sha := by
  rcases here with before | ⟨mem, passed⟩
  · exact claims sha before
  · refine absurd ?_ passed
    rw [Metering.start_rest, SkillSeed.blobs, List.map_map]
    exact mem

private theorem shas_some {seed : SkillSeed} (mem : sha ∈ seed.shas) : sha ≠ [] := by
  obtain ⟨file, _, rfl⟩ := List.mem_map.mp mem
  exact file.hashed

private theorem mem_targets {files : List SeedFile} {done : List (Text × ManifestTarget)}
    {entry : Text × ManifestTarget} (mem : entry ∈ files.foldl (fun done file =>
      putFile file.path ⟨file.sha256, file.contentType, file.content.length⟩ done) done) :
    entry ∈ done ∨ ∃ file ∈ files, entry.2.sha256 = file.sha256 := by
  induction files generalizing done with
  | nil => exact .inl mem
  | cons file rest ih =>
    rcases ih mem with mem | ⟨other, otherMem, same⟩
    · rcases mem_putFile mem with rfl | mem
      · exact .inr ⟨file, List.mem_cons_self, rfl⟩
      · exact .inl mem
    · exact .inr ⟨other, List.mem_cons_of_mem file otherMem, same⟩

private theorem targets_shas {seed : SkillSeed} {entry : Text × ManifestTarget}
    (mem : entry ∈ seed.targets) : entry.2.sha256 ∈ seed.shas := by
  rcases mem_targets mem with none | ⟨file, fileMem, same⟩
  · cases none
  · exact List.mem_map.mpr ⟨file, fileMem, same.symm⟩

private theorem Seeding.next_charges {position later : Seeding}
    (ran : position.next quota input org = some (effect, later)) :
    Charges org (.seed position) effect (.seed later) := by
  cases position with
  | skillsSeeded seeds =>
    cases ran
    split <;> exact .read (fun _ => False.elim) (fun _ => False.elim) (fun _ => id) (fun _ => id) trivial
  | putBlobs seeds rest =>
    cases rest with
    | nil =>
      cases ran
      exact .read (fun _ => False.elim) (fun _ => False.elim) (fun _ => id) (fun _ => id) trivial
    | cons file rest =>
      simp only [Seeding.next] at ran
      split at ran
      · cases ran
        exact .read (fun _ => False.elim) (fun _ => False.elim) (fun _ => id) (fun _ => id) trivial
      · cases ran
        exact .outside (fun _ => id) (fun _ => False.elim) (fun _ => False.elim) (fun _ => id)
          (fun manifest same => by cases same) trivial
  | lockOrgSkillsSeed seeds =>
    cases ran
    exact .write rfl (fun _ => False.elim) (fun _ => False.elim) (fun _ => id) (fun _ => id) trivial
  | getOrgSkillsSeeded seeds =>
    simp only [Seeding.next] at ran
    split at ran
    · cases ran
      exact .rollback (fun _ => id) (fun _ => id) (fun _ => id) trivial
    · cases ran
      refine .read (fun sha here => ?_) (fun _ => False.elim) (fun _ => id) (fun _ => id) trivial
      obtain ⟨skill, mem, _⟩ := here
      cases mem
  | createSeedSkill rest created =>
    cases rest with
    | nil =>
      cases ran
      exact .commit (fun _ => id) (fun _ => .inl) (fun _ => id) trivial
    | cons seed rest =>
      simp only [Seeding.next] at ran
      split at ran
      · cases ran
        exact .read (fun _ => .inl) (fun _ => False.elim) (fun _ => id) (fun _ => id) trivial
      · split at ran
        · cases ran
        · cases ran
          exact .write rfl (fun _ here => .inl (meter_charges (fun _ => id) here)) (fun _ => False.elim)
            (fun _ => id) (fun _ => id) trivial
  | getSkillBySlug seed rest created =>
    simp only [Seeding.next] at ran
    split at ran
    · cases ran
      exact .rollback (fun _ => id) (fun _ => id) (fun _ => id) trivial
    · split at ran
      · cases ran
        exact .read (fun _ => .inl) (fun _ => False.elim) (fun _ => id) (fun _ => id) trivial
      · cases ran
        exact .read (fun _ here => .inl (meter_charges (fun _ => id) here)) (fun _ => False.elim)
          (fun _ => id) (fun _ => id) trivial
  | meterStorageNoCap seed skillId rest created metering =>
    simp only [Seeding.next] at ran
    split at ran
    · cases ran
      rename_i metering_ step
      have claims : ∀ sha,
          (StorageRequest.seed (.meterStorageNoCap seed skillId rest created metering_)).Claims sha →
          (StorageRequest.seed (.meterStorageNoCap seed skillId rest created metering)).Claims sha ∨
            Metered org sha ∨ ∃ row, effect = .write (.orgBlob row) ∧ row.contentHash = sha := by
        intro sha here
        rcases here with earlier | ⟨mem, passed⟩
        · exact .inl (.inl earlier)
        · by_cases before : sha ∈ metering.rest
          · exact .inr ((Metering.next_rest step (shas_some mem) before).resolve_left passed)
          · exact .inl (.inr ⟨mem, before⟩)
      rcases Metering.next_effect step with ⟨keys, rfl⟩ | ⟨change, rfl, meters⟩
      · refine .read (fun sha here => ?_) (fun _ => id) (fun _ => id) (fun _ => id) trivial
        rcases claims sha here with claimed | metered | ⟨row, same, _⟩
        · exact .inl claimed
        · exact .inr metered
        · cases same
      · exact .write (by cases meters <;> rfl) claims (fun _ => id) (fun _ => id) (fun _ => id) trivial
    · cases ran
      exact .rollback (fun _ => id) (fun _ => id) (fun _ => id) trivial
    · rename_i done
      cases ran
      obtain rfl := Metering.next_none done
      exact .read (fun sha here => .inl (here.imp_right fun mem => ⟨mem, List.not_mem_nil⟩)) (fun _ => id)
        (fun _ => id) (fun _ => id) trivial
  | upsertSkillVersion seed skillId rest created =>
    have claims : ∀ versionId sha,
        (StorageRequest.seed (.createSeedSkill rest (created ++ [⟨seed, skillId, versionId⟩]))).Claims sha →
        (StorageRequest.seed (.upsertSkillVersion seed skillId rest created)).Claims sha := by
      intro versionId sha here
      obtain ⟨skill, mem, shaMem⟩ := here
      rcases List.mem_append.mp mem with mem | mem
      · exact .inl ⟨skill, mem, shaMem⟩
      · rw [List.mem_singleton.mp mem] at shaMem
        exact .inr shaMem
    have records : ∀ (row : SkillVersionRow) versionId,
        Recorded org row.manifestKey ∨ org.manifests.get? row.manifestKey = none →
        Charges org (.seed (.upsertSkillVersion seed skillId rest created)) (.write (.skillVersion row))
          (.seed (.createSeedSkill rest (created ++ [⟨seed, skillId, versionId⟩]))) := by
      intro row versionId known
      exact {
        claims := fun sha here => .inl (claims versionId sha here)
        owes := fun _ here => here.elim
        unreleased := fun _ here => here.elim
        releases := fun _ here => here.elim
        ended := fun same => by rcases same with same | same <;> cases same
        drops := fun _ same => by cases same
        siteVersion := fun _ same => by cases same
        skillVersion := fun _ same => by
          cases same
          exact known
        manifest := fun _ same => by cases same
        formed := trivial }
    simp only [Seeding.next] at ran
    split at ran
    · rename_i version found
      cases ran
      exact records version version.id (.inl (.inr ⟨version, List.mem_of_find?_eq_some found, rfl⟩))
    · split at ran
      · cases ran
      · rename_i undrawn
        split at ran
        · cases ran
          exact .rollback (fun _ => id) (fun _ => id) (fun _ => id) trivial
        · cases ran
          exact records _ _ (.inr (OrgStorage.manifest_undrawn fun mem =>
            undrawn (List.contains_iff_mem.mpr mem)))
  | putSkillManifests created rest =>
    cases rest with
    | nil =>
      cases ran
      exact .read (fun _ => False.elim) (fun _ => False.elim) (fun _ => id) (fun _ => id) trivial
    | cons skill rest =>
      simp only [Seeding.next] at ran
      split at ran
      · cases ran
        exact .read (fun _ => False.elim) (fun _ => False.elim) (fun _ => id) (fun _ => id) trivial
      · cases ran
        refine .outside (fun _ => id) (fun sha here => ?_) (fun _ => False.elim) (fun _ => id)
          (fun manifest same file mem => ?_) trivial
        · obtain ⟨other, mem, shaMem⟩ := here
          exact ⟨other, List.mem_cons_of_mem skill mem, shaMem⟩
        · cases same
          exact ⟨skill, List.mem_cons_self, targets_shas mem⟩
  | lockPublish created =>
    cases ran
    exact .write rfl (fun _ => False.elim) (fun _ => False.elim) (fun _ => id) (fun _ => id) trivial
  | getPublished created =>
    simp only [Seeding.next] at ran
    split at ran
    · cases ran
      exact .rollback (fun _ => id) (fun _ => id) (fun _ => id) trivial
    · cases ran
      exact .read (fun _ => False.elim) (fun _ => False.elim) (fun _ => id) (fun _ => id) trivial
  | setSkillCurrentVersion rest =>
    cases rest with
    | nil =>
      cases ran
      exact .write rfl (fun _ => False.elim) (fun _ => False.elim) (fun _ => id) (fun _ => id) trivial
    | cons skill rest =>
      cases ran
      exact .write rfl (fun _ => False.elim) (fun _ => False.elim) (fun _ => id) (fun _ => id) trivial
  | publishCommit =>
    cases ran
    exact .commit (fun _ => id) (fun _ => False.elim) (fun _ => id) trivial
  | seeded => cases ran
  | failed => cases ran

private theorem Collecting.next_charges {position later : Collecting}
    (formed : (StorageRequest.collect position).Formed)
    (ran : position.next input org = some (effect, later)) :
    Charges org (.collect position) effect (.collect later) := by
  cases position with
  | listVersions policy =>
    cases ran
    exact .read (fun _ => False.elim) (fun _ => id) (fun _ => id) (fun _ => id) trivial
  | listSkillVersions policy retained =>
    cases ran
    exact .read (fun _ => False.elim) (fun _ => id) (fun _ => id) (fun _ => id) trivial
  | readManifests policy now keys referenced =>
    cases keys with
    | nil =>
      simp only [Collecting.next] at ran
      split at ran
      · cases ran
        exact .read (fun _ => False.elim) (fun _ => id) (fun _ => id) (fun _ => id) trivial
      · cases ran
        split
        · exact .read (fun _ => False.elim) (fun _ => id) (fun _ => id) (fun _ => id) trivial
        · exact .read (fun _ => False.elim) (fun _ => id) (fun _ mem => absurd mem List.not_mem_nil)
            (fun _ => id) trivial
    | cons key keys =>
      simp only [Collecting.next] at ran
      split at ran <;>
        (cases ran; exact .read (fun _ => False.elim) (fun _ => id) (fun _ => id) (fun _ => id) trivial)
  | deleteBlobs deleted rest =>
    cases rest with
    | nil =>
      cases ran
      unfold Collecting.release
      split
      · exact .read (fun _ => False.elim) (fun _ => id) (fun _ => False.elim) (fun _ => False.elim) trivial
      · exact .read (fun _ => False.elim) (fun _ => id) (fun _ => id) (fun _ => False.elim) fun _ => id
    | cons sha rest =>
      simp only [Collecting.next] at ran
      split at ran
      · cases ran
        exact .read (fun _ => False.elim) (fun _ => id) (fun _ => False.elim) (fun _ => False.elim) trivial
      · cases ran
        refine .outside (fun _ => id) (fun _ => id) (fun gone here => ?_) (fun _ => id)
          (fun manifest same => by cases same) trivial
        rcases List.mem_append.mp here with before | last
        · exact .inl before
        · exact .inr (List.mem_singleton.mp last ▸ rfl)
  | deleteOrgBlobs deleted rest freed =>
    cases rest with
    | nil =>
      simp only [Collecting.next] at ran
      split at ran
      · cases ran
        exact .read (fun _ => False.elim) (fun _ => id) (fun _ => id) (fun _ => id) trivial
      · cases ran
        exact .write rfl (fun _ => False.elim) (fun _ => id) (fun _ => id) (fun _ => id) trivial
    | cons sha rest =>
      have rest_ : ∀ sha ∈ rest, sha ∈ deleted := fun other mem => formed other (List.mem_cons_of_mem sha mem)
      simp only [Collecting.next] at ran
      split at ran
      · cases ran
        exact .read (fun _ => False.elim) (fun _ => id) (fun _ => id) (fun _ => id) rest_
      · cases ran
        exact {
          claims := fun _ here => here.elim
          owes := fun _ here => here.elim
          unreleased := fun _ here => .inl here
          releases := fun _ here => .inl here
          ended := fun same => by rcases same with same | same <;> cases same
          drops := fun _ same => by
            cases same
            exact formed sha List.mem_cons_self
          siteVersion := fun _ same => by cases same
          skillVersion := fun _ same => by cases same
          manifest := fun _ same => by cases same
          formed := rest_ }
  | releaseCommit deleted =>
    cases ran
    exact .commit (fun _ => id) (fun _ => False.elim) (fun _ => id) trivial
  | collected => cases ran
  | failed => cases ran

theorem StorageRequest.next_charges (formed : request.Formed)
    (ran : request.next hash quota input org = some (effect, next)) : Charges org request effect next := by
  cases request with
  | finalize position =>
    obtain ⟨later, step, rfl⟩ := next_finalize ran
    exact Finalizing.next_charges formed step
  | publish position =>
    obtain ⟨later, step, rfl⟩ := next_publish ran
    exact Publishing.next_charges step
  | seed position =>
    obtain ⟨later, step, rfl⟩ := next_seed ran
    exact Seeding.next_charges step
  | collect position =>
    obtain ⟨later, step, rfl⟩ := next_collect ran
    exact Collecting.next_charges formed step
  | upload sha bytes =>
    cases ran
    exact .outside (fun _ => id) (fun _ => id) (fun _ => .inl) (fun _ => id)
      (fun manifest same => by cases same) trivial
  | uploaded => cases ran

end Dropway.Api
