import Dropway.Api.Uploads

/-! The garbage collection of an org's blobs (internal/store/gc.go). -/

namespace Dropway.Api
open Lib

/-- Of a policy, `minAge` in nanoseconds. -/
structure GCPolicy where
  keepLastN : Int
  minAge : Int
  dryRun : Bool
  deriving DecidableEq

def defaultGCMinAge : Int := 75 * 60 * 1000000000

def previewBlobRetention : Int := 30 * 24 * 3600 * 1000000000

def GCPolicy.effectiveMinAge (policy : GCPolicy) : Int :=
  if policy.minAge ≤ 0 then defaultGCMinAge else policy.minAge

structure GCRow where
  versionId : Text
  siteId : Text
  versionNo : Nat
  isCurrent : Bool
  previewExpiresAt : Option Timestamptz
  deriving DecidableEq

/-- By site, and the newest first within one. -/
def GCRow.Le (one two : GCRow) : Prop :=
  one.siteId < two.siteId ∨ one.siteId = two.siteId ∧ two.versionNo ≤ one.versionNo

instance : DecidableRel GCRow.Le := fun one two =>
  inferInstanceAs (Decidable (one.siteId < two.siteId ∨ one.siteId = two.siteId ∧ two.versionNo ≤ one.versionNo))

def OrgStorage.listVersionsForGC (org : OrgStorage) : List GCRow :=
  (org.siteVersions.rows.filterMap fun version =>
    (org.sites.get? version.siteId).map fun site =>
      { versionId := version.id, siteId := version.siteId, versionNo := version.versionNo
        isCurrent := decide (site.currentVersionId = some version.id)
        previewExpiresAt := version.previewExpiresAt }).insertionSort GCRow.Le

def OrgStorage.listCurrentSkillVersionsForGC (org : OrgStorage) : List ManifestKey :=
  org.skills.rows.filterMap fun skill => skill.currentVersionId.map (ManifestKey.skill skill.id)

def previewBlobsRetained (expires : Option Timestamptz) (now : Instant) : Bool :=
  expires.any fun stamp => decide (now < stamp.time + previewBlobRetention)

/-- The first `n` rows of each site; `seen` are the rows before. -/
def newest (n : Nat) (seen : List GCRow) : List GCRow → List GCRow
  | [] => []
  | row :: rest =>
    if (seen.filter fun old => old.siteId = row.siteId).length < n then
      row :: newest n (seen ++ [row]) rest
    else newest n (seen ++ [row]) rest

/-- The rows whose versions have not been seen before. -/
def addUnseen (seen : List Text) : List GCRow → List GCRow
  | [] => []
  | row :: rest =>
    if seen.contains row.versionId then addUnseen seen rest
    else row :: addUnseen (row.versionId :: seen) rest

def selectRetained (rows : List GCRow) (keepLastN : Int) (now : Instant) : List GCRow :=
  addUnseen [] (rows.filter GCRow.isCurrent ++ newest keepLastN.toNat [] rows ++
    rows.filter fun row => previewBlobsRetained row.previewExpiresAt now)

/-- The blobs that a stored manifest refers to; one that is missing refers to none. -/
def OrgStorage.references (org : OrgStorage) (key : ManifestKey) : List Text :=
  ((org.manifests.get? key).map fun manifest => manifest.files.map fun file => file.2.sha256).getD []

def spared (policy : GCPolicy) (now : Instant) (blob : Blob) : Bool :=
  blob.lastModified.any fun modified => decide (now - policy.effectiveMinAge ≤ modified)

def OrgStorage.orphans (org : OrgStorage) (policy : GCPolicy) (now : Instant) (referenced : List Text) :
    List Text :=
  ((org.blobs.filter fun blob => !referenced.contains blob.sha && !spared policy now blob).map
    Blob.sha).insertionSort fun one two => one ≤ two

/-- Where a pass over the org is. -/
inductive Collecting where
  | listVersions (policy : GCPolicy)
  | listSkillVersions (policy : GCPolicy) (retained : List GCRow)
  | readManifests (policy : GCPolicy) (now : Instant) (keys : List ManifestKey) (referenced : List Text)
  | deleteBlobs (deleted rest : List Text)
  | deleteOrgBlobs (deleted rest : List Text) (freed : Nat)
  | releaseCommit (deleted : List Text)
  | collected
  | failed

def GCRow.key (row : GCRow) : ManifestKey := .site row.siteId row.versionId

/-- The ledger is released unless there is nothing to release. -/
def Collecting.release (deleted : List Text) : Collecting :=
  if deleted = [] then .collected else .deleteOrgBlobs deleted deleted 0

def Collecting.next (input : Input) (position : Collecting) (org : OrgStorage) :
    Option (Effect Change LockKey × Collecting) :=
  match position with
  | .listVersions policy =>
    some (.read [], .listSkillVersions policy
      (selectRetained org.listVersionsForGC policy.keepLastN input.now))
  | .listSkillVersions policy retained =>
    some (.read [], .readManifests policy input.now
      (retained.map GCRow.key ++ org.listCurrentSkillVersionsForGC) [])
  | .readManifests policy now [] referenced =>
    if input.fails then some (.read [], .failed)
    else
      some (.read [], if policy.dryRun then .collected
        else .deleteBlobs [] (org.orphans policy now referenced))
  | .readManifests policy now (key :: keys) referenced =>
    if input.fails then some (.read [], .failed)
    else some (.read [], .readManifests policy now keys (referenced ++ org.references key))
  | .deleteBlobs deleted [] => some (.read [], .release deleted)
  | .deleteBlobs deleted (sha :: rest) =>
    if input.fails then some (.read [], .failed)
    else some (.outside (.deleteBlob sha), .deleteBlobs (deleted ++ [sha]) rest)
  | .deleteOrgBlobs deleted [] freed =>
    if freed = 0 then some (.read [], .releaseCommit deleted)
    else some (.write (.subStorage freed), .releaseCommit deleted)
  | .deleteOrgBlobs deleted (sha :: rest) freed =>
    match org.orgBlobs.get? sha with
    | none => some (.read [], .deleteOrgBlobs deleted rest freed)
    | some row => some (.write (.dropOrgBlob sha), .deleteOrgBlobs deleted rest (freed + row.sizeBytes))
  | .releaseCommit _ => some (.commit, .collected)
  | .collected => none
  | .failed => none

/-! A pass that nothing else works beside. -/

namespace OrgStorage

variable (org : OrgStorage)

/-- The manifests of the retained versions; the clock is read for the previews. -/
def retainedManifests (policy : GCPolicy) (now : Instant) : List ManifestKey :=
  (selectRetained org.listVersionsForGC policy.keepLastN now).map GCRow.key ++
    org.listCurrentSkillVersionsForGC

/-- The clock is read again for the age of the blobs. -/
def gcOrphans (policy : GCPolicy) (selected now : Instant) : List Text :=
  org.orphans policy now ((org.retainedManifests policy selected).flatMap org.references)

def deleteBlobs (shas : List Text) : OrgStorage :=
  shas.foldl (fun org sha => (Change.deleteBlob sha).apply org) org

/-- The size of a blob in the ledger. -/
def metered (sha : Text) : Nat := ((org.orgBlobs.get? sha).map OrgBlob.sizeBytes).getD 0

/-- One round of releaseStorageForBlobs' loop, with what it has freed. -/
def deleteOrgBlob (released : OrgStorage × Nat) (sha : Text) : OrgStorage × Nat :=
  ((Change.dropOrgBlob sha).apply released.1, released.2 + released.1.metered sha)

def subStorage (released : OrgStorage × Nat) : OrgStorage :=
  if released.2 = 0 then released.1 else (Change.subStorage released.2).apply released.1

def releaseStorageForBlobs (shas : List Text) : OrgStorage := subStorage (shas.foldl deleteOrgBlob (org, 0))

/-- The blobs that a pass deletes. -/
def gcDeletes (policy : GCPolicy) (selected now : Instant) : List Text :=
  if policy.dryRun then [] else org.gcOrphans policy selected now

/-- A pass that stops after `deletions` deletions, before it releases the ledger. -/
def gcStopped (policy : GCPolicy) (selected now : Instant) (deletions : Nat) : OrgStorage :=
  org.deleteBlobs ((org.gcDeletes policy selected now).take deletions)

def gcOrg (policy : GCPolicy) (selected now : Instant) : OrgStorage :=
  (org.deleteBlobs (org.gcDeletes policy selected now)).releaseStorageForBlobs
    (org.gcDeletes policy selected now)

def recomputeOrgStorage : OrgStorage := { org with storageBytes := org.ledgerSum }

end OrgStorage

end Dropway.Api
