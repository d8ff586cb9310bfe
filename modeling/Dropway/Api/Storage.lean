import Dropway.Api.Schema

/-! What one org stores: the rows that deploys and skill uploads are recorded in
(db/sqlc/query.sql) and the objects under its prefix (internal/storage). The org
is provisioned, so its usage row is there. -/

namespace Dropway.Api
open Lib

structure BlobSize where
  sha : Text
  size : Nat
  deriving DecidableEq

/-- A row of `app.site_versions`. -/
structure VersionRow where
  id : Text
  siteId : Text
  versionNo : Nat
  status : VersionStatus
  contentHash : Text
  previewExpiresAt : Option Timestamptz
  deriving DecidableEq

structure SiteRow where
  id : Text
  currentVersionId : Option Text
  deriving DecidableEq

structure SkillRow where
  id : Text
  slug : Text
  ownerUserId : Text
  currentVersionId : Option Text
  deriving DecidableEq

structure SkillVersionRow where
  id : Text
  skillId : Text
  versionNo : Nat
  contentHash : Text
  deriving DecidableEq

structure OrgBlob where
  contentHash : Text
  sizeBytes : Nat
  deriving DecidableEq

/-- A blob under its key. A presigned upload may put any bytes there. -/
structure Blob where
  sha : Text
  bytes : Bytes
  lastModified : Option Instant
  deriving DecidableEq

structure ManifestTarget where
  sha256 : Text
  contentType : Text
  size : Nat
  deriving DecidableEq

inductive ManifestKey where
  | site (siteId versionId : Text)
  | skill (skillId versionId : Text)
  deriving DecidableEq

def ManifestKey.versionId : ManifestKey → Text
  | .site _ versionId => versionId
  | .skill _ versionId => versionId

/-- The files are told apart by their paths. -/
structure Manifest where
  key : ManifestKey
  files : List (Text × ManifestTarget)
  deriving DecidableEq

structure OrgStorage where
  planTier : Text
  skillsSeeded : Bool
  sites : Table SiteRow.id
  siteVersions : Table VersionRow.id
  skills : Table SkillRow.id
  skillVersions : Table SkillVersionRow.id
  orgBlobs : Table OrgBlob.contentHash
  storageBytes : Nat
  blobs : Table Blob.sha
  manifests : Table Manifest.key

namespace OrgStorage

variable (org : OrgStorage)

/-- The authoritative sum that the counter is to agree with. -/
def ledgerSum : Nat := (org.orgBlobs.rows.map OrgBlob.sizeBytes).sum

def getSiteVersionByContentHash (siteId contentHash : Text) : Option VersionRow :=
  org.siteVersions.rows.find? fun row => row.siteId = siteId ∧ row.contentHash = contentHash

def versionNos (siteId : Text) : List Nat :=
  (org.siteVersions.filter fun row => row.siteId = siteId).map VersionRow.versionNo

def nextVersionNo (siteId : Text) : Nat := (org.versionNos siteId).foldr max 0 + 1

/-- The row violates one of the site's unique keys. -/
def versionConflict (row : VersionRow) : Bool :=
  org.siteVersions.rows.any fun other => decide (other.siteId = row.siteId ∧
    (other.contentHash = row.contentHash ∨ other.versionNo = row.versionNo))

/-- The ids that rows have, and those that manifests of deleted rows are left of. -/
def ids : List Text :=
  org.siteVersions.rows.map VersionRow.id ++ org.skillVersions.rows.map SkillVersionRow.id ++
    org.skills.rows.map SkillRow.id ++ org.manifests.rows.map fun manifest => manifest.key.versionId

def getSkillBySlug (slug : Text) : Option SkillRow := org.skills.rows.find? fun skill => skill.slug = slug

def getSkillVersionByContentHash (skillId contentHash : Text) : Option SkillVersionRow :=
  org.skillVersions.rows.find? fun row => row.skillId = skillId ∧ row.contentHash = contentHash

def skillVersionConflict (row : SkillVersionRow) : Bool :=
  org.skillVersions.rows.any fun other => decide (other.skillId = row.skillId ∧
    other.versionNo = row.versionNo)

variable {org}

theorem mem_ids {id : Text} : id ∈ org.ids ↔
    (((∃ row ∈ org.siteVersions.rows, row.id = id) ∨ ∃ row ∈ org.skillVersions.rows, row.id = id) ∨
      ∃ skill ∈ org.skills.rows, skill.id = id) ∨
        ∃ manifest ∈ org.manifests.rows, manifest.key.versionId = id := by
  simp only [ids, List.mem_append, List.mem_map]

theorem siteVersion_undrawn {id : Text} (undrawn : id ∉ org.ids) : org.siteVersions.get? id = none :=
  Table.get?_eq_none.mpr fun row mem same => undrawn (mem_ids.mpr (.inl (.inl (.inl ⟨row, mem, same⟩))))

theorem manifest_undrawn {key : ManifestKey} (undrawn : key.versionId ∉ org.ids) :
    org.manifests.get? key = none :=
  Table.get?_eq_none.mpr fun manifest mem same =>
    undrawn (mem_ids.mpr (.inr ⟨manifest, mem, same ▸ rfl⟩))

end OrgStorage

/-- What a statement changes, or a call to the object store. -/
inductive Change where
  | storageQuota
  | skillsSeed
  | orgBlob (row : OrgBlob)
  | dropOrgBlob (sha : Text)
  | addStorage (delta : Nat)
  | subStorage (delta : Nat)
  | siteVersion (row : VersionRow)
  | currentVersion (siteId versionId : Text)
  | previewExpiry (versionId : Text) (expiresAt : Option Timestamptz)
  | skill (row : SkillRow)
  | skillVersion (row : SkillVersionRow)
  | currentSkillVersion (skillId versionId : Text)
  | seeded
  | putBlob (blob : Blob)
  | deleteBlob (sha : Text)
  | putManifest (manifest : Manifest)

def Change.apply (org : OrgStorage) : Change → OrgStorage
  | .storageQuota => org
  | .skillsSeed => org
  | .orgBlob row => { org with orgBlobs := org.orgBlobs.upsert row id }
  | .dropOrgBlob sha => { org with orgBlobs := org.orgBlobs.delete fun row => row.contentHash = sha }
  | .addStorage delta => { org with storageBytes := org.storageBytes + delta }
  -- The floor at zero is the one of natural numbers.
  | .subStorage delta => { org with storageBytes := org.storageBytes - delta }
  | .siteVersion row => { org with siteVersions := org.siteVersions.upsert row id }
  | .currentVersion siteId versionId =>
    { org with sites := org.sites.update (fun site => site.id = siteId) fun site =>
        { site with currentVersionId := some versionId } }
  | .previewExpiry versionId expiresAt =>
    { org with siteVersions := org.siteVersions.update (fun row => row.id = versionId) fun row =>
        { row with previewExpiresAt := expiresAt } }
  | .skill row => { org with skills := org.skills.upsert row id }
  | .skillVersion row => { org with skillVersions := org.skillVersions.upsert row id }
  | .currentSkillVersion skillId versionId =>
    { org with skills := org.skills.update (fun skill => skill.id = skillId) fun skill =>
        { skill with currentVersionId := some versionId } }
  | .seeded => { org with skillsSeeded := true }
  | .putBlob blob => { org with blobs := org.blobs.upsert blob fun old => { blob with sha := old.sha } }
  | .deleteBlob sha => { org with blobs := org.blobs.delete fun blob => blob.sha = sha }
  | .putManifest manifest =>
    { org with manifests := org.manifests.upsert manifest fun old => { manifest with key := old.key } }

/-- The advisory locks, and what a write locks until its transaction ends: a row,
or the unique keys it takes. -/
inductive LockKey where
  | storageQuota
  | skillsSeed
  | usage
  | orgMeta
  | orgBlob (sha : Text)
  | version (id : Text)
  | versionHash (siteId contentHash : Text)
  | versionNo (siteId : Text) (versionNo : Nat)
  | site (id : Text)
  | skill (id : Text)
  | skillSlug (slug : Text)
  | skillVersion (id : Text)
  | skillVersionHash (skillId contentHash : Text)
  | skillVersionNo (skillId : Text) (versionNo : Nat)
  deriving DecidableEq

def Change.locks : Change → List LockKey
  | .storageQuota => [.storageQuota]
  | .skillsSeed => [.skillsSeed]
  | .orgBlob row => [.orgBlob row.contentHash]
  | .dropOrgBlob sha => [.orgBlob sha]
  | .addStorage _ => [.usage]
  | .subStorage _ => [.usage]
  | .siteVersion row =>
    [.version row.id, .versionHash row.siteId row.contentHash, .versionNo row.siteId row.versionNo]
  | .currentVersion siteId _ => [.site siteId]
  | .previewExpiry versionId _ => [.version versionId]
  | .skill row => [.skill row.id, .skillSlug row.slug]
  | .skillVersion row =>
    [.skillVersion row.id, .skillVersionHash row.skillId row.contentHash,
      .skillVersionNo row.skillId row.versionNo]
  | .currentSkillVersion skillId _ => [.skill skillId]
  | .seeded => [.orgMeta]
  | .putBlob _ => []
  | .deleteBlob _ => []
  | .putManifest _ => []

end Dropway.Api
