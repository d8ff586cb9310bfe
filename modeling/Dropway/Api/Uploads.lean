import Dropway.Api.Deploys
import Mathlib.Data.List.Sort

/-! FinalizeDeployment and Publish as an org's storage sees them, and the uploads
of its clients (handlers/deployments.go, handlers/uploads_shared.go). -/

namespace Dropway.Api
open Lib

/-- The lowercase hex digits of the SHA-256 of some bytes. -/
abbrev Sha256 := Bytes → Text

structure ManifestFile where
  path : Text
  sha256 : Text
  size : Int
  contentType : Text
  deriving DecidableEq

def isHexDigit (c : Char) : Bool := decide ('0' ≤ c ∧ c ≤ '9') || decide ('a' ≤ c ∧ c ≤ 'f')

def validSHA256 (sha : Text) : Bool := decide (sha.length = 64) && sha.all isHexDigit

/-- The order of UTF-8 bytes is the order of code points. -/
def ManifestFile.PathLe (one two : ManifestFile) : Prop := one.path ≤ two.path

instance : DecidableRel ManifestFile.PathLe := fun one two => inferInstanceAs (Decidable (one.path ≤ two.path))

def digestLine (file : ManifestFile) : Text := file.sha256 ++ "  ".toList ++ file.path ++ ['\n']

/-- `manifest.Digest`. -/
def digest (hash : Sha256) (files : List ManifestFile) : Text :=
  hash (Utf8.encode ((files.insertionSort ManifestFile.PathLe).flatMap digestLine))

/-- Set one file of a manifest, whose files are in the order of their paths. -/
def putFile (path : Text) (target : ManifestTarget) :
    List (Text × ManifestTarget) → List (Text × ManifestTarget)
  | [] => [(path, target)]
  | entry :: rest =>
    if path = entry.1 then (path, target) :: rest
    else if path < entry.1 then (path, target) :: entry :: rest
    else entry :: putFile path target rest

inductive UploadError where
  | missingManifest
  | badDigest
  | digestMismatch
  | badSHA256 (sha : Text)
  | notUploaded (sha : Text)
  | hashMismatch (sha : Text)
  | sizeMismatch (path : Text)
  | objects
  | store (error : StoreError)
  deriving DecidableEq

/-- The stored bytes have to hash to their key. -/
def verifyBlob (hash : Sha256) (org : OrgStorage) (sha : Text) : Except UploadError Nat :=
  match org.blobs.get? sha with
  | none => .error (.notUploaded sha)
  | some blob => if hash blob.bytes = sha then .ok blob.bytes.length else .error (.hashMismatch sha)

structure FinalizeRequest where
  siteId : Text
  manifest : List ManifestFile
  digest : Text
  deriving DecidableEq

/-- What verifyManifest has found so far: the sizes of the blobs, in the order
they were first met, and the files. -/
structure Verified where
  blobs : List BlobSize
  files : List (Text × ManifestTarget)
  deriving DecidableEq

def Verified.size (verified : Verified) (sha : Text) : Option Nat :=
  (verified.blobs.find? fun blob => blob.sha = sha).map BlobSize.size

/-- One round of verifyManifest's loop. -/
def Verified.add (hash : Sha256) (org : OrgStorage) (verified : Verified) (file : ManifestFile) :
    Except UploadError Verified := do
  if !validSHA256 file.sha256 then .error (.badSHA256 file.sha256)
  let known := verified.size file.sha256
  let observed ← match known with
    | some size => .ok size
    | none => verifyBlob hash org file.sha256
  if file.size ≠ observed then .error (.sizeMismatch file.path)
  return {
    blobs := if known.isSome then verified.blobs else verified.blobs ++ [⟨file.sha256, observed⟩]
    files := putFile file.path ⟨file.sha256, file.contentType, observed⟩ verified.files }

def FinalizeRequest.params (r : FinalizeRequest) (verified : Verified) : CreateSiteVersionParams where
  siteId := r.siteId
  contentHash := r.digest
  status := .ready
  blobs := verified.blobs

/-- Where a finalize of a caller who may edit the site is. -/
inductive Finalizing where
  | verifyManifest (r : FinalizeRequest)
  | verifyFiles (r : FinalizeRequest) (rest : List ManifestFile) (verified : Verified)
  | create (files : List (Text × ManifestTarget)) (creating : Creating)
  | putManifest (files : List (Text × ManifestTarget)) (version : VersionRow)
  | createPreview (version : VersionRow)
  | previewCommit (version : VersionRow)
  | finalized (version : VersionRow)
  | refused (error : UploadError)

def defaultPreviewTTL : Instant := 7 * 24 * 3600 * 1000000000

def Finalizing.next (hash : Sha256) (quota : StorageQuota) (input : Input) (position : Finalizing)
    (org : OrgStorage) : Option (Effect Change LockKey × Finalizing) :=
  match position with
  | .verifyManifest r =>
    if r.manifest = [] ∨ r.digest = [] then some (.read [], .refused .missingManifest)
    else if !validSHA256 r.digest then some (.read [], .refused .badDigest)
    else if digest hash r.manifest ≠ r.digest then some (.read [], .refused .digestMismatch)
    else some (.read [], .verifyFiles r r.manifest ⟨[], []⟩)
  | .verifyFiles r [] verified => some (.read [], .create verified.files (.getSite (r.params verified)))
  | .verifyFiles r (file :: rest) verified =>
    if input.fails then some (.read [], .refused .objects)
    else match verified.add hash org file with
      | .ok verified => some (.read [], .verifyFiles r rest verified)
      | .error error => some (.read [], .refused error)
  | .create files (.returned _ version) => some (.read [], .putManifest files version)
  | .create _ (.failed error) => some (.read [], .refused (.store error))
  | .create files creating =>
    (creating.next quota input org).map fun step => (step.1, .create files step.2)
  | .putManifest files version =>
    if input.fails then some (.read [], .refused .objects)
    else some (.outside (.putManifest ⟨.site version.siteId version.id, files⟩), .createPreview version)
  -- The preview is best effort.
  | .createPreview version =>
    if input.fails then some (.read [], .finalized version)
    else some (.write (.previewExpiry version.id
      (some (Timestamptz.ofTime (input.now + defaultPreviewTTL)))), .previewCommit version)
  | .previewCommit version => some (.commit, .finalized version)
  | .finalized _ => none
  | .refused _ => none

/-- Where a publish of a caller who may edit the site is. The host checks refuse
or let it through (`fails`). -/
inductive Publishing where
  | getSite (siteId versionId : Text)
  | getSiteVersion (siteId versionId : Text)
  | getHostRoute (siteId versionId : Text)
  | setCurrentVersion (siteId versionId : Text)
  | setVersionPreviewExpiry (siteId versionId : Text)
  | publishCommit (siteId versionId : Text)
  | published (siteId versionId : Text)
  | refused (error : StoreError)

def Publishing.next (input : Input) (position : Publishing) (org : OrgStorage) :
    Option (Effect Change LockKey × Publishing) :=
  match position with
  | .getSite siteId versionId =>
    if (org.sites.get? siteId).isSome then some (.read [], .getSiteVersion siteId versionId)
    else some (.rollback, .refused .notFound)
  | .getSiteVersion siteId versionId =>
    match org.siteVersions.get? versionId with
    | none => some (.rollback, .refused .notFound)
    | some version =>
      if version.siteId = siteId then some (.read [], .getHostRoute siteId versionId)
      else some (.rollback, .refused .versionMismatch)
  | .getHostRoute siteId versionId =>
    if input.fails then some (.rollback, .refused .hostTaken)
    else some (.read [], .setCurrentVersion siteId versionId)
  | .setCurrentVersion siteId versionId =>
    some (.write (.currentVersion siteId versionId), .setVersionPreviewExpiry siteId versionId)
  | .setVersionPreviewExpiry siteId versionId =>
    some (.write (.previewExpiry versionId none), .publishCommit siteId versionId)
  | .publishCommit siteId versionId => some (.commit, .published siteId versionId)
  | .published _ _ => none
  | .refused _ => none

end Dropway.Api
