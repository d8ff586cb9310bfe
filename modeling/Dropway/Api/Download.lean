import Dropway.Api.Uploads
import Dropway.Lib.Base64
import Dropway.Lib.Runes
import Dropway.Skillspec.Frontmatter
import Dropway.Skillspec.Validate

/-! The files of a live version as the API hands them out: a skill, a file of a site and
a site (handlers/skill_uploads.go, handlers/site_files.go), and how a client reads one
(cli/internal/cmd/skills.go). -/

namespace Dropway.Api
open Lib

/-! ### Blobs -/

inductive StreamEnd where
  | eof
  | broken
  deriving DecidableEq

/-- What the reads of a blob's body give, up to the first that reports an error. The
last read may give bytes too. -/
inductive BlobStream where
  | chunk (bytes : Bytes) (rest : BlobStream)
  | stop (bytes : Bytes) (reason : StreamEnd)

def BlobStream.delivered : BlobStream → Bytes
  | .chunk bytes rest => bytes ++ rest.delivered
  | .stop bytes _ => bytes

def BlobStream.reason : BlobStream → StreamEnd
  | .chunk _ rest => rest.reason
  | .stop _ reason => reason

inductive DownloadError where
  | store (error : StoreError)
  | objects
  | noContent (slug : Text)
  | missingPath
  | notFound
  | fileTooLarge (path : Text) (size : Nat)
  deriving DecidableEq

/-- The files of a stored manifest: a map, so no two of them have the same path. -/
abbrev FileMap := Table (Prod.fst : Text × ManifestTarget → Text)

/-- The object store as one request meets it. The request reads the blob of a path once,
so what it is given may depend on the path as well. -/
structure Objects where
  getManifest : (versionId : Text) → Except DownloadError FileMap
  getBlob : (path sha : Text) → Except DownloadError BlobStream

/-- How many bytes the loop takes of a read. -/
def takes (limit total n : Nat) : Nat := if limit < total + n then limit - total else n

/-- Any error ends the loop, and what was read so far is its result. -/
def readLoop (limit : Nat) : Bytes → Nat → BlobStream → Bytes
  | buf, total, .chunk bytes rest =>
    if total < limit then
      let take := takes limit total bytes.length
      readLoop limit (buf ++ bytes.take take) (total + take) rest
    else buf
  | buf, total, .stop bytes _ =>
    if total < limit then buf ++ bytes.take (takes limit total bytes.length) else buf

def Objects.readBlobBounded (objects : Objects) (path sha : Text) (limit : Nat) : Except DownloadError Bytes := do
  let stream ← objects.getBlob path sha
  return readLoop limit [] 0 stream

/-- What finalize takes of the SKILL.md for the skill's title and description. -/
def Objects.frontmatter (objects : Objects) (files : FileMap) : Skillspec.Frontmatter :=
  match files.get? Skillspec.skillMD with
  | none => {}
  | some (path, target) =>
    match objects.readBlobBounded path target.sha256 Skillspec.maxFrontmatterBytes with
    | .ok body => Skillspec.parseFrontmatter body
    | .error _ => {}

def encodingUtf8 : Text := "utf8".toList
def encodingBase64 : Text := "base64".toList

def containsNUL (bytes : Bytes) : Bool := bytes.contains 0

def encodeFileContent (bytes : Bytes) : Text × Text :=
  if Utf8.Valid bytes ∧ containsNUL bytes = false then (Utf8.runeText bytes, encodingUtf8)
  else (Base64.encode bytes, encodingBase64)

/-! ### The handlers -/

/-- What the database tells of a skill or a site. -/
structure Live where
  id : Text
  slug : Text
  version : Nat
  currentVersionId : Option Text

/-- The manifest of the live version: skillManifestFiles and siteManifestFiles. -/
def Objects.manifestFiles (objects : Objects) (live : Live) : Except DownloadError FileMap :=
  match live.currentVersionId with
  | none => .error (.noContent live.slug)
  | some versionId => objects.getManifest versionId

def PathLe (one two : Text × ManifestTarget) : Prop := one.1 ≤ two.1

instance : DecidableRel PathLe := fun one two => inferInstanceAs (Decidable (one.1 ≤ two.1))

/-- The files in the order of their paths. -/
def FileMap.sorted (files : FileMap) : List (Text × ManifestTarget) := files.rows.insertionSort PathLe

structure SkillFilePayload where
  path : Text
  content : Text
  encoding : Text
  deriving DecidableEq

structure SkillDownloadPayload where
  slug : Text
  skillId : Text
  version : Nat
  files : List SkillFilePayload
  deriving DecidableEq

/-- The loop of downloadSkillPayload; `total` goes to the budget of a bulk download. -/
def skillPayloads (objects : Objects) (total : Nat) :
    List (Text × ManifestTarget) → Except DownloadError (List SkillFilePayload × Nat)
  | [] => return ([], total)
  | (path, target) :: rest => do
    let body ← objects.readBlobBounded path target.sha256 Skillspec.maxTotalBytes
    let encoded := encodeFileContent body
    let more ← skillPayloads objects (total + body.length) rest
    return (⟨path, encoded.1, encoded.2⟩ :: more.1, more.2)

def downloadSkillPayload (objects : Objects) (skill : Live) : Except DownloadError (SkillDownloadPayload × Nat) := do
  let files ← objects.manifestFiles skill
  let payloads ← skillPayloads objects 0 files.sorted
  return (⟨skill.slug, skill.id, skill.version, payloads.1⟩, payloads.2)

def downloadSkill (objects : Objects) (skill : Except StoreError Live) :
    Except DownloadError SkillDownloadPayload := do
  let skill ← skill.mapError DownloadError.store
  let payload ← downloadSkillPayload objects skill
  return payload.1

def siteContentMaxBytes : Nat := 10 * 2 ^ 20

structure SiteFilePayload where
  path : Text
  content : Text
  encoding : Text
  contentType : Text
  size : Nat
  deriving DecidableEq

def sitePayload (path : Text) (target : ManifestTarget) (body : Bytes) : SiteFilePayload :=
  let encoded := encodeFileContent body
  ⟨path, encoded.1, encoded.2, target.contentType, body.length⟩

def readSiteFile (objects : Objects) (site : Except StoreError Live) (path : Text) :
    Except DownloadError SiteFilePayload := do
  if path = [] then throw .missingPath
  let site ← site.mapError DownloadError.store
  let files ← objects.manifestFiles site
  match files.get? path with
  | none => throw .notFound
  | some (_, target) =>
    if siteContentMaxBytes < target.size then throw (.fileTooLarge path target.size)
    let body ← objects.readBlobBounded path target.sha256 siteContentMaxBytes
    return sitePayload path target body

structure SiteDownloadResponse where
  slug : Text
  siteId : Text
  files : List SiteFilePayload
  truncated : Bool
  deriving DecidableEq

/-- The loop of DownloadSite: the files that it inlines, and whether it left some out. -/
def sitePayloads (objects : Objects) (total : Nat) :
    List (Text × ManifestTarget) → Except DownloadError (List SiteFilePayload × Bool)
  | [] => return ([], false)
  | (path, target) :: rest =>
    if siteContentMaxBytes < total + target.size then return ([], true)
    else do
      let body ← objects.readBlobBounded path target.sha256 siteContentMaxBytes
      let more ← sitePayloads objects (total + body.length) rest
      return (sitePayload path target body :: more.1, more.2)

def downloadSite (objects : Objects) (site : Except StoreError Live) : Except DownloadError SiteDownloadResponse := do
  let site ← site.mapError DownloadError.store
  let files ← objects.manifestFiles site
  let payloads ← sitePayloads objects 0 files.sorted
  return ⟨site.slug, site.id, payloads.1, payloads.2⟩

/-! ### The client -/

def decodeSkillFile (encoding content : Text) : Except Text Bytes :=
  if encoding = [] ∨ encoding = encodingUtf8 then .ok (Utf8.encode content)
  else if encoding = encodingBase64 then
    match Base64.decode content with
    | some bytes => .ok bytes
    | none => .error "illegal base64 data".toList
  else .error ("unknown encoding ".toList ++ encoding)

end Dropway.Api
