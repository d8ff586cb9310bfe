import Dropway.Api.Download
import Dropway.Lib.JsonRead
import Dropway.Lib.JsonIndent

/-! `dropway skills pull` into one folder, and the manifest that `push` builds of it
(cli/internal/cmd/skills.go, cli/internal/manifest/manifest.go). -/

namespace Dropway.Cli
open Lib Lib.Outcome Api

/-! ### The disk -/

inductive Node where
  | dir
  | file (bytes : Bytes)
  deriving DecidableEq

/-- An entry of the folder dest/slug, which is itself at the empty path. -/
structure DiskEntry where
  path : List Text
  node : Node
  deriving DecidableEq

abbrev Disk := Table DiskEntry.path

inductive FsError where
  | notDirectory (path : List Text)
  | isDirectory (path : List Text)
  | notExist (path : List Text)
  deriving DecidableEq

def Disk.node? (disk : Disk) (path : List Text) : Option Node := (disk.get? path).map DiskEntry.node

def Disk.file? (disk : Disk) (path : List Text) : Option Bytes :=
  match disk.node? path with
  | some (.file bytes) => some bytes
  | _ => none

private theorem node_path (node : Node) (entry : DiskEntry) : ({ entry with node } : DiskEntry).path = entry.path := rfl

def Disk.put (disk : Disk) (path : List Text) (node : Node) : Disk :=
  disk.upsert ⟨path, node⟩ (fun entry => { entry with node }) (node_path node)

def Disk.makeDir (disk : Disk) (path : List Text) : Except FsError Disk :=
  match disk.node? path with
  | some .dir => .ok disk
  | some (.file _) => .error (.notDirectory path)
  | none => .ok (disk.put path .dir)

/-- `os.MkdirAll`: a directory and all that it lies in, from the outermost in. -/
def Disk.mkdirAll (disk : Disk) (path : List Text) : Except FsError Disk :=
  path.inits.foldlM Disk.makeDir disk

/-- `os.WriteFile` -/
def Disk.writeFile (disk : Disk) (path : List Text) (bytes : Bytes) : Except FsError Disk :=
  match disk.node? path.dropLast, disk.node? path with
  | some .dir, some .dir => .error (.isDirectory path)
  | some .dir, _ => .ok (disk.put path (.file bytes))
  | _, _ => .error (.notExist path.dropLast)

/-- The regular files, by their paths relative to the folder. -/
def Disk.regular (disk : Disk) : List (Text × Bytes) :=
  disk.rows.filterMap fun entry =>
    match entry.node with
    | .dir => none
    | .file bytes => some (['/'].intercalate entry.path, bytes)

/-! ### The record of a pull -/

def skillRecordFile : Text := ".dropway.json".toList

structure SkillRecord where
  slug : Text
  skillId : Text
  version : Int
  deriving DecidableEq

def intText (n : Int) : Text :=
  if n < 0 then '-' :: JsonText.decimal n.natAbs else JsonText.decimal n.natAbs

def SkillRecord.members (record : SkillRecord) : List (List Glyph × Doc) :=
  [("slug".toList.map .char, .str (record.slug.map .char)),
    ("skill_id".toList.map .char, .str (record.skillId.map .char)),
    ("version".toList.map .char, .num (intText record.version))]

def SkillRecord.body (record : SkillRecord) : Bytes :=
  Utf8.encode (JsonText.writeLines record.members ++ ['\n'])

def writeSkillRecord (disk : Disk) (record : SkillRecord) : Except FsError Disk :=
  disk.writeFile [skillRecordFile] record.body

def int32Over (value : Int) : Doc → Option Int
  | .null => some value
  | .num literal => (parseInt64 literal).filter fun n => -2 ^ 31 ≤ n ∧ n < 2 ^ 31
  | _ => none

def decodeSkillRecord : Doc → Option SkillRecord
  | .null => some ⟨[], [], 0⟩
  | .obj members => do
    let slug ← decodeOver "slug" textOver [] members
    let skillId ← decodeOver "skill_id" textOver [] members
    let version ← decodeOver "version" int32Over 0 members
    return ⟨slug, skillId, version⟩
  | _ => none

def readSkillRecord (disk : Disk) : Option SkillRecord := do
  let body ← disk.file? [skillRecordFile]
  let record ← (JsonText.parse (Utf8.runeText body)).bind decodeSkillRecord
  if record.slug = [] then none else some record

/-! ### Pulling -/

inductive PullError where
  | client (error : Text)
  | unsafePath (path : Text)
  | decode (path error : Text)
  | fs (error : FsError)
  deriving DecidableEq

def safeSkillPath (path : Text) : Except PullError Unit :=
  require (Skillspec.cleanPath path = true) (.unsafePath path)

/-- Where a clean path lies in the folder. -/
def target (path : Text) : List Text := path.splitOn '/'

/-- One round of the loop of writeSkillFiles. -/
def writeSkillFile (disk : Disk) (f : SkillFilePayload) : Except PullError Disk := do
  safeSkillPath f.path
  let data ← (decodeSkillFile f.encoding f.content).mapError (PullError.decode f.path)
  let disk ← (disk.mkdirAll (target f.path).dropLast).mapError PullError.fs
  (disk.writeFile (target f.path) data).mapError PullError.fs

def writeSkillFiles (disk : Disk) (skillSlug : Text) (files : List SkillFilePayload) : Except PullError Disk := do
  safeSkillPath skillSlug
  files.foldlM writeSkillFile disk

/-- The download is what the API answered to findSkillBySlug and DownloadSkill. -/
def pullSkill (disk : Disk) (download : Except Text SkillDownloadPayload) : Except PullError Disk := do
  let dl ← download.mapError PullError.client
  let disk ← writeSkillFiles disk dl.slug dl.files
  (writeSkillRecord disk ⟨dl.slug, dl.skillId, dl.version⟩).mapError PullError.fs

/-! ### Pushing -/

def entry (hash : Sha256) (file : Text × Bytes) : ManifestFile := ⟨file.1, hash file.2, file.2.length, []⟩

structure BuiltManifest where
  files : List ManifestFile
  digest : Text
  totalSize : Int
  deriving DecidableEq

/-- `manifest.Build`. The walk comes to every regular file below the root, and what it
finds is sorted. -/
def build (hash : Sha256) (disk : Disk) : Except FsError BuiltManifest :=
  match disk.node? [] with
  | some .dir =>
    let files := (disk.regular.map (entry hash)).insertionSort ManifestFile.PathLe
    .ok ⟨files, digest hash files, (files.map ManifestFile.size).sum⟩
  | some (.file _) => .error (.notDirectory [])
  | none => .error (.notExist [])

end Dropway.Cli
