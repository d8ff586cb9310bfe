import Dropway.Edge.Route

/-! The deploy manifest and the resolution of a cleaned path against it
(edge/serving-worker/src/manifest.ts). `files` is a plain object of the source,
so a lookup also finds what the object inherits. -/

namespace Dropway.Edge
open Lib

structure ManifestEntry where
  sha256 : Text
  contentType : String
  size : Option Rat
  deriving DecidableEq

/-- `files[path] = entry` sets an own property, except that `__proto__` sets
the prototype. -/
structure Files where
  own : List (Text × ManifestEntry) := []
  proto : Option ManifestEntry := none

structure Manifest where
  schemaVersion : Nat
  files : Files

def supportedManifestSchemaVersion : Nat := 1

def isSha256 (text : Text) : Bool :=
  text.length = 64 && text.all fun c => ('0' ≤ c && c ≤ '9') || ('a' ≤ c && c ≤ 'f')

def manifestKey (route : RouteValue) : Text :=
  "manifests/".toList ++ route.orgId.text ++ "/".toList ++ route.siteId.text ++ "/".toList ++
    route.versionId.text ++ ".json".toList

def blobKey (orgId : Uuid) (sha256 : Text) : Text :=
  "blobs/".toList ++ orgId.text ++ "/".toList ++ sha256

def entrySize : Option Json → Option Rat
  | some (.num size) => if 0 ≤ size then some size else none
  | _ => none

def parseEntry : Json → Option ManifestEntry
  | .obj members => do
    let .str sha256 ← Json.member members "sha256" | none
    if !isSha256 sha256.toList then none
    let .str contentType ← Json.member members "content_type" | none
    if contentType = "" then none
    return { sha256 := sha256.toList, contentType, size := entrySize (Json.member members "size") }
  | _ => none

def Files.set (files : Files) (path : Text) (entry : ManifestEntry) : Files :=
  if path = "__proto__".toList then { files with proto := some entry }
  else { files with own := files.own.filter (·.1 ≠ path) ++ [(path, entry)] }

def parseFiles : List (String × Json) → Option Files
  | [] => some {}
  | members => members.foldlM (fun files (path, rawEntry) =>
      (parseEntry rawEntry).map (files.set path.toList ·)) {}

def parseManifest : Json → Option Manifest
  | .obj members => do
    let .num version ← Json.member members "schema_version" | none
    if version ≠ supportedManifestSchemaVersion then none
    let .obj rawFiles ← Json.member members "files" | none
    let files ← parseFiles rawFiles
    return { schemaVersion := supportedManifestSchemaVersion, files }
  | _ => none

/-- What a lookup in `files` gives. An inherited value is no entry: each of its
three fields reads as `undefined`. -/
inductive Slot where
  | entry (entry : ManifestEntry)
  | inherited
  deriving DecidableEq

namespace Slot

def sha256 : Slot → Text
  | entry e => e.sha256
  | inherited => "undefined".toList

def contentType : Slot → Option String
  | entry e => some e.contentType
  | inherited => none

def size : Slot → Option Rat
  | entry e => e.size
  | inherited => none

end Slot

/-- The names every plain object inherits. -/
def objectPrototype : List Text :=
  ["constructor", "__defineGetter__", "__defineSetter__", "hasOwnProperty", "__lookupGetter__",
    "__lookupSetter__", "isPrototypeOf", "propertyIsEnumerable", "toString", "valueOf", "__proto__",
    "toLocaleString"].map String.toList

/-- The names a manifest entry has when it is the prototype. -/
def ManifestEntry.fields (entry : ManifestEntry) : List Text :=
  ["sha256", "content_type"].map String.toList ++ if entry.size.isSome then ["size".toList] else []

def Files.get (files : Files) (path : Text) : Option Slot :=
  match files.own.find? (·.1 = path), files.proto with
  | some (_, entry), _ => some (.entry entry)
  | none, some proto =>
    if path = "__proto__".toList then some (.entry proto)
    else if path ∈ proto.fields ∨ path ∈ objectPrototype then some .inherited else none
  | none, none => if path ∈ objectPrototype then some .inherited else none

/-- True if the final segment carries a file extension. -/
def hasExtension (cleanRelPath : Text) : Bool :=
  let last := (cleanRelPath.splitOn '/').getLastD []
  let name := last.reverse.dropWhile (· ≠ '.')
  -- the last dot is neither the first nor the last character of the segment
  '.' ∈ last && 1 < name.length && last.getLast? ≠ some '.'

def candidatePaths (cleanRelPath : Text) : List Text :=
  if cleanRelPath = [] ∨ cleanRelPath.getLast? = some '/' then
    [cleanRelPath ++ "index.html".toList]
  else if hasExtension cleanRelPath then [cleanRelPath]
  else [cleanRelPath, cleanRelPath ++ "/index.html".toList, cleanRelPath ++ ".html".toList]

def resolveManifestEntry (manifest : Manifest) (cleanRelPath : Text) : Option (Text × Slot) :=
  (candidatePaths cleanRelPath).findSome? fun candidate =>
    (manifest.files.get candidate).map fun slot => (candidate, slot)

def notFoundPath : Text := "404.html".toList

end Dropway.Edge
