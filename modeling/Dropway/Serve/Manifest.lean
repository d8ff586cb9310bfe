import Dropway.Lib.JsonRead

/-! The manifest as the Go server reads it, and the resolution of a cleaned path
(services/serve/internal/manifest/manifest.go). -/

namespace Dropway.Serve
open Lib

def supportedSchemaVersion : Int := 1

structure Entry where
  sha256 : Text
  contentType : Bytes
  size : Option Int
  deriving DecidableEq

structure Manifest where
  files : List (Text × Entry)

/-- What is left in a field after all members; `null` empties it, and a value of
another kind fails the decoding. -/
def decodeField {α : Type} (read : Doc → Option α) (members : List (List Glyph × Doc)) (field : String) :
    Option (Option α) :=
  (members.filter (names field)).foldlM (fun _ member =>
    match member.2 with
    | .null => some none
    | value => (read value).map some) none

def decodeString : Doc → Option (List Glyph)
  | .str value => some value
  | _ => none

/-- The members of a map are added to those that are there. -/
def decodeFiles (members : List (List Glyph × Doc)) : Option (Option (List (List Glyph × Doc))) :=
  (members.filter (names "files")).foldlM (fun files member =>
    match member.2 with
    | .null => some none
    | .obj more => some (some (files.getD [] ++ more))
    | _ => none) none

def isSha256 (text : Text) : Bool :=
  text.length = 64 && text.all fun c => ('0' ≤ c && c ≤ '9') || ('a' ≤ c && c ≤ 'f')

def parseEntry : Doc → Option Entry
  | .obj members => do
    let sha256 ← decodeField decodeString members "sha256"
    let contentType ← decodeField decodeString members "content_type"
    let size ← decodeField Doc.number members "size"
    let sha256 ← sha256
    if !isSha256 (goText sha256) then none
    let contentType ← contentType
    if goString contentType = [] then none
    return {
      sha256 := goText sha256
      contentType := goString contentType
      size := (size.bind parseInt64).filter fun n => decide (0 ≤ n) }
  | _ => none

def parseFiles (files : List (List Glyph × Doc)) : Option (List (Text × Entry)) :=
  (lastOfEach (fun member => goText member.1) files).mapM fun member =>
    (parseEntry member.2).map fun entry => (goText member.1, entry)

def decodeManifest : Doc → Option Manifest
  | .obj members => do
    let version ← decodeField Doc.number members "schema_version"
    let files ← decodeFiles members
    if parseInt64 (← version) ≠ some supportedSchemaVersion then none
    let files ← parseFiles (← files)
    return { files }
  | _ => none

/-- The decoder reads the first value of the text and no further. -/
def parse (raw : Bytes) : Option Manifest := (goDecode raw).bind fun read => decodeManifest read.1

def hasExtension (cleanRelPath : Bytes) : Bool :=
  let last := (cleanRelPath.splitOn 0x2F).getLastD []
  let name := last.reverse.dropWhile (· ≠ 0x2E)
  last.contains 0x2E && 1 < name.length && last.getLast? ≠ some 0x2E

def indexHtml : Bytes := Utf8.encode "index.html".toList

def candidatePaths (cleanRelPath : Bytes) : List Bytes :=
  if cleanRelPath = [] ∨ cleanRelPath.getLast? = some 0x2F then [cleanRelPath ++ indexHtml]
  else if hasExtension cleanRelPath then [cleanRelPath]
  else [cleanRelPath, cleanRelPath ++ 0x2F :: indexHtml, cleanRelPath ++ Utf8.encode ".html".toList]

def Manifest.get (manifest : Manifest) (path : Bytes) : Option Entry :=
  (manifest.files.find? fun file => Utf8.encode file.1 = path).map (·.2)

def Manifest.resolve (manifest : Manifest) (cleanRelPath : Bytes) : Option (Bytes × Entry) :=
  (candidatePaths cleanRelPath).findSome? fun candidate =>
    (manifest.get candidate).map fun entry => (candidate, entry)

end Dropway.Serve
