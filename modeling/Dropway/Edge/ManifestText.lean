import Dropway.Edge.Manifest
import Dropway.Lib.JsonRead

/-! The manifest as the Worker reads it from its text, in which a path need not
be text and may occur twice. -/

namespace Dropway.Edge
open Lib

def plainChar : Glyph → Option Char
  | .char c => some c
  | _ => none

/-- A name with half of a surrogate pair is no path that a request asks for. -/
def pathOf (name : List Glyph) : Option Text := (jsName name).mapM plainChar

def Files.assign (files : Files) (name : List Glyph) (entry : ManifestEntry) : Files :=
  match pathOf name with
  | some path => files.set path entry
  | none => files

/-- The object at `files`. -/
def rawFiles (members : List (List Glyph × Doc)) : Option (List (List Glyph × Doc)) :=
  match Doc.own members "files".toList with
  | some (.obj files) => some files
  | _ => none

def parseRawFiles (files : List (List Glyph × Doc)) : Option Files :=
  (lastOfEach (fun member => jsName member.1) files).foldlM (fun files member =>
    (parseEntry member.2.value).map (files.assign member.1)) {}

def parseManifestText : Doc → Option Manifest
  | .obj members => do
    let .num literal ← Doc.own members "schema_version".toList | none
    if JsonText.nearestDouble (JsonText.literalValue literal) ≠ some supportedManifestSchemaVersion then none
    let files ← parseRawFiles (← rawFiles members)
    return { schemaVersion := supportedManifestSchemaVersion, files }
  | _ => none

/-- The stored object, read as JSON. -/
def readManifest (stored : Bytes) : Option Manifest :=
  (JsonText.parse (Utf8.decode stored)).bind parseManifestText

end Dropway.Edge
