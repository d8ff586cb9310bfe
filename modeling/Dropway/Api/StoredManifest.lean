import Dropway.Api.Storage
import Dropway.Projection.Contract

/-! The manifest that a finalize stores, as JSON (internal/manifest). -/

namespace Dropway.Api
open Lib
open Projection (member)

def manifestSchemaVersion : Nat := 1

def textMember (name : String) (value : Text) : List Glyph × Doc := member name (.str (value.map .char))

/-- `manifest.Target`. An empty content type is left out. -/
def ManifestTarget.doc (target : ManifestTarget) : Doc :=
  .obj (textMember "sha256" target.sha256 ::
    (if target.contentType = [] then [] else [textMember "content_type" target.contentType]) ++
    [member "size" (.num (JsonText.decimal target.size))])

def fileMember (file : Text × ManifestTarget) : List Glyph × Doc := (file.1.map .char, file.2.doc)

/-- `manifest.Stored`. The files of a map are written in the order of their paths. -/
def storedDoc (files : List (Text × ManifestTarget)) : Doc :=
  .obj [member "schema_version" (.num (JsonText.decimal manifestSchemaVersion)),
    member "files" (.obj (files.map fileMember))]

/-- The body that PutManifest is handed. -/
def storedManifest (files : List (Text × ManifestTarget)) : Bytes :=
  Utf8.encode (JsonText.write (storedDoc files))

end Dropway.Api
