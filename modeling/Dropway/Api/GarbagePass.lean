import Dropway.Api.Collection
import Dropway.Lib.JsonRead

/-! The part of the garbage collection that works on the bucket, with what may fail in it
(store/gc.go, gcCollectAndDelete). -/

namespace Dropway.Api
open Lib

def gcFile : Doc → Option Text
  | .null => some []
  | .obj members => decodeOver "sha256" textOver [] members
  | _ => none

/-- The entries that a value of `files` adds to those that are there. -/
def gcFiles (files : List (Text × Text)) : Doc → Option (List (Text × Text))
  | .null => some []
  | .obj entries =>
    (entries.mapM fun entry => (gcFile entry.2).map fun sha => (goText entry.1, sha)).map (files ++ ·)
  | _ => none

def gcManifest : Doc → Option (List (Text × Text))
  | .null => some []
  | .obj members =>
    (decodeOver "files" gcFiles [] members).map (lastOfEach Prod.fst)
  | _ => none

/-- json.Unmarshal into a gcManifest: one value and nothing behind it. -/
def unmarshalGcManifest (body : Bytes) : Option (List (Text × Text)) :=
  (goDecode body).bind fun read =>
    if JsonText.skipSpace read.2 = [] then gcManifest read.1 else none

inductive GetError where
  | notFound
  | failed
  deriving DecidableEq

/-- A zero last-modified time is `none`. -/
structure BlobInfo where
  sha : Text
  lastModified : Option Instant
  deriving DecidableEq

/-- A deletion that fails may still have removed the blob. -/
inductive Deletion where
  | done
  | failed (removed : Bool)
  deriving DecidableEq

/-- The object store as a pass meets it; deletions are numbered. -/
structure Bucket where
  getManifest : ManifestKey → Except GetError Bytes
  listBlobInfos : Option (List BlobInfo)
  deleteBlob : Nat → Text → Deletion

inductive GCError where
  | readManifest (key : ManifestKey)
  | parseManifest (key : ManifestKey)
  | listBlobs
  | deleteBlob (sha : Text)
  deriving DecidableEq

structure GCResult where
  orgId : Text
  retainedVersions : Nat
  referencedBlobs : Nat := 0
  scannedBlobs : Nat := 0
  orphans : List Text := []
  skippedFresh : Nat := 0
  deleted : Nat := 0

/-- What a pass returns, and the blobs that are gone after it. -/
structure GCPass where
  result : GCResult
  error : Option GCError := none
  removed : List Text := []

namespace Bucket

variable (bucket : Bucket)

/-- A manifest that is missing refers to no blob. -/
def collectRefs (referenced : List Text) : List ManifestKey → Except GCError (List Text)
  | [] => .ok referenced
  | key :: keys =>
    match bucket.getManifest key with
    | .error .notFound => collectRefs referenced keys
    | .error .failed => .error (.readManifest key)
    | .ok body =>
      match unmarshalGcManifest body with
      | none => .error (.parseManifest key)
      | some files => collectRefs (referenced ++ (files.map Prod.snd).filter (· ≠ [])) keys

def deleteBlobs (number : Nat) : List Text → List Text × Nat × Option GCError
  | [] => ([], 0, none)
  | sha :: rest =>
    match bucket.deleteBlob number sha with
    | .done =>
      let later := deleteBlobs (number + 1) rest
      (sha :: later.1, later.2.1 + 1, later.2.2)
    | .failed removed => (if removed then [sha] else [], 0, some (.deleteBlob sha))

end Bucket

/-- Before the cutoff, or of no known time. -/
def BlobInfo.old (policy : GCPolicy) (now : Instant) (info : BlobInfo) : Bool :=
  info.lastModified.all fun modified => decide (modified < now - policy.effectiveMinAge)

def gcCollectAndDelete (bucket : Bucket) (orgId : Text) (retained : List GCRow)
    (skillRetained : List (Text × Option Text)) (policy : GCPolicy) (now : Instant) : GCPass :=
  let result : GCResult := { orgId, retainedVersions := retained.length + skillRetained.length }
  let keys := retained.map GCRow.key ++
    skillRetained.filterMap fun skill => skill.2.map (ManifestKey.skill skill.1)
  match bucket.collectRefs [] keys with
  | .error error => { result, error := some error }
  | .ok referenced =>
    let result := { result with referencedBlobs := referenced.dedup.length }
    match bucket.listBlobInfos with
    | none => { result, error := some .listBlobs }
    | some infos =>
      let unreferenced := infos.filter fun info => !referenced.contains info.sha
      let orphans := ((unreferenced.filter (BlobInfo.old policy now)).map BlobInfo.sha).insertionSort
        fun one two => one ≤ two
      let result := { result with
        scannedBlobs := infos.length
        orphans
        skippedFresh := (unreferenced.filter fun info => !info.old policy now).length }
      if policy.dryRun then { result }
      else
        let run := bucket.deleteBlobs 0 orphans
        { result := { result with deleted := run.2.1 }, error := run.2.2, removed := run.1 }

end Dropway.Api
