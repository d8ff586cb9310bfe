import Dropway.Lib.Calls
import Dropway.Lib.Table
import Dropway.Lib.Utf8

/-! The index of published content (internal/ai/memory_index.go, ReplaceContentChunks
of internal/store/memory.go). A publish makes a version current and then starts a
pass that reads the version, embeds its text and replaces the stored chunks. Memory
is enabled throughout. -/

namespace Dropway.Api
open Lib

structure IndexedFile where
  sha256 : Text
  size : Int
  deriving DecidableEq

/-- The files of a manifest are a map. -/
structure IndexManifest where
  files : List (Text × IndexedFile)
  distinct : (files.map Prod.fst).Nodup
  deriving DecidableEq

structure NewChunkInput (ε : Type) where
  path : Text
  chunkSeq : Nat
  content : Text
  embedding : ε
  deriving DecidableEq

/-- How a pass reads: the blobs by their hash, the pieces that the text of a file is
cut into, and the vector of a piece. -/
structure Indexing (ε : Type) where
  getBlob : Text → Option Bytes
  chunkText : Text → Bytes → List Text
  embed : Text → ε

def maxChunksPerSource : Nat := 200
def maxIndexFileBytes : Nat := 512 * 1024

/-- What follows the last dot of the last segment, with the dot. -/
def pathExt (path : Text) : Text :=
  let last := (path.splitOn '/').getLastD []
  if '.' ∈ last then '.' :: (last.reverse.takeWhile (· ≠ '.')).reverse else []

def indexableTextPath (path : Text) : Bool :=
  [".html".toList, ".htm".toList, ".md".toList, ".markdown".toList, ".txt".toList].contains
    (Text.lower (pathExt path))

section Pass

variable {ε : Type} (indexing : Indexing ε)

/-- A file that is too large or cannot be read has no chunks. -/
def fileChunks (file : Text × IndexedFile) : List (NewChunkInput ε) :=
  if (maxIndexFileBytes : Int) < file.2.size then []
  else
    match indexing.getBlob file.2.sha256 with
    | none => []
    | some data =>
      (indexing.chunkText file.1 (data.take maxIndexFileBytes)).mapIdx fun seq piece =>
        ⟨file.1, seq, piece, indexing.embed piece⟩

/-- The chunks of a pass: those of the files in the order of their paths, up to a
limit. -/
def indexManifest (manifest : IndexManifest) : List (NewChunkInput ε) :=
  (((manifest.files.filter fun file => indexableTextPath file.1).mergeSort
    fun one two => one.1 ≤ two.1).flatMap (fileChunks indexing)).take maxChunksPerSource

end Pass

/-! ### The tables -/

inductive ChunkSource where
  | siteVersion (versionId : Text)
  | skill (skillId : Text)
  deriving DecidableEq

/-- The batch stands for the id of a row: the rows of one transaction, and no
others, have it. -/
structure ContentChunk (ε : Type) where
  source : ChunkSource
  batch : Nat
  chunk : NewChunkInput ε
  deriving DecidableEq

/-- The unique indexes. -/
def ContentChunk.place {ε : Type} (row : ContentChunk ε) : ChunkSource × Text × Nat :=
  (row.source, row.chunk.path, row.chunk.chunkSeq)

/-- A version that was made current, and how many had been before. -/
structure Publication where
  versionId : Text
  number : Nat
  deriving DecidableEq

/-- Versions and their manifests, the current ones of the sites and of the skills,
the stored chunks, and which versions have been indexed. -/
structure ContentDb (ε : Type) where
  manifests : Text → Option IndexManifest
  currentSite : Text → Option Text
  currentSkill : Text → Option Publication
  publications : Nat
  chunks : Table (ContentChunk.place (ε := ε))
  batches : Nat
  throughSeq : Text → Nat

namespace ContentDb

variable {ε : Type} (db : ContentDb ε)

/-- On a conflict nothing is inserted. -/
def insertContentChunk (table : Table (ContentChunk.place (ε := ε))) (row : ContentChunk ε) :
    Table (ContentChunk.place (ε := ε)) :=
  match free : table.get? row.place with
  | none => table.insert row free
  | some _ => table

/-- The end of ReplaceContentChunks. Its DELETE has taken the rows that were there
when it began, those of the batches before `seen`. -/
def replaceContentChunks (source : ChunkSource) (seen : Nat) (chunks : List (NewChunkInput ε)) : ContentDb ε :=
  { db with
    chunks := (chunks.map fun chunk => ⟨source, db.batches, chunk⟩).foldl insertContentChunk
      (db.chunks.delete fun row => row.source = source ∧ row.batch < seen)
    batches := db.batches + 1 }

def putManifest (versionId : Text) (manifest : IndexManifest) : ContentDb ε :=
  { db with manifests := Function.update db.manifests versionId (some manifest) }

def publishSite (siteId versionId : Text) : ContentDb ε :=
  { db with currentSite := Function.update db.currentSite siteId (some versionId) }

def publishSkill (skillId versionId : Text) : ContentDb ε :=
  { db with
    currentSkill := Function.update db.currentSkill skillId (some ⟨versionId, db.publications⟩)
    publications := db.publications + 1 }

def advanceMemoryIngest (versionId : Text) : ContentDb ε :=
  { db with throughSeq := Function.update db.throughSeq versionId (max (db.throughSeq versionId) 1) }

end ContentDb

/-! ### Requests -/

inductive ContentRequest where
  /-- An upload to a site stores the manifest of its version. -/
  | finalizeSite (versionId : Text) (manifest : IndexManifest)
  | publishSite (siteId versionId : Text)
  /-- An upload to a skill stores the manifest and makes the version current. -/
  | finalizeSkill (skillId versionId : Text) (manifest : IndexManifest)
  deriving DecidableEq

/-- Where a request is, and then its pass, which knows the number of its publication. -/
inductive IndexStage (ε : Type) where
  | requested
  | publishing
  | started (number : Nat)
  | reading (number : Nat)
  | embedded (number : Nat) (chunks : List (NewChunkInput ε))
  | replacing (number : Nat) (seen : Nat) (chunks : List (NewChunkInput ε))
  | marking
  | finished
  deriving DecidableEq

structure IndexCall (ε : Type) where
  request : ContentRequest
  stage : IndexStage ε
  deriving DecidableEq

namespace ContentRequest

variable {ε : Type} (indexing : Indexing ε)

def versionId : ContentRequest → Text
  | finalizeSite versionId _ => versionId
  | publishSite _ versionId => versionId
  | finalizeSkill _ versionId _ => versionId

/-- Whose chunks the pass of the request replaces. -/
def source : ContentRequest → Option ChunkSource
  | finalizeSite _ _ => none
  | publishSite _ versionId => some (.siteVersion versionId)
  | finalizeSkill skillId _ _ => some (.skill skillId)

def request (db : ContentDb ε) : ContentRequest → IndexStage ε × ContentDb ε
  | finalizeSite versionId manifest => (.finished, db.putManifest versionId manifest)
  | publishSite siteId versionId => (.started 0, db.publishSite siteId versionId)
  | finalizeSkill _ versionId manifest => (.publishing, db.putManifest versionId manifest)

/-- A version of a site that has been indexed is left alone; a skill is indexed
whenever it is published. -/
def start (number : Nat) (db : ContentDb ε) : ContentRequest → IndexStage ε
  | publishSite _ versionId => if 0 < db.throughSeq versionId then .finished else .reading number
  | _ => .reading number

def next : ContentRequest → IndexStage ε → ContentDb ε → Option (IndexStage ε × ContentDb ε)
  | r, .requested, db => some (r.request db)
  | finalizeSkill skillId versionId _, .publishing, db =>
    some (.started db.publications, db.publishSkill skillId versionId)
  | r, .started number, db => some (r.start number db, db)
  | r, .reading number, db =>
    match db.manifests r.versionId with
    | none => some (.finished, db)
    | some manifest => some (.embedded number (indexManifest indexing manifest), db)
  -- The DELETE sees what is committed when it begins.
  | _, .embedded number chunks, db => some (.replacing number db.batches chunks, db)
  | finalizeSkill skillId _ _, .replacing _ seen chunks, db =>
    some (.finished, db.replaceContentChunks (.skill skillId) seen chunks)
  | publishSite _ versionId, .replacing _ seen chunks, db =>
    some (.marking, db.replaceContentChunks (.siteVersion versionId) seen chunks)
  | publishSite _ versionId, .marking, db => some (.finished, db.advanceMemoryIngest versionId)
  | _, _, _ => none

end ContentRequest

/-- No step is handed anything: the clock and the ids play no part. -/
def indexRequests {ε : Type} (indexing : Indexing ε) : Calls.Program Unit (IndexCall ε) (ContentDb ε)
  | _, ⟨r, stage⟩, db => (r.next indexing stage db).map fun after => (⟨r, after.1⟩, after.2)

end Dropway.Api
