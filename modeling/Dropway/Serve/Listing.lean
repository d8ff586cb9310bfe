import Dropway.Lib.RuneCase
import Dropway.Lib.Runes
import Dropway.Lib.Uri
import Dropway.Serve.Manifest
import Dropway.Serve.Route

/-! Directory listings as the Go server makes them, and what it answers within a version
(services/serve/internal/listing/listing.go, internal/serve/serve.go). -/

namespace Dropway.Serve
open Lib

namespace Listing

structure Entry where
  name : Bytes
  href : Bytes
  isDir : Bool
  size : Option Int

def directoryPrefix (cleanRelPath : Bytes) : Bytes :=
  if cleanRelPath = [] ∨ cleanRelPath.getLast? = some 0x2F then cleanRelPath else cleanRelPath ++ [0x2F]

/-- What `url.PathEscape` leaves as it is. -/
def pathSegmentChar (c : Char) : Bool := c.isAlphanum || "-_.~$&+:=@".toList.contains c

def pathEscape (s : Bytes) : Bytes :=
  s.flatMap fun b =>
    if pathSegmentChar (Char.ofNat b.toNat) then [b]
    else Utf8.encode ['%', Uri.hexDigit (b.toNat / 16), Uri.hexDigit (b.toNat % 16)]

def encodeHref (key : Bytes) : Bytes :=
  let encoded := [0x2F].intercalate (((key.splitOn 0x2F).filter (· ≠ [])).map pathEscape)
  [0x2F] ++ encoded ++ if key.getLast? = some 0x2F ∧ encoded ≠ [] then [0x2F] else []

/-- The part of a key below the directory, if there is any. -/
def below (dirPrefix key : Bytes) : Option Bytes :=
  if dirPrefix.isPrefixOf key ∧ key.drop dirPrefix.length ≠ [] then some (key.drop dirPrefix.length) else none

def stringLess (one two : Bytes) : Bool := decide (one < two)

/-- The files below the directory, each with its key and the rest of it. -/
def children (m : Manifest) (dirPrefix : Bytes) : List (Bytes × Bytes × Serve.Entry) :=
  m.files.filterMap fun file =>
    (below dirPrefix (Utf8.encode file.1)).map fun rest => (Utf8.encode file.1, rest, file.2)

def listDirectory (m : Manifest) (dirPrefix : Bytes) : Option (List Entry) :=
  let children := children m dirPrefix
  let dirs := (children.filter fun (_, rest, _) => 0x2F ∈ rest).map fun (_, rest, _) => rest.takeWhile (· ≠ 0x2F)
  let files := (children.filter fun (_, rest, _) => 0x2F ∉ rest).map fun (key, rest, entry) =>
    ({ name := rest, href := encodeHref key, isDir := false, size := entry.size } : Entry)
  if dirs = [] ∧ files = [] then none
  else
    let dirRows := (dirs.dedup.mergeSort fun one two => !stringLess two one).map fun d =>
      { name := d ++ [0x2F], href := encodeHref (dirPrefix ++ d ++ [0x2F]), isDir := true, size := none }
    some (dirRows ++ files.mergeSort fun one two => !stringLess two.name one.name)

def parentHref (dirPrefix : Bytes) : Bytes :=
  let trimmed := if dirPrefix.getLast? = some 0x2F then dirPrefix.dropLast else dirPrefix
  let front := (trimmed.reverse.dropWhile (· ≠ 0x2F)).reverse
  if front = [] then [0x2F] else encodeHref front

/-- The hrefs of a rendered listing, from the top. -/
def hrefs (dirPrefix : Bytes) (entries : List Entry) : List Bytes :=
  (if dirPrefix ≠ [] then [parentHref dirPrefix] else []) ++ entries.map (·.href)

end Listing

def serviceWorkerScripts : List Text :=
  ["sw.js", "service-worker.js", "serviceworker.js", "service-worker.min.js", "sw.min.js",
    "firebase-messaging-sw.js", "ngsw-worker.js", "workbox-sw.js"].map String.toList

def isServiceWorkerScript (cleanRelPath : Bytes) : Bool :=
  RuneCase.lowered (Utf8.runeText ((cleanRelPath.splitOn 0x2F).getLastD [])) ∈ serviceWorkerScripts

def notFoundPath : Bytes := Utf8.encode "404.html".toList

/-- What resolveBlob finds within a version: a file, a listing, or nothing. -/
inductive Page where
  | file (path : Bytes) (entry : Entry)
  | listing (dirPrefix : Bytes) (entries : List Listing.Entry)
  | missing

def pageAt (m : Manifest) (rawPath : Bytes) : Page :=
  match cleanPath rawPath with
  | none => .missing
  | some clean =>
    if isServiceWorkerScript clean then .missing
    else
      match m.resolve clean with
      | some (path, entry) => .file path entry
      | none =>
        if (m.get notFoundPath).isNone then
          match Listing.listDirectory m (Listing.directoryPrefix clean) with
          | some entries => .listing (Listing.directoryPrefix clean) entries
          | none => .missing
        else .missing

end Dropway.Serve
