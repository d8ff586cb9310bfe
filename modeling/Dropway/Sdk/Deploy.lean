import Dropway.Api.Uploads
import Dropway.Lib.JsonRead

/-! A deploy of the SDK (packages/sdk/src): the manifest, the transport with its retries,
the pool of uploads, and the store and the API that it talks to. -/

namespace Dropway.Sdk
open Lib Api

/-! ### The manifest -/

def dropDots : Text → Text
  | '.' :: '/' :: rest => dropDots rest
  | path => path

/-- Nothing where it throws. -/
def normalizePath (path : Text) : Option Text :=
  let slashed := path.map fun c => if c = '\\' then '/' else c
  let p := (dropDots slashed).dropWhile (· = '/')
  if p = [] ∨ ['.', '.'] ∈ p.splitOn '/' then none else some p

def byExt : List (Text × Text) :=
  [(".html", "text/html; charset=utf-8"), (".htm", "text/html; charset=utf-8"), (".css", "text/css; charset=utf-8"),
    (".js", "text/javascript; charset=utf-8"), (".mjs", "text/javascript; charset=utf-8"),
    (".json", "application/json"), (".map", "application/json"), (".svg", "image/svg+xml"),
    (".wasm", "application/wasm"), (".webmanifest", "application/manifest+json"),
    (".txt", "text/plain; charset=utf-8"), (".xml", "application/xml"), (".ico", "image/x-icon"),
    (".png", "image/png"), (".jpg", "image/jpeg"), (".jpeg", "image/jpeg"), (".gif", "image/gif"),
    (".webp", "image/webp"), (".avif", "image/avif"), (".woff", "font/woff"), (".woff2", "font/woff2"),
    (".ttf", "font/ttf"), (".otf", "font/otf"), (".eot", "application/vnd.ms-fontobject"),
    (".pdf", "application/pdf"), (".mp4", "video/mp4"), (".webm", "video/webm"), (".mp3", "audio/mpeg"),
    (".wav", "audio/wav")].map fun (ext, type) => (ext.toList, type.toList)

def octetStream : Text := "application/octet-stream".toList

def contentTypeForPath (path : Text) : Text :=
  let ext := if '.' ∈ path then '.' :: (path.reverse.takeWhile (· ≠ '.')).reverse else []
  (byExt.lookup (Text.lower ext)).getD octetStream

/-- The content of a file, as a string or as bytes. -/
inductive Content where
  | text (text : Text)
  | bytes (bytes : Bytes)

def toBytes : Content → Bytes
  | .text text => Utf8.encode text
  | .bytes bytes => bytes

/-- `Buffer.compare` compares bytes. -/
def ByPath (a b : ManifestFile) : Prop := ¬ Utf8.encode b.path < Utf8.encode a.path

instance : DecidableRel ByPath := fun a b =>
  inferInstanceAs (Decidable (¬ Utf8.encode b.path < Utf8.encode a.path))

/-- Each line goes into the hash by itself. -/
def digest (sha256Hex : Sha256) (files : List ManifestFile) : Text :=
  sha256Hex ((files.insertionSort ByPath).flatMap fun file => Utf8.encode (digestLine file))

structure Built where
  manifest : List ManifestFile
  bytesBySha : List (Text × Bytes)
  digest : Text

/-- The last content of a hash counts. -/
def Built.bytes (built : Built) (sha : Text) : Option Bytes := (lastWith (·.1) sha built.bytesBySha).map (·.2)

def manifestFile (hash : Sha256) (file : Text × Content) : Option ManifestFile := do
  let path ← normalizePath file.1
  return ⟨path, hash (toBytes file.2), (toBytes file.2).length, contentTypeForPath path⟩

def buildManifest (hash : Sha256) (files : List (Text × Content)) : Option Built := do
  let manifest ← files.mapM (manifestFile hash)
  return ⟨manifest, files.map fun file => (hash (toBytes file.2), toBytes file.2), digest hash manifest⟩

/-! ### The transport -/

inductive Failure where
  | aborted
  | network
  | status (status : Nat)
  | noFiles
  | invalidPath
  | noUploadUrl (sha : Text)
  | missingBytes (sha : Text)
  | noBody
  deriving DecidableEq

/-- A response, and what its body reads as. -/
structure Reply (β : Type) where
  status : Nat
  body : Option β

def statusOk (status : Nat) : Bool := decide (200 ≤ status ∧ status < 300)

def retryable (status : Nat) : Bool := decide (500 ≤ status ∨ status = 429)

/-- Where `fetchWithRetry` is: about to send, waiting for a response that may be on its
way, or backing off. -/
inductive Fetch (β : Type) where
  | ready (attempt : Nat)
  | waiting (attempt : Nat) (reply : Option (Reply β))
  | sleeping (attempt : Nat)

inductive Turn (β : Type) where
  | send
  | reply (reply : Reply β)
  | deliver
  | lose
  | wake

inductive Progress (β : Type) where
  | still (fetch : Fetch β)
  | ended (outcome : Except Failure (Reply β))

/-- The request was lost, or its response, or the timeout ran out. -/
def Fetch.caught {β : Type} (maxRetries : Nat) (idempotent aborted : Bool) (attempt : Nat) : Progress β :=
  if aborted then .ended (.error .aborted)
  else if idempotent ∧ attempt < maxRetries then .still (.sleeping attempt)
  else .ended (.error .network)

def Fetch.turn {β : Type} (maxRetries : Nat) (idempotent aborted : Bool) :
    Fetch β → Turn β → Option (Progress β)
  | .ready attempt, .send =>
    if aborted then some (.ended (.error .aborted)) else some (.still (.waiting attempt none))
  | .waiting attempt none, .reply reply => some (.still (.waiting attempt (some reply)))
  | .waiting attempt (some reply), .deliver =>
    if idempotent ∧ attempt < maxRetries ∧ retryable reply.status then some (.still (.sleeping attempt))
    else some (.ended (.ok reply))
  | .waiting attempt _, .lose => some (caught maxRetries idempotent aborted attempt)
  | .sleeping attempt, .wake => some (.still (.ready (attempt + 1)))
  | _, _ => none

/-- `request`: the body of a response that is fine, and of none that has no body. -/
def Reply.json {β : Type} (reply : Reply β) : Except Failure β :=
  if statusOk reply.status then
    match if reply.status = 204 then none else reply.body with
    | some body => .ok body
    | none => .error .noBody
  else .error (.status reply.status)

/-! ### The deploy -/

structure PrepareResponse where
  missing : List Text
  uploads : List (Text × Text)

structure FinalizeResponse where
  versionId : Text
  versionNo : Option Nat
  previewUrl : Option Text
  previewExpiresAt : Option Text
  warnings : Option (List Text)

structure PublishResponse where
  liveUrl : Option Text

structure DeployResult where
  versionId : Text
  versionNo : Option Nat
  filesUploaded : Nat
  previewUrl : Option Text
  previewExpiresAt : Option Text
  liveUrl : Option Text
  published : Bool
  warnings : Option (List Text)

/-- A deploy that is under way: the client, its input and what was built of it. `opens`
says what a PUT to an URL stores. -/
structure Deployment where
  hash : Sha256
  presign : Text → Text
  opens : Text → Option Text
  maxRetries : Nat
  siteId : Text
  publish : Option Bool
  concurrency : Option Nat
  built : Built

/-- `slot` is the index of the item. -/
inductive Worker where
  | looping
  | putting (slot : Nat) (sha url : Text) (bytes : Bytes) (fetch : Fetch Unit)
  | finished
  | failed (failure : Failure)

structure Pool where
  missing : List Text
  uploads : List (Text × Text)
  index : Nat
  workers : List Worker

inductive Phase where
  | preparing (fetch : Fetch PrepareResponse)
  | uploading
  | finalizing (fetch : Fetch FinalizeResponse)
  | publishing (fin : FinalizeResponse) (fetch : Fetch PublishResponse)
  | resolved (result : DeployResult)
  | rejected (failure : Failure)

inductive Request where
  | prepare
  | put (slot : Nat) (sha : Text)
  | finalize
  | publish (versionId : Text)
  deriving DecidableEq

/-- The deploy, the org's storage and the API's handlers of its finalize. -/
structure World where
  org : OrgStorage
  aborted : Bool
  phase : Phase
  pool : Pool
  sent : List Request
  handlers : List Finalizing

/-- `Promise.all` over so many workers. -/
def Deployment.startUploads (d : Deployment) (prep : PrepareResponse) : Pool :=
  let limit := max 1 (d.concurrency.getD 8)
  ⟨prep.missing, prep.uploads, 0, List.replicate (min limit prep.missing.length) .looping⟩

def uploadsOf (uploads : List (Text × Text)) (sha : Text) : Option Text := (lastWith (·.1) sha uploads).map (·.2)

/-- A worker takes the next item, if there is one. -/
def Deployment.take (d : Deployment) (pool : Pool) : Pool × Worker :=
  match pool.missing[pool.index]? with
  | none => (pool, .finished)
  | some sha =>
    let taken := { pool with index := pool.index + 1 }
    match uploadsOf pool.uploads sha with
    | none => (taken, .failed (.noUploadUrl sha))
    | some url =>
      -- an empty URL is none
      if url = [] then (taken, .failed (.noUploadUrl sha))
      else
        match d.built.bytes sha with
        | none => (taken, .failed (.missingBytes sha))
        | some bytes => (taken, .putting pool.index sha url bytes (.ready 0))

def Progress.logged {β : Type} (turn : Turn β) (request : Request) (sent : List Request) : Progress β → List Request
  | .still _ =>
    match turn with
    | .send => sent ++ [request]
    | _ => sent
  | .ended _ => sent

def Deployment.afterPrepare (d : Deployment) (w : World) (turn : Turn PrepareResponse)
    (progress : Progress PrepareResponse) : World :=
  let sent := progress.logged turn .prepare w.sent
  match progress with
  | .still fetch => { w with phase := .preparing fetch, sent }
  | .ended outcome =>
    match outcome.bind Reply.json with
    | .ok prep => { w with phase := .uploading, pool := d.startUploads prep, sent }
    | .error failure => { w with phase := .rejected failure, sent }

def afterPut (slot : Nat) (sha url : Text) (bytes : Bytes) : Progress Unit → Worker
  | .still fetch => .putting slot sha url bytes fetch
  | .ended (.ok reply) => if statusOk reply.status then .looping else .failed (.status reply.status)
  | .ended (.error failure) => .failed failure

def result (pool : Pool) (fin : FinalizeResponse) : DeployResult where
  versionId := fin.versionId
  versionNo := fin.versionNo
  filesUploaded := pool.missing.length
  previewUrl := fin.previewUrl
  previewExpiresAt := fin.previewExpiresAt
  liveUrl := none
  published := false
  warnings := fin.warnings

def Deployment.afterFinalize (d : Deployment) (w : World) (turn : Turn FinalizeResponse)
    (progress : Progress FinalizeResponse) : World :=
  let sent := progress.logged turn .finalize w.sent
  match progress with
  | .still fetch => { w with phase := .finalizing fetch, sent }
  | .ended outcome =>
    match outcome.bind Reply.json with
    | .ok fin =>
      if d.publish = some false then { w with phase := .resolved (result w.pool fin), sent }
      else { w with phase := .publishing fin (.ready 0), sent }
    | .error failure => { w with phase := .rejected failure, sent }

def afterPublish (w : World) (fin : FinalizeResponse) (turn : Turn PublishResponse)
    (progress : Progress PublishResponse) : World :=
  let sent := progress.logged turn (.publish fin.versionId) w.sent
  match progress with
  | .still fetch => { w with phase := .publishing fin fetch, sent }
  | .ended outcome =>
    match outcome.bind Reply.json with
    | .ok pub =>
      { w with
        phase := .resolved { result w.pool fin with liveUrl := pub.liveUrl, published := true }, sent }
    | .error failure => { w with phase := .rejected failure, sent }

/-! ### The store and the API -/

/-- `prepareMissingBlobs`: `heads` is what the store answers for each hash. -/
def prepareMissingBlobs (heads : Text → Bool) (presign : Text → Text) :
    List ManifestFile → List Text → PrepareResponse → Option PrepareResponse
  | [], _, response => some response
  | file :: rest, seen, response =>
    if !validSHA256 file.sha256 then none
    else if file.sha256 ∈ seen then prepareMissingBlobs heads presign rest seen response
    else if heads file.sha256 then prepareMissingBlobs heads presign rest (file.sha256 :: seen) response
    else
      prepareMissingBlobs heads presign rest (file.sha256 :: seen)
        ⟨response.missing ++ [file.sha256], response.uploads ++ [(file.sha256, presign file.sha256)]⟩

/-- The store takes the bytes of an upload that it answers with success. -/
def Deployment.stores (d : Deployment) (org : OrgStorage) (url : Text) (bytes : Bytes) : Turn Unit → OrgStorage
  | .reply reply =>
    if statusOk reply.status then
      match d.opens url with
      | some sha => (Change.putBlob ⟨sha, bytes, none⟩).apply org
      | none => org
    else org
  | _ => org

/-- What the client built is under its hash. -/
def Deployment.Stored (d : Deployment) (org : OrgStorage) (sha : Text) : Prop :=
  ∃ blob, org.blobs.get? sha = some blob ∧ d.built.bytes sha = some blob.bytes

/-- Nothing else is under the hashes of what the client built. -/
def Deployment.Untainted (d : Deployment) (org : OrgStorage) : Prop :=
  ∀ sha blob bytes, org.blobs.get? sha = some blob → d.built.bytes sha = some bytes → blob.bytes = bytes

/-- What others may do to the storage meanwhile. -/
structure Deployment.Keeps (d : Deployment) (org later : OrgStorage) : Prop where
  stored : ∀ sha, d.Stored org sha → d.Stored later sha
  untainted : d.Untainted org → d.Untainted later

def Deployment.finalizeRequest (d : Deployment) : FinalizeRequest := ⟨d.siteId, d.built.manifest, d.built.digest⟩

/-- Before the request has been verified. -/
def verifying : Finalizing → Bool
  | .verifyManifest _ | .verifyFiles _ _ _ => true
  | _ => false

/-- The API answers a prepare with what its store is missing. -/
def Deployment.Prepares (d : Deployment) (org : OrgStorage) (reply : Reply PrepareResponse) : Prop :=
  ∃ heads prep, (∀ sha, heads sha = true → (org.blobs.get? sha).isSome = true) ∧
    prepareMissingBlobs heads d.presign d.built.manifest [] ⟨[], []⟩ = some prep ∧ reply.body = some prep

inductive World.Step (d : Deployment) : World → World → Prop
  | abort {w : World} : Step d w { w with aborted := true }
  | elsewhere {w : World} {org : OrgStorage} (kept : d.Keeps w.org org) : Step d w { w with org }
  | prepare {w : World} {fetch : Fetch PrepareResponse} {turn : Turn PrepareResponse}
      {progress : Progress PrepareResponse} (phase : w.phase = .preparing fetch)
      (honest : ∀ reply, turn = .reply reply → statusOk reply.status = true → d.Prepares w.org reply)
      (turned : fetch.turn d.maxRetries false w.aborted turn = some progress) : Step d w (d.afterPrepare w turn progress)
  | take {w : World} {i : Nat} (looping : w.pool.workers[i]? = some .looping) :
      Step d w { w with
        pool := { (d.take w.pool).1 with workers := w.pool.workers.set i (d.take w.pool).2 } }
  | put {w : World} {i slot : Nat} {sha url : Text} {bytes : Bytes} {fetch : Fetch Unit} {turn : Turn Unit}
      {progress : Progress Unit} (putting : w.pool.workers[i]? = some (.putting slot sha url bytes fetch))
      (turned : fetch.turn d.maxRetries true w.aborted turn = some progress) :
      Step d w { w with
        org := d.stores w.org url bytes turn
        pool := { w.pool with workers := w.pool.workers.set i (afterPut slot sha url bytes progress) }
        sent := progress.logged turn (.put slot sha) w.sent }
  | joined {w : World} (phase : w.phase = .uploading) (all : ∀ worker ∈ w.pool.workers, worker = .finished) :
      Step d w { w with phase := .finalizing (.ready 0) }
  -- the other workers go on
  | fell {w : World} {failure : Failure} (phase : w.phase = .uploading) (mem : .failed failure ∈ w.pool.workers) :
      Step d w { w with phase := .rejected failure }
  | finalize {w : World} {fetch : Fetch FinalizeResponse} {turn : Turn FinalizeResponse}
      {progress : Progress FinalizeResponse} (phase : w.phase = .finalizing fetch)
      (honest : ∀ reply, turn = .reply reply → statusOk reply.status = true →
        ∃ files creating, .create files creating ∈ w.handlers)
      (turned : fetch.turn d.maxRetries true w.aborted turn = some progress) : Step d w (d.afterFinalize w turn progress)
  | arrive {w : World} (asked : .finalize ∈ w.sent) :
      Step d w { w with handlers := w.handlers ++ [.verifyManifest d.finalizeRequest] }
  | verify {w : World} {i : Nat} {position later : Finalizing} {quota : StorageQuota} {input : Input}
      {effect : Effect Change LockKey} (handled : w.handlers[i]? = some position) (early : verifying position = true)
      (next : position.next d.hash quota input w.org = some (effect, later)) :
      Step d w { w with handlers := w.handlers.set i later }
  | publish {w : World} {fin : FinalizeResponse} {fetch : Fetch PublishResponse} {turn : Turn PublishResponse}
      {progress : Progress PublishResponse} (phase : w.phase = .publishing fin fetch)
      (turned : fetch.turn d.maxRetries false w.aborted turn = some progress) : Step d w (afterPublish w fin turn progress)

/-- Before the prepare. -/
def World.start (org : OrgStorage) : World := ⟨org, false, .preparing (.ready 0), ⟨[], [], 0, []⟩, [], []⟩

/-- What deploy makes of its files before it asks for anything. -/
def buildDeploy (hash : Sha256) (files : List (Text × Content)) : Except Failure Built :=
  if files = [] then .error .noFiles
  else
    match buildManifest hash files with
    | none => .error .invalidPath
    | some built => .ok built

end Dropway.Sdk
