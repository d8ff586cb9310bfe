import Dropway.Edge.Http
import Dropway.Edge.Manifest

/-! What crawlers and language models are told about a site
(edge/serving-worker/src/llm.ts). -/

namespace Dropway.Edge
open Lib

private def aiCrawlerUas : List Text :=
  ["gptbot", "oai-searchbot", "chatgpt-user", "claudebot", "claude-web", "anthropic-ai",
    "perplexitybot", "perplexity-user", "ccbot", "google-extended", "googleother", "bytespider",
    "amazonbot", "applebot-extended", "meta-externalagent", "meta-externalfetcher", "facebookbot",
    "cohere-ai", "diffbot", "timpibot", "omgili", "youbot"].map String.toList

def isAICrawler (ua : Option Text) : Bool :=
  ua.any fun ua => aiCrawlerUas.any fun needle => Text.includes (Text.lower ua) needle

def robotsTxtBody (isPublic : Bool) : Text :=
  if isPublic then "User-agent: *\nAllow: /\n".toList else "User-agent: *\nDisallow: /\n".toList

def crawlerBlockedBody : Text :=
  ("403 Forbidden: this site is not public; AI crawlers are not permitted. " ++
    "Use the Dropway MCP server for authorized access.\n").toList

private def endsWith (text ending : Text) : Bool := ending.isSuffixOf text

/-- The URL path under which a page of the manifest is served. -/
def prettyUrlPath (path : Text) : Text :=
  if path = "index.html".toList then "/".toList
  else if endsWith path "/index.html".toList then
    "/".toList ++ path.take (path.length - "index.html".length)
  else if endsWith path ".html".toList then
    "/".toList ++ path.take (path.length - ".html".length)
  else "/".toList ++ path

def llmsTxtBody (host : Text) (manifest : Manifest) (origin : Text) : Text :=
  let pages := ((manifest.files.own.map (·.1)).filter fun path =>
    decide (path ≠ notFoundPath) && endsWith path ".html".toList).mergeSort Text.sortsBefore
  "# ".toList ++ host ++ "\n\n".toList ++
    ("> Pages published on this site via Dropway. This index helps LLMs and agents discover " ++
      "the public content available here.\n\n## Pages\n").toList ++
    pages.flatMap fun path =>
      "- [".toList ++ prettyUrlPath path ++ "](".toList ++ origin ++ prettyUrlPath path ++ ")\n".toList

end Dropway.Edge

/-! From a request path to the bytes that answer it: the shared core of the
public and the gated path (edge/serving-worker/src/index.ts, listing.ts). -/

namespace Dropway.Edge
open Lib Lib.Uri

/-- Built-ins of the runtime whose result does not depend on the program. -/
structure Runtime where
  jsonParse : Text → Option Json
  dateParse : String → Option Int
  localeLe : Text → Text → Bool
  urlParse : Text → Option Url

structure ListingEntry where
  name : Text
  href : Text
  isDir : Bool
  size : Option Rat

/-- The page builders: pure functions of what they are given. -/
structure Pages where
  default404 : Text
  unknownHost404 : Text
  linkExpired : Text
  tooManyRequests : Text
  accountSuspended : Text
  accountOverLimit : Text
  projectionError : Text
  renderEmbedGateHtml : Text → Text
  renderMarkdownPage : Text → Text → Text
  renderDirectoryListing : Text → List ListingEntry → Text
  renderChatPage : Json → Text → Option Text → Text
  injectBanner : Text → Text
  injectChatPill : Text → Text
  injectEmbedBadge : Text → Text
  bannerByteLength : Nat
  chatPillByteLength : Nat
  embedBadgeByteLength : Nat
  deriving Inhabited

/-- What `object.json()` does: R2 objects have it, and it throws on text that is
no JSON. -/
structure R2Object where
  body : Option Bytes
  httpEtag : Option Text
  uploaded : Option Text
  size : Option Nat
  hasJson : Bool

abbrev Bucket := Text → Option R2Object

/-- An exception that leaves `serve`: the entry point answers 500. -/
inductive Thrown where
  | jsonError
  | kvError
  | urlError
  deriving DecidableEq

def R2Object.readText (object : R2Object) : Text := Utf8.bodyText (object.body.getD [])

/-- `object.json ? await object.json() : await readBodyJson(object)`. -/
def R2Object.readJson (rt : Runtime) (object : R2Object) : Except Thrown Json :=
  if object.hasJson then
    match rt.jsonParse object.readText with
    | some json => .ok json
    | none => .error .jsonError
  else .ok (match object.body with
    | none => .null
    | some _ => (rt.jsonParse object.readText).getD .null)

def loadManifest (rt : Runtime) (bucket : Bucket) (route : RouteValue) :
    Except Thrown (Option Manifest) :=
  match bucket (manifestKey route) with
  | none => .ok none
  | some object => (object.readJson rt).map parseManifest

/-! ### Directory listings -/

def directoryPrefix (cleanRelPath : Text) : Text :=
  if cleanRelPath = [] ∨ cleanRelPath.getLast? = some '/' then cleanRelPath
  else cleanRelPath ++ "/".toList

def encodeHref (key : Text) : Text :=
  let encoded := "/".toList.intercalate
    (((key.splitOn '/').filter (· ≠ [])).map encodeURIComponent)
  "/".toList ++ encoded ++ if key.getLast? = some '/' ∧ encoded ≠ [] then "/".toList else []

/-- The part of a key below the directory, if there is any. -/
def below (dirPrefix key : Text) : Option Text :=
  if dirPrefix.isPrefixOf key ∧ key.drop dirPrefix.length ≠ [] then
    some (key.drop dirPrefix.length)
  else none

def childOf (dirPrefix : Text) (file : Text × ManifestEntry) :
    Option (Text × Text × ManifestEntry) :=
  (below dirPrefix file.1).map fun rest => (file.1, rest, file.2)

theorem childOf_outside {dirPrefix : Text} {file : Text × ManifestEntry}
    (outside : below dirPrefix file.1 = none) : childOf dirPrefix file = none := by
  rw [childOf, outside]
  rfl

def listDirectory (rt : Runtime) (manifest : Manifest) (dirPrefix : Text) :
    Option (List ListingEntry) :=
  let children := manifest.files.own.filterMap (childOf dirPrefix)
  let dirs := (children.filter fun (_, rest, _) => '/' ∈ rest).map
    fun (_, rest, _) => rest.takeWhile (· ≠ '/')
  let files := (children.filter fun (_, rest, _) => '/' ∉ rest).map fun (key, rest, entry) =>
    ({ name := rest, href := encodeHref key, isDir := false, size := entry.size } : ListingEntry)
  if dirs = [] ∧ children.all (fun (_, rest, _) => '/' ∈ rest) then none
  else
    let dirRows := (dirs.dedup.mergeSort Text.sortsBefore).map fun d =>
      { name := d ++ "/".toList, href := encodeHref (dirPrefix ++ d ++ "/".toList), isDir := true,
        size := none }
    some (dirRows ++ files.mergeSort fun a b => rt.localeLe a.name b.name)

def parentHref (dirPrefix : Text) : Text :=
  let trimmed := if dirPrefix.getLast? = some '/' then dirPrefix.dropLast else dirPrefix
  let front := (trimmed.reverse.dropWhile (· ≠ '/')).reverse
  if front = [] then "/".toList else encodeHref front

/-- The hrefs of a rendered listing, from the top. -/
def listingHrefs (dirPrefix : Text) (entries : List ListingEntry) : List Text :=
  (if dirPrefix ≠ [] then [parentHref dirPrefix] else []) ++ entries.map (·.href)

/-! ### Answers -/

structure ResolvedBlob where
  servedPath : Text
  contentType : Option String
  body : Option Bytes
  etag : Option Text := none
  lastModified : Option Text := none
  contentLength : Option Nat := none

inductive BlobResolution where
  | ok (blob : ResolvedBlob)
  | notFound (response : Response)

inductive NotFoundReason where
  | routeNotFound
  | serviceWorkerBlocked
  | unknownAccessMode
  | unsafePath
  | manifestMissing
  | noManifestEntry
  | blobMissing
  deriving DecidableEq

def noCache404 : List (String × Text) :=
  [("Content-Type", "text/html; charset=utf-8".toList),
    ("Cache-Control", "public, max-age=30".toList)]

private def platform404 (pages : Pages) (reason : NotFoundReason) : Response :=
  .text 404 (Headers.setAll noCache404 platformSecurityHeaders)
    (if reason = .routeNotFound then pages.unknownHost404 else pages.default404)

/-- A 404 that has no manifest to take a page from. -/
def notFound (pages : Pages) (reason : NotFoundReason) : Response := platform404 pages reason

/-- A 404 within a version: its own `404.html` if it ships one. -/
def notFoundIn (pages : Pages) (bucket : Bucket) (route : RouteValue) (manifest : Manifest)
    (reason : NotFoundReason) : Response :=
  match manifest.files.get notFoundPath with
  | none => platform404 pages reason
  | some slot =>
    match bucket (blobKey route.orgId slot.sha256) with
    | none => platform404 pages reason
    | some object =>
      { status := 404
        headers := Headers.set
          (Headers.setAll [("Cache-Control", "public, max-age=30".toList)] securityHeaders)
          "Content-Type" (slot.contentType.getD "undefined").toList
        body := object.body }

def serviceWorkerScripts : List Text :=
  ["sw.js", "service-worker.js", "serviceworker.js", "service-worker.min.js", "sw.min.js",
    "firebase-messaging-sw.js", "ngsw-worker.js", "workbox-sw.js"].map String.toList

def isServiceWorkerScript (cleanRelPath : Text) : Bool :=
  Text.lower ((cleanRelPath.splitOn '/').getLastD []) ∈ serviceWorkerScripts

def isMarkdownPath (path : Text) : Bool :=
  extensionOf path = "md".toList || extensionOf path = "mdx".toList

def markdownMaxRenderBytes : Nat := 1024 * 1024

def rawQueryParam : Text := "raw".toList

def isRawRequested (url : Url) : Bool := url.hasParam rawQueryParam

private def htmlBlob (html : Text) : ResolvedBlob :=
  { servedPath := "index.html".toList, contentType := some "text/html; charset=utf-8",
    body := some (Utf8.encode html), contentLength := some (Utf8.encode html).length }

def directoryListing (rt : Runtime) (pages : Pages) (manifest : Manifest) (clean : Text) :
    Option BlobResolution :=
  (listDirectory rt manifest (directoryPrefix clean)).map fun entries =>
    .ok (htmlBlob (pages.renderDirectoryListing (directoryPrefix clean) entries))

/-- A size as the headers need it; a manifest may hold a fraction. -/
private def sizeOf (object : R2Object) (slot : Slot) : Option Rat :=
  match object.size with
  | some size => some size
  | none => slot.size

/-- The bytes of a matched entry, rendered if they are Markdown. -/
def serveEntry (pages : Pages) (route : RouteValue) (url : Url) (bucket : Bucket)
    (manifest : Manifest) (path : Text) (slot : Slot) : BlobResolution :=
  match bucket (blobKey route.orgId slot.sha256) with
  | none => .notFound (notFoundIn pages bucket route manifest .blobMissing)
  | some object =>
    let tooBigToRender := (sizeOf object slot).any fun size => decide ((markdownMaxRenderBytes : Rat) < size)
    if isMarkdownPath path && !isRawRequested url && !tooBigToRender then
      .ok (htmlBlob (pages.renderMarkdownPage path object.readText))
    else
      .ok { servedPath := path, contentType := slot.contentType, body := object.body,
            etag := object.httpEtag, lastModified := object.uploaded,
            contentLength := (sizeOf object slot).map (·.num.toNat) }

def resolveBlob (rt : Runtime) (pages : Pages) (bucket : Bucket) (route : RouteValue) (url : Url) :
    Except Thrown BlobResolution :=
  match cleanPath url.pathname with
  | none => .ok (.notFound (notFound pages .unsafePath))
  | some clean =>
    if isServiceWorkerScript clean then .ok (.notFound (notFound pages .serviceWorkerBlocked))
    else
      match loadManifest rt bucket route with
      | .error thrown => .error thrown
      | .ok none => .ok (.notFound (notFound pages .manifestMissing))
      | .ok (some manifest) =>
        match resolveManifestEntry manifest clean with
        | some (path, slot) => .ok (serveEntry pages route url bucket manifest path slot)
        | none =>
          let missing := .notFound (notFoundIn pages bucket route manifest .noManifestEntry)
          -- a version with its own 404 page is never listed
          if (manifest.files.get notFoundPath).isNone then
            .ok ((directoryListing rt pages manifest clean).getD missing)
          else .ok missing

end Dropway.Edge

/-! The Cache API key of a public response (edge/serving-worker/src/index.ts). -/

namespace Dropway.Edge
open Lib Lib.Uri

def cacheKey (route : RouteValue) (url : Url) : Text :=
  let tier := route.planTier.getD "_".toList
  let chat := (route.chatId.map (·.text)).getD "_".toList
  let rawSeg := if isRawRequested url then "/raw".toList else []
  let pathname := "/".toList ++ route.accessMode.text.toList ++ "/".toList ++ route.versionId.text ++
    "/".toList ++ tier ++ "/".toList ++ chat ++ rawSeg ++ url.pathname
  url.origin ++ serialize (parsePath pathname)

end Dropway.Edge
