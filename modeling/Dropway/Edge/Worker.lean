import Dropway.Edge.Authz
import Dropway.Edge.Content
import Dropway.Edge.RateLimit

/-! The request handler of the serving Worker, from the method check to the
access mode (edge/serving-worker/src/index.ts, banner.ts, chat.ts, embed.ts). -/

namespace Dropway.Edge
open Lib Lib.Uri

/-! ### Platform pages -/

private def platformPage (status : Nat) (extra : List (String × Text)) (html : Text) : Response :=
  .text status (Headers.setAll ([("Content-Type", "text/html; charset=utf-8".toList),
    ("Cache-Control", "no-store".toList)] ++ extra) platformSecurityHeaders) html

def projectionError (pages : Pages) : Response := platformPage 500 [] pages.projectionError

def linkExpired (pages : Pages) : Response := platformPage 410 [] pages.linkExpired

def tooManyRequests (pages : Pages) (retryAfterSeconds : Int) : Response :=
  platformPage 429 [("Retry-After", (toString (max 1 retryAfterSeconds)).toList)]
    pages.tooManyRequests

def accountSuspended (pages : Pages) : BlockingStatus → Response
  | .suspended => platformPage 503 [("Retry-After", "300".toList)] pages.accountSuspended
  | .overLimit => platformPage 503 [("Retry-After", "300".toList)] pages.accountOverLimit

def embedGatePlaceholder (pages : Pages) (siteUrl : Text) : Response :=
  .text 200 (Headers.setAll [("Content-Type", "text/html; charset=utf-8".toList),
    ("Cache-Control", "no-store".toList)] framablePlatformSecurityHeaders)
    (pages.renderEmbedGateHtml siteUrl)

/-! ### What is added to a page -/

private def unquote (text : Text) : Text :=
  let quote (c : Option Char) : Bool := c = some '"' || c = some '\''
  let body := if quote text.head? then text.tail else text
  if quote body.getLast? then body.dropLast else body

/-- The value of `charset=` in a content type, if one is given. -/
private def charsetOf : Text → Option Text
  | [] => none
  | c :: rest =>
    let text := c :: rest
    let value := (text.drop "charset=".length).takeWhile (· ≠ ';')
    if Text.startsWith (Text.lower (text.take "charset=".length)) "charset=".toList ∧ value ≠ [] then
      some value
    else charsetOf rest

def isInjectableContentType (contentType : Option String) : Bool :=
  match (contentType.bind fun value => charsetOf value.toList) with
  | none => true
  | some charset =>
    ["utf-8", "utf8", "us-ascii", "ascii"].any fun name =>
      unquote (Text.lower (Text.trim charset)) = name.toList

def bannerEnabled (flag : Option Text) : Bool :=
  flag.any fun flag => ["1", "true", "yes", "on"].any fun name =>
    Text.lower (Text.trim flag) = name.toList

private def tierOf (route : RouteValue) : Option Text :=
  route.planTier.map fun tier => Text.lower (Text.trim tier)

def shouldInjectBanner (env : Env) (route : RouteValue) (servedPath : Text) : Bool :=
  bannerEnabled env.attributionBanner && decide (tierOf route = some "free".toList) &&
    isHtml servedPath

def shouldInjectChatPill (route : RouteValue) (servedPath : Text) (contentType : Option String) :
    Bool :=
  route.chatId.isSome && isHtml servedPath && isInjectableContentType contentType

structure ServeBody where
  contentType : Option String
  body : Option Bytes
  etag : Option Text := none
  lastModified : Option Text := none
  contentLength : Option Nat := none

private def passthrough (resolved : ResolvedBlob) : ServeBody :=
  { contentType := resolved.contentType, body := resolved.body, etag := resolved.etag,
    lastModified := resolved.lastModified, contentLength := resolved.contentLength }

/-- A page with markup inserted. A HEAD is answered without reading the page. -/
private def injected (resolved : ResolvedBlob) (addedBytes : Nat) (inject : Text → Text)
    (isHead : Bool) : ServeBody :=
  if isHead then
    { contentType := resolved.contentType, body := none,
      contentLength := resolved.contentLength.map (· + addedBytes) }
  else
    let bytes := Utf8.encode (inject (Utf8.bodyText (resolved.body.getD [])))
    { contentType := resolved.contentType, body := some bytes, contentLength := some bytes.length }

def bannerize (s : Setting) (route : RouteValue) (resolved : ResolvedBlob) (isHead : Bool) :
    ServeBody :=
  let wantBanner := shouldInjectBanner s.env route resolved.servedPath &&
    isInjectableContentType resolved.contentType
  let wantPill := shouldInjectChatPill route resolved.servedPath resolved.contentType
  if !wantBanner && !wantPill then passthrough resolved
  else
    let addedBytes := (if wantBanner then s.pages.bannerByteLength else 0) +
      (if wantPill then s.pages.chatPillByteLength else 0)
    injected resolved addedBytes (fun html =>
      let html := if wantBanner then s.pages.injectBanner html else html
      if wantPill then s.pages.injectChatPill html else html) isHead

def contentResponse (servedPath : Text) (out : ServeBody) : Response :=
  { status := 200
    headers := publicResponseHeaders servedPath
      { contentType := out.contentType, etag := out.etag, lastModified := out.lastModified,
        contentLength := out.contentLength }
    body := out.body }

/-! ### The transcript page -/

def chatReservedPath : Text := "__dropway/chat".toList

def chatTranscriptKey (orgId chatId : Uuid) : Text :=
  "chat-transcripts/".toList ++ orgId.text ++ "/".toList ++ chatId.text ++ ".json".toList

def serveChatIfRequested (s : Setting) (route : RouteValue) (url : Url) : Option Response := do
  let chatId ← route.chatId
  if cleanPath url.pathname ≠ some chatReservedPath then none
  let transcript := match s.env.bucket (chatTranscriptKey route.orgId chatId) with
    | none => .null
    | some object => match object.readJson s.rt with
      | .ok json => json
      | .error _ => .null
  let headers := Headers.setAll [("Content-Type", "text/html; charset=utf-8".toList),
    ("Cache-Control", "no-store".toList)] securityHeaders
  let framable := replaceFirst "frame-ancestors 'none'".toList "frame-ancestors 'self'".toList
    contentCsp.toList
  return .text 200 ((headers.set "X-Frame-Options" "SAMEORIGIN".toList).set
    "Content-Security-Policy" framable) (s.pages.renderChatPage transcript url.host route.planTier)

/-! ### Embedding -/

def isEmbedRequested (url : Url) : Bool := url.hasParam "embed".toList

private def badgeRemovable (tier : Text) : Bool :=
  ["pro", "business", "enterprise"].any fun name => tier = name.toList

private def badgeSuppressed (url : Url) : Bool :=
  (url.getParam "badge".toList).any fun value => ["0", "false", "off", "no"].any fun name =>
    Text.lower (Text.trim value) = name.toList

def shouldShowEmbedBadge (route : RouteValue) (url : Url) : Bool :=
  ((tierOf route).filter (· ≠ [])).any fun tier => !(badgeRemovable tier && badgeSuppressed url)

def embedBadgeInject (s : Setting) (route : RouteValue) (url : Url) (resolved : ResolvedBlob)
    (isHead : Bool) : ServeBody :=
  if shouldShowEmbedBadge route url && isHtml resolved.servedPath &&
      isInjectableContentType resolved.contentType then
    injected resolved s.pages.embedBadgeByteLength s.pages.injectEmbedBadge isHead
  else passthrough resolved

def asFramable (response : Response) : Response :=
  let headers := (response.headers.delete "X-Frame-Options").set "Cross-Origin-Resource-Policy"
    "cross-origin".toList
  match headers.get "Content-Security-Policy" with
  | none => { response with headers }
  | some csp =>
    { response with
      headers := headers.set "Content-Security-Policy"
        (replaceFirst "frame-ancestors 'none'".toList "frame-ancestors *".toList csp) }

/-! ### Serving -/

private def resolve (s : Setting) (route : RouteValue) (url : Url) : Except Thrown BlobResolution :=
  resolveBlob s.rt s.pages s.env.bucket route url

def serveEmbed (s : Setting) (request : Request) (route : RouteValue) (url : Url) :
    Except Thrown Response := do
  if route.accessMode ≠ .public then
    return bodyFor request (embedGatePlaceholder s.pages (url.origin ++ "/".toList))
  match ← resolve s route url with
  | .notFound response => return bodyFor request response
  | .ok resolved =>
    let out := embedBadgeInject s route url resolved (request.method = "HEAD")
    return bodyFor request
      { status := 200
        headers := embedResponseHeaders resolved.servedPath
          { contentType := out.contentType, etag := out.etag, lastModified := out.lastModified,
            contentLength := out.contentLength }
        body := out.body }

/-- Answers are kept in the cache of the PoP, those to GET requests only. -/
def servePublic (s : Setting) (request : Request) (route : RouteValue) (url : Url) :
    Serving Response := do
  if let some chat := serveChatIfRequested s route url then return bodyFor request chat
  let key := cacheKey route url
  let hit := (← get).cache key
  if let (true, some hit) := (s.cache, hit) then return bodyFor request hit
  match ← resolve s route url with
  | .notFound response => return response
  | .ok resolved =>
    let response := contentResponse resolved.servedPath
      (bannerize s route resolved (request.method = "HEAD"))
    if s.cache && request.method = "GET" then
      modify fun world => { world with cache := Function.update world.cache key (some response) }
    return bodyFor request response

def servePublicBody (s : Setting) (request : Request) (route : RouteValue) (url : Url) :
    Except Thrown Response := do
  if let some chat := serveChatIfRequested s route url then return bodyFor request chat
  match ← resolve s route url with
  | .notFound response => return response
  | .ok resolved =>
    return bodyFor request (contentResponse resolved.servedPath
      (bannerize s route resolved (request.method = "HEAD")))

private def plainHeaders (cacheControl : String) : Headers :=
  ((Headers.setAll [] securityHeaders).set "Content-Type" "text/plain; charset=utf-8".toList).set
    "Cache-Control" cacheControl.toList

/-- Robots, crawlers and the page index; nothing where the request goes on. -/
def handleLLMMeta (s : Setting) (request : Request) (route : RouteValue) (url : Url) :
    Except Thrown (Option Response) := do
  match cleanPath url.pathname with
  | none => return none
  | some clean =>
    let isPublic := decide (route.accessMode = .public)
    if clean = "robots.txt".toList then
      return some (.text 200 (plainHeaders (if isPublic then "public, max-age=3600"
        else "private, no-store, max-age=0, must-revalidate")) (robotsTxtBody isPublic))
    if !isPublic && isAICrawler (request.headers.get "User-Agent") then
      return some (.text 403 ((plainHeaders "private, no-store, max-age=0, must-revalidate").set
        "Vary" "User-Agent".toList) crawlerBlockedBody)
    if clean = "llms.txt".toList ∧ isPublic then
      match ← loadManifest s.rt s.env.bucket route with
      | none => return some (notFound s.pages .manifestMissing)
      | some manifest =>
        return some (.text 200 (plainHeaders "public, max-age=300")
          (llmsTxtBody url.host manifest url.origin))
    return none

/-- The part of `dispatch` that has a route to serve. -/
def dispatchRoute (s : Setting) (request : Request) (route : RouteValue) (url : Url) :
    Serving Response := do
  if isRouteExpired s.rt.dateParse route s.now then return linkExpired s.pages
  let orgStatus ← readOrgStatus s route.orgId.text
  if let some status := blockingStatus orgStatus then return accountSuspended s.pages status
  if let some llmMeta := ← handleLLMMeta s request route url then return bodyFor request llmMeta
  if isEmbedRequested url then serveEmbed s request route url
  else
    match route.accessMode with
    | .public => servePublic s request route url
    | .password | .allowlist | .orgOnly =>
      serveGated s request route url (servePublicBody s request route url)

def dispatch (s : Setting) (request : Request) (url : Url) : Serving Response := do
  if request.method ≠ "GET" ∧ request.method ≠ "HEAD" then
    return .text 405 (Headers.setAll [("Allow", "GET, HEAD".toList),
      ("Content-Type", "text/plain;charset=UTF-8".toList)] securityHeaders)
      "Method Not Allowed".toList
  if request.headers.get "Service-Worker" = some "script".toList then
    return notFound s.pages .serviceWorkerBlocked
  let rl ← rateLimit s request url.host
  if !rl.allowed then return tooManyRequests s.pages rl.retryAfterSeconds
  let raw ← s.routeJson (routeKey url.host)
  match parseRouteValue s.rt.dateParse raw, raw with
  | some route, _ => dispatchRoute s request route url
  | none, .null => return notFound s.pages .routeNotFound
  | none, _ => return projectionError s.pages

def serve (s : Setting) (request : Request) (url : Url) : Serving Response := do
  let response ← dispatch s request url
  return if isEmbedRequested url then asFramable response else response

end Dropway.Edge
