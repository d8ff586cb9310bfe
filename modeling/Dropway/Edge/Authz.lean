import Dropway.Edge.Env

/-! The gate of a password, allowlist or members-only site: the edge cookie, the
exchange, and its callback (edge/serving-worker/src/authz.ts, gated.ts). -/

namespace Dropway.Edge
open Lib Lib.Uri

def edgeCookieName : Text := "__Host-edge".toList
def authzCallbackPath : Text := "/__authz/callback".toList

private def privateCache : Text := "private, no-store, max-age=0, must-revalidate".toList

private def noStoreHeaders : Headers :=
  ((Headers.setAll [] securityHeaders).set "Cache-Control" privateCache).set "Vary" "Cookie".toList

/-- The first cookie of that name; an empty one is none. -/
def readEdgeCookie (request : Request) : Option Text := do
  let header ← request.headers.get "Cookie"
  let part ← (header.splitOn ';').find? fun part =>
    decide ('=' ∈ part) && decide (Text.trim (part.takeWhile (· ≠ '=')) = edgeCookieName)
  let value := Text.trim (part.dropWhile (· ≠ '=')).tail
  if value = [] then none else some value

/-- A path on the same host, and `/` for anything else. -/
def safeNextPath (next : Option Text) : Text :=
  match next.filter (· ≠ []) with
  | none => "/".toList
  | some next =>
    match decodeURIComponent next with
    | none => "/".toList
    | some candidate =>
      if candidate.head? ≠ some '/' then "/".toList
      else if Text.startsWith candidate "//".toList then "/".toList
      else if '\\' ∈ candidate then "/".toList
      else if candidate.any fun c => c.toNat ≤ 0x20 || c.toNat = 0x7F then "/".toList
      else candidate

def redirectToAuthz (s : Setting) (host nextPath : Text) : Except Thrown Response :=
  match s.rt.urlParse (gatedConfig s.env).appAuthzUrl with
  | none => .error .urlError
  | some url =>
    let location := (url.withParam "host".toList host).withParam "next".toList
      (safeNextPath (some nextPath))
    .ok { status := 302, headers := noStoreHeaders.set "Location" location.toText, body := none }

def edgeCookieMaxAge : Nat := 15 * 60

def edgeCookie (token : Text) (maxAgeSeconds : Nat) : Text :=
  edgeCookieName ++ "=".toList ++ token ++ "; Path=/; Secure; HttpOnly; SameSite=Lax; Max-Age=".toList ++
    (toString maxAgeSeconds).toList

/-- Verify a token against this route, keeping the keys that were fetched. -/
def verifyTokenSafely (s : Setting) (route : RouteValue) (host token : Text) :
    StateM World (Option EdgeClaims) := do
  let jwksUrl := (gatedConfig s.env).jwksUrl
  let (claims, kept) := verifyEdgeToken s.jose s.fetchImpl ((← get).jwksCache jwksUrl)
    { token, host, siteId := route.siteId.text, expectedMode := route.accessMode.text, jwksUrl,
      now := s.gateNow }
  if kept.isSome then
    modify fun world => { world with jwksCache := Function.update world.jwksCache jwksUrl kept }
  return claims

def handleAuthzCallback (s : Setting) (route : RouteValue) (url : Url) : Serving Response := do
  let token := (url.getParam "token".toList).getD []
  let nextPath := safeNextPath (url.getParam "next".toList)
  let claims ← if token = [] then pure none else verifyTokenSafely s route url.host token
  match claims with
  | none => redirectToAuthz s url.host nextPath
  | some _ =>
    let location := resolveReference ("https://".toList ++ url.host) nextPath
    return { status := 302
             headers := (noStoreHeaders.set "Set-Cookie" (edgeCookie token edgeCookieMaxAge)).set
               "Location" location
             body := none }

def authorizeGated (s : Setting) (request : Request) (route : RouteValue) (url : Url) :
    StateM World (Option EdgeClaims) :=
  match readEdgeCookie request with
  | none => return none
  | some token => verifyTokenSafely s route url.host token

def asPrivate (headers : Headers) : Headers :=
  ((headers.setAll securityHeaders).set "Cache-Control" privateCache).set "Vary" "Cookie".toList

/-- Serve a request whose route is gated. -/
def serveGated (s : Setting) (request : Request) (route : RouteValue) (url : Url)
    (serveContent : Serving Response) : Serving Response := do
  if url.pathname = authzCallbackPath then handleAuthzCallback s route url
  else
    let claims ← authorizeGated s request route url
    match claims with
    | none => redirectToAuthz s url.host (url.pathname ++ url.search)
    | some claims =>
      let revoked := isRevoked s.rt (revokedKV s.env)
        { sub := claims.sub.toList, siteId := claims.siteId, orgId := route.orgId.text,
          iat := claims.iat }
      if revoked then redirectToAuthz s url.host (url.pathname ++ url.search)
      else
        let response ← serveContent
        return { response with headers := asPrivate response.headers }

end Dropway.Edge
