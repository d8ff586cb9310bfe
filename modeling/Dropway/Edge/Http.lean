import Dropway.Lib.Uri

/-! Responses and their headers (edge/serving-worker/src/http.ts, security.ts).
Header names are written one way throughout the source, so they are compared
as they stand. -/

namespace Dropway.Edge
open Lib

abbrev Headers := List (String × Text)

namespace Headers

def get (headers : Headers) (name : String) : Option Text :=
  (headers.find? (·.1 = name)).map (·.2)

def delete (headers : Headers) (name : String) : Headers := headers.filter (·.1 ≠ name)

def set (headers : Headers) (name : String) (value : Text) : Headers :=
  headers.delete name ++ [(name, value)]

def setAll (headers : Headers) (record : List (String × String)) : Headers :=
  record.foldl (fun h (name, value) => if value = "" then h else h.set name value.toList) headers

end Headers

structure Request where
  method : String
  headers : Headers

structure Response where
  status : Nat
  headers : Headers
  body : Option Bytes

def Response.text (status : Nat) (headers : Headers) (body : Text) : Response :=
  { status, headers, body := some (Utf8.encode body) }

/-- Return a response suitable for the request method. -/
def bodyFor (request : Request) (response : Response) : Response :=
  if request.method = "HEAD" then { response with body := none } else response

/-! ### Security headers -/

def contentCsp : String :=
  "default-src 'self'; script-src 'self' 'unsafe-inline' 'unsafe-eval' blob: https:; " ++
  "style-src 'self' 'unsafe-inline' https:; img-src 'self' data: blob: https:; " ++
  "font-src 'self' data: https:; media-src 'self' data: blob: https:; " ++
  "connect-src 'self' https:; frame-ancestors 'none'; base-uri 'self'; form-action 'self'; " ++
  "object-src 'none'"

def framableContentCsp : String :=
  "default-src 'self'; script-src 'self' 'unsafe-inline' 'unsafe-eval' blob: https:; " ++
  "style-src 'self' 'unsafe-inline' https:; img-src 'self' data: blob: https:; " ++
  "font-src 'self' data: https:; media-src 'self' data: blob: https:; " ++
  "connect-src 'self' https:; frame-ancestors *; base-uri 'self'; form-action 'self'; " ++
  "object-src 'none'"

def platformCsp : String :=
  "default-src 'none'; style-src 'unsafe-inline'; img-src 'self' data:; " ++
  "frame-ancestors 'none'; base-uri 'none'; form-action 'none'"

def framablePlatformCsp : String :=
  "default-src 'none'; style-src 'unsafe-inline'; img-src 'self' data:; " ++
  "frame-ancestors *; base-uri 'none'; form-action 'none'"

private def baseSecurityHeaders : List (String × String) :=
  [("X-Content-Type-Options", "nosniff"), ("Referrer-Policy", "no-referrer"),
    ("X-Frame-Options", "DENY"), ("Cross-Origin-Opener-Policy", "same-origin"),
    ("Cross-Origin-Resource-Policy", "same-site")]

private def framableSecurityHeaders : List (String × String) :=
  [("X-Content-Type-Options", "nosniff"), ("Referrer-Policy", "no-referrer"),
    ("Cross-Origin-Opener-Policy", "same-origin"),
    ("Cross-Origin-Resource-Policy", "cross-origin")]

def contentSecurityHeaders : List (String × String) :=
  baseSecurityHeaders ++ [("Content-Security-Policy", contentCsp)]

def platformSecurityHeaders : List (String × String) :=
  baseSecurityHeaders ++ [("Content-Security-Policy", platformCsp)]

def framableContentSecurityHeaders : List (String × String) :=
  framableSecurityHeaders ++ [("Content-Security-Policy", framableContentCsp)]

def framablePlatformSecurityHeaders : List (String × String) :=
  framableSecurityHeaders ++ [("Content-Security-Policy", framablePlatformCsp)]

def securityHeaders : List (String × String) := contentSecurityHeaders

/-- The first occurrence only, as `String.prototype.replace` with a string. -/
def replaceFirst (pattern replacement : Text) : Text → Text
  | [] => if pattern = [] then replacement else []
  | c :: rest =>
    if pattern.isPrefixOf (c :: rest) then replacement ++ (c :: rest).drop pattern.length
    else c :: replaceFirst pattern replacement rest

/-! ### Content types and caching -/

def extensionOf (key : Text) : Text :=
  let last := (key.splitOn '/').getLastD []
  let name := last.reverse.dropWhile (· ≠ '.')
  if '.' ∈ last ∧ 1 < name.length ∧ last.getLast? ≠ some '.' then
    Text.lower (last.drop name.length)
  else []

private def mime : List (String × String) :=
  [("html", "text/html; charset=utf-8"), ("htm", "text/html; charset=utf-8"),
    ("xml", "application/xml; charset=utf-8"), ("txt", "text/plain; charset=utf-8"),
    ("md", "text/markdown; charset=utf-8"), ("css", "text/css; charset=utf-8"),
    ("js", "text/javascript; charset=utf-8"), ("mjs", "text/javascript; charset=utf-8"),
    ("map", "application/json; charset=utf-8"), ("json", "application/json; charset=utf-8"),
    ("png", "image/png"), ("jpg", "image/jpeg"), ("jpeg", "image/jpeg"), ("gif", "image/gif"),
    ("webp", "image/webp"), ("avif", "image/avif"), ("svg", "image/svg+xml"),
    ("ico", "image/x-icon"), ("woff", "font/woff"), ("woff2", "font/woff2"), ("ttf", "font/ttf"),
    ("otf", "font/otf"), ("eot", "application/vnd.ms-fontobject"), ("wasm", "application/wasm"),
    ("pdf", "application/pdf"), ("webmanifest", "application/manifest+json")]

def contentTypeFor (key : Text) : String :=
  ((mime.find? (·.1.toList = extensionOf key)).map (·.2)).getD "application/octet-stream"

def isHtml (key : Text) : Bool :=
  extensionOf key = "html".toList || extensionOf key = "htm".toList

/-- `/[.\-_][0-9a-zA-Z]{8,}\.[0-9a-zA-Z]+$/` on the final segment. -/
def isHashedAsset (key : Text) : Bool :=
  let last := ((key.splitOn '/').getLastD []).reverse
  let ext := last.takeWhile Char.isAlphanum
  let afterDot := (last.dropWhile Char.isAlphanum).tail
  let mark := (afterDot.dropWhile Char.isAlphanum).head?
  !isHtml key && ext ≠ [] && (last.dropWhile Char.isAlphanum).head? = some '.' &&
    8 ≤ (afterDot.takeWhile Char.isAlphanum).length &&
    (mark = some '.' || mark = some '-' || mark = some '_')

def cacheControlFor (servedPath : Text) : String :=
  if isHashedAsset servedPath then "public, max-age=31536000, immutable"
  else "public, max-age=60, must-revalidate"

structure HeaderInputs where
  contentType : Option String
  etag : Option Text := none
  lastModified : Option Text := none
  contentLength : Option Nat := none

private def objectHeaders (security : List (String × String)) (servedPath : Text)
    (opts : HeaderInputs) : Headers :=
  let h := Headers.setAll
    [("Content-Type", (opts.contentType.getD (contentTypeFor servedPath)).toList),
      ("Cache-Control", (cacheControlFor servedPath).toList)] security
  let h := match opts.etag with
    | some etag => if etag = [] then h else Headers.set h "ETag" etag
    | none => h
  let h := match opts.lastModified with
    | some date => Headers.set h "Last-Modified" date
    | none => h
  match opts.contentLength with
  | some length => Headers.set h "Content-Length" (toString length).toList
  | none => h

def publicResponseHeaders (servedPath : Text) (opts : HeaderInputs) : Headers :=
  objectHeaders securityHeaders servedPath opts

def embedResponseHeaders (servedPath : Text) (opts : HeaderInputs) : Headers :=
  objectHeaders framableContentSecurityHeaders servedPath opts

end Dropway.Edge
