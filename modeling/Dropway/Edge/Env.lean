import Dropway.Edge.Revoke
import Dropway.Edge.Token

/-! The bindings of the serving Worker and what outlives a request
(edge/serving-worker/src/index.ts). Metrics and error reports are sent past the
response and are left out. -/

namespace Dropway.Edge
open Lib Lib.Uri

/-- Operations on the counter namespace that fail. -/
structure KVFaults where
  get : Text → Bool
  put : Text → Bool

structure Env where
  routes : KVRead
  bucket : Bucket
  edgeJwksUrl : Option Text
  appAuthzUrl : Option Text
  /-- The verdict of the native limiter, which fails when the binding does. -/
  rateLimiter : Option (Text → Except Thrown Bool)
  limits : Option KVFaults
  revoked : Option KVRead
  rateLimitMax : Option Text
  rateLimitWindowSeconds : Option Text
  attributionBanner : Option Text

/-- The counter namespace, the key cache of the isolate and the cache of the PoP. -/
structure World where
  limits : Text → Option Text
  jwksCache : Text → Option JwksCacheEntry
  cache : Text → Option Response

abbrev Serving := ExceptT Thrown (StateM World)

/-- What is fixed during a request. The clock is read when the request comes in
and again at the gate. -/
structure Setting where
  rt : Runtime
  jose : Jose
  pages : Pages
  env : Env
  cache : Bool
  fetchImpl : FetchLike
  now : Int
  gateNow : Int

/-- `ROUTES.get(key, "json")`: null when there is nothing. -/
def Setting.routeJson (s : Setting) (key : Text) : Except Thrown Json :=
  match s.env.routes key with
  | .error thrown => .error thrown
  | .ok none => .ok .null
  | .ok (some raw) =>
    match s.rt.jsonParse raw with
    | some json => .ok json
    | none => .error .jsonError

def revokedKV (env : Env) : KVRead := env.revoked.getD env.routes

structure GatedConfig where
  jwksUrl : Text
  appAuthzUrl : Text

private def readVar (value : Option Text) (fallback : String) : Text :=
  ((value.map Text.trim).filter (· ≠ [])).getD fallback.toList

def gatedConfig (env : Env) : GatedConfig :=
  { jwksUrl := readVar env.edgeJwksUrl "https://api.dropway.dev/.well-known/edge-jwks"
    appAuthzUrl := readVar env.appAuthzUrl "https://app.dropway.dev/authz" }

end Dropway.Edge
