import Dropway.Edge.Route

/-! The edge token of a gated host: the keys it is verified with, and what is
required of its claims (edge/serving-worker/src/edgetoken.ts). -/

namespace Dropway.Edge
open Lib

/-- A `Map` from key id to imported key. An imported key is known by its JWK. -/
abbrev Keys := List (Text × Json)

def Keys.set (keys : Keys) (kid : Text) (key : Json) : Keys :=
  if keys.any (·.1 = kid) then keys.map fun entry => if entry.1 = kid then (kid, key) else entry
  else keys ++ [(kid, key)]

structure JwksCacheEntry where
  keys : Keys
  expiresAt : Int

structure VerifyOptions where
  algorithms : List String
  issuer : String
  audience : Text
  requiredClaims : List String
  clockTolerance : Nat
  currentDate : Int

/-- The library that imports keys and verifies signatures. -/
structure Jose where
  importJWK : Json → Bool
  /-- The payload of a token that verifies under one of the keys. -/
  jwtVerify : Text → Keys → VerifyOptions → Option (List (String × Json))

structure FetchResponse where
  ok : Bool
  json : Option Json

/-- A fetch, which gives nothing when it throws. -/
abbrev FetchLike := Text → Option FetchResponse

def edgeAlg : String := "EdDSA"
def edgeModes : List String := ["password", "allowlist", "org_only"]
def edgeTokenIssuer : String := "https://api.dropway.dev/edge"
def jwksTtlMs : Int := 5 * 60000
def jwksStaleGraceMs : Int := 10 * 60000

def parseJwks : Json → Option (List (List (String × Json)))
  | .obj members =>
    match Json.member members "keys" with
    | some (.arr keys) => some (keys.filterMap fun
      | .obj jwk => some jwk
      | _ => none)
    | _ => none
  | _ => none

/-- The key id of a usable signing key. -/
private def signingKid (jwk : List (String × Json)) : Option String :=
  match Json.member jwk "kty", Json.member jwk "crv", Json.member jwk "kid" with
  | some (.str "OKP"), some (.str "Ed25519"), some (.str kid) => some kid
  | _, _, _ => none

def importKeys (jose : Jose) (doc : List (List (String × Json))) : Keys :=
  doc.foldl (fun keys jwk =>
    match signingKid jwk with
    | some kid => if jose.importJWK (.obj jwk) then keys.set kid.toList (.obj jwk) else keys
    | none => keys) []

def fetchJwks (fetchImpl : FetchLike) (jwksUrl : Text) : Option (List (List (String × Json))) := do
  let res ← fetchImpl jwksUrl
  if !res.ok then none
  parseJwks (← res.json)

/-- The keys to verify with and the cache entry to keep, if any. No keys means
that the load throws. -/
def loadKeys (jose : Jose) (fetchImpl : FetchLike) (jwksUrl : Text) (cached : Option JwksCacheEntry)
    (now : Int) : Option Keys × Option JwksCacheEntry :=
  match cached.filter fun entry => now < entry.expiresAt with
  | some entry => (some entry.keys, none)
  | none =>
    let stale := (cached.filter fun entry => now < entry.expiresAt + jwksStaleGraceMs).map (·.keys)
    match fetchJwks fetchImpl jwksUrl with
    | none => (stale, none)
    | some doc =>
      let keys := importKeys jose doc
      if keys = [] then (stale, none)
      else (some keys, some { keys, expiresAt := now + jwksTtlMs })

structure EdgeClaims where
  sub : String
  aud : Text
  siteId : Text
  mode : String
  iat : Rat

structure VerifyParams where
  token : Text
  host : Text
  siteId : Text
  expectedMode : String
  jwksUrl : Text
  now : Int

def verifyOptions (host : Text) (now : Int) : VerifyOptions :=
  { algorithms := [edgeAlg], issuer := edgeTokenIssuer, audience := host,
    requiredClaims := ["exp", "sub"], clockTolerance := 0, currentDate := now }

/-- The claims of a verified payload, if they are for this site and mode. -/
def edgeClaims (p : VerifyParams) (payload : List (String × Json)) : Option EdgeClaims :=
  match Json.member payload "site_id", Json.member payload "mode", Json.member payload "sub" with
  | some (.str siteId), some (.str mode), some (.str sub) =>
    if siteId.toList ≠ p.siteId then none
    else if mode ∉ edgeModes then none
    else if mode ≠ p.expectedMode then none
    else if sub = "" then none
    else
      let iat := match Json.member payload "iat" with
        | some (.num iat) => iat
        | _ => 0
      some { sub, aud := p.host, siteId := siteId.toList, mode, iat }
  | _, _, _ => none

/-- The claims of a token, with the cache entry to keep. A load that throws is
taken for a token that does not verify, as every caller does. -/
def verifyEdgeToken (jose : Jose) (fetchImpl : FetchLike) (cached : Option JwksCacheEntry)
    (p : VerifyParams) : Option EdgeClaims × Option JwksCacheEntry :=
  if p.token = [] ∨ p.host = [] ∨ p.siteId = [] then (none, none)
  else
    let (loaded, kept) := loadKeys jose fetchImpl p.jwksUrl cached p.now
    let claims := do
      let payload ← jose.jwtVerify p.token (← loaded) (verifyOptions p.host p.now)
      edgeClaims p payload
    (claims, kept)

end Dropway.Edge
