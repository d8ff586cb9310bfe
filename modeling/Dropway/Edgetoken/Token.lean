import Dropway.Lib.Json
import Dropway.Lib.Utf8
import Mathlib.Algebra.Order.Floor.Defs

/-! Edge tokens, as they are minted and as Go verifies them (internal/edgetoken).
Signatures and the standard claims are the JWT library's. -/

namespace Dropway.Edgetoken
open Lib

def issuer : Text := "https://api.dropway.dev/edge".toList

def modePassword : Text := "password".toList
def modeAllowlist : Text := "allowlist".toList
def modeOrgOnly : Text := "org_only".toList

/-- Dates are in whole seconds. -/
structure Claims where
  issuer : Text
  subject : Text
  audience : List Text
  expiresAt : Option Int
  issuedAt : Option Int
  id : Text
  siteId : Text
  mode : Text

/-- The time to live is in seconds; zero asks for the default. -/
structure MintParams (K : Type) where
  contentHost : Text
  subject : Text
  siteId : Text
  mode : Text
  ttl : K

inductive MintError where
  | emptyContentHost
  | emptySubject
  | emptySiteId
  | invalidMode (mode : Text)
  | random

section
variable {K : Type} [Ring K] [LinearOrder K] [FloorRing K]

def defaultTTL : K := 15 * 60

/-- The claims that are signed. The id is drawn before the clock is read; a draw
may fail. -/
def mint (p : MintParams K) (jti : Option Text) (now : K) : Except MintError Claims :=
  if p.contentHost = [] then .error .emptyContentHost
  else if p.subject = [] then .error .emptySubject
  else if p.siteId = [] then .error .emptySiteId
  else if ¬ [modePassword, modeAllowlist, modeOrgOnly].contains p.mode then .error (.invalidMode p.mode)
  else
    let ttl := if p.ttl = 0 then defaultTTL else p.ttl
    match jti with
    | none => .error .random
    | some id =>
      .ok { issuer, subject := p.subject, audience := [p.contentHost], expiresAt := some ⌊now + ttl⌋
            issuedAt := some ⌊now⌋, id, siteId := p.siteId, mode := p.mode }

end

private def dateMember (name : String) (date : Option Int) : List (String × Json) :=
  (date.map fun date => (name, .num date)).toList

/-- The payload of the token, as JavaScript reads it. -/
def Claims.payload (claims : Claims) : List (String × Json) :=
  [("iss", .str (String.ofList claims.issuer)), ("sub", .str (String.ofList claims.subject)),
    ("aud", .arr (claims.audience.map fun host => .str (String.ofList host)))] ++
    dateMember "exp" claims.expiresAt ++ dateMember "iat" claims.issuedAt ++
    [("jti", .str (String.ofList claims.id)), ("site_id", .str (String.ofList claims.siteId)),
      ("mode", .str (String.ofList claims.mode))]

/-- The claims of a token that the library accepts under keys, for an audience,
with the algorithm and the issuer pinned and an expiry required. -/
abbrev ParseWithClaims := List (Bytes × Bytes) → Text → Text → Option Claims

def verify (parse : ParseWithClaims) (keys : List (Bytes × Bytes)) (token expectedHost : Text) : Option Claims :=
  if expectedHost = [] then none
  else
    (parse keys expectedHost token).filter fun claims =>
      decide (claims.siteId ≠ []) && [modePassword, modeAllowlist, modeOrgOnly].contains claims.mode

end Dropway.Edgetoken
