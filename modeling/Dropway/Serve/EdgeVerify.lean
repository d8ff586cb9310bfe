import Dropway.Edgetoken.Token
import Dropway.Projection.Denylist
import Dropway.Serve.Jwks

/-! The verifier of the Go serve plane (services/serve/internal/edgeverify/verify.go). -/

namespace Dropway.Serve
open Lib
open Projection (LookupError kindUser kindSite kindOrg)

/-- The entry of a kind and id; nothing is a clean miss. -/
abbrev RevocationReader := Text → Text → Except LookupError (Option Int)

structure Verifier where
  /-- What loading the keys gives. -/
  keys : Option PublicKeys
  parse : Edgetoken.ParseWithClaims
  revoked : Option RevocationReader

structure VerifyResult where
  sub : Text
  siteId : Text
  mode : Text
  iat : Int
  deriving DecidableEq

/-- Without a reader, and where a read fails, everything is revoked. -/
def Verifier.isRevoked (v : Verifier) (sub siteId orgId : Text) (iat : Int) : Bool :=
  match v.revoked with
  | none => true
  | some minIAT =>
    [(kindUser, sub), (kindSite, siteId), (kindOrg, orgId)].any fun (kind, id) =>
      match minIAT kind id with
      | .error _ => true
      | .ok none => false
      | .ok (some minIAT) => decide (iat < minIAT)

/-- The organisation is the route's. -/
def Verifier.verify (v : Verifier) (token host routeSiteId routeMode routeOrgId : Text) : Option VerifyResult :=
  if token = [] ∨ host = [] ∨ routeSiteId = [] then none
  else do
    let keys ← v.keys
    let claims ← Edgetoken.verify v.parse keys token host
    if claims.siteId ≠ routeSiteId then none
    else if routeMode ≠ [] ∧ claims.mode ≠ routeMode then none
    else if claims.subject = [] then none
    else
      let iat := claims.issuedAt.getD 0
      if v.isRevoked claims.subject routeSiteId routeOrgId iat then none
      else some { sub := claims.subject, siteId := claims.siteId, mode := claims.mode, iat }

end Dropway.Serve
