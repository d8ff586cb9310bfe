import Dropway.Projection.Denylist

/-! The requests that revoke, up to the write of the denylist
(services/api/internal/handlers/revoke.go). -/

namespace Dropway.Api
open Lib
open Projection (Revocation kindUser kindSite kindOrg)

/-- At most 200 bytes, and no slash or space. -/
def looksLikeID (s : Text) : Bool :=
  decide (s ≠ []) && decide ((Utf8.encode s).length ≤ 200) &&
    s.all fun c => decide (c ≠ '/' ∧ c ≠ ' ' ∧ c ≠ '\t' ∧ c ≠ '\n')

inductive RevokeRequest where
  | revokeMember (userId : Text)
  | revokeSiteAccess (siteId : Text)
  | revokeAccess (kind id : Text)

/-- Who asks, and what the store says of them. -/
structure Revoker where
  orgId : Text
  admin : Bool
  orgMember : Text → Bool
  ownsSite : Text → Bool

/-- What is to be revoked, if the request is let through. -/
def RevokeRequest.target (asker : Revoker) : RevokeRequest → Option (Text × Text)
  | .revokeMember userId =>
    if asker.admin && looksLikeID userId && asker.orgMember userId then some (kindUser, userId) else none
  | .revokeSiteAccess siteId => if asker.admin && asker.ownsSite siteId then some (kindSite, siteId) else none
  | .revokeAccess kind id =>
    if ¬ asker.admin then none
    else if kind = kindUser then if looksLikeID id && asker.orgMember id then some (kindUser, id) else none
    else if kind = kindSite then if looksLikeID id && asker.ownsSite id then some (kindSite, id) else none
    -- An id that the client sends for an organisation is ignored.
    else if kind = kindOrg then if looksLikeID asker.orgId then some (kindOrg, asker.orgId) else none
    else none

/-- The call of `Revoke`; the second is the one the clock stands in. -/
def RevokeRequest.revocation (request : RevokeRequest) (asker : Revoker) (second : Int) : Option Revocation :=
  (request.target asker).map fun target => ⟨target.1, target.2, second⟩

end Dropway.Api
