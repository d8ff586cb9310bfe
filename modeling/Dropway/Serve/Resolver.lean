import Dropway.Api.Projection

/-! How the Go server finds a host's route in the database itself
(services/serve/internal/storeadapter), and when it takes the route as expired
(services/serve/internal/route). -/

namespace Dropway.Serve
open Lib
open Api (Database Instant Timestamptz rfc3339)
open Edge (AccessMode)

structure Route where
  orgId : Text
  siteId : Text
  versionId : Text
  accessMode : AccessMode
  expiresAt : Option Instant

/-- The policy's expiry where it comes before the one that is there. -/
def earlier (expiresAt : Option Instant) (policy : Instant) : Option Instant :=
  match expiresAt with
  | none => some policy
  | some deadline => if policy < deadline then some policy else some deadline

/-- An unknown host and a host without a version are both `ErrHostNotFound`. -/
def resolve (db : Database) (normalizedHost : Text) : Option Route := do
  let row ← db.resolveHost normalizedHost
  let versionId ← row.versionId
  let preview := row.previewExpiresAt.map Timestamptz.time
  let policy := (db.getSiteAccessPolicy row.siteId row.orgId).bind (·.expiresAt)
  let expiresAt :=
    match policy with
    | none => preview
    | some expires => earlier preview expires.time
  return { orgId := row.orgId, siteId := row.siteId, versionId, accessMode := row.accessMode, expiresAt }

def Route.routeValue (r : Route) : Api.RouteValue :=
  { orgId := r.orgId, siteId := r.siteId, versionId := r.versionId, accessMode := r.accessMode
    schemaVersion := Api.schemaVersion, expiresAt := (r.expiresAt.map rfc3339).getD []
    planTier := [], chatId := [] }

def isRouteExpired (v : Api.RouteValue) (now : Instant) : Bool :=
  if v.expiresAt = [] then false
  else
    match Rfc3339.parse v.expiresAt with
    | none => true
    | some exp => decide (exp ≤ now)

end Dropway.Serve
