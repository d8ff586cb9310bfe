import Dropway.Api.Store

/-! What the handlers write to the edge once a transaction has committed
(internal/handlers): route by route, in the order listed. -/

namespace Dropway.Api
open Lib

inductive EdgeWrite where
  | putRoute (host : Text) (route : RouteValue)
  | deleteRoute (host : Text)
  deriving DecidableEq

def putRoutes (updates : List RouteUpdate) : List EdgeWrite :=
  updates.map fun update => .putRoute update.host update.route

inductive Request where
  | publish (siteId versionId : Text)
  | setSiteAccess (params : SetAccessParams)
  | setAllowExternalSharing (enabled : Bool)
  | getDomainStatus (id : Text) (verify : VerifyStatus) (tls : TLSStatus)
  | deleteDomain (id : Text)
  | deleteSite (id : Text)
  | createPreview (siteId versionId : Text) (ttl : Instant)
  | deletePreview (siteId versionId : Text)
  | refreshChat (siteId : Text)
  | reprojectOrgRoutes

/-- Without routes of its own a publish projects the canonical host. -/
def PublishResult.projected (res : PublishResult) : List RouteUpdate :=
  match res.routes with
  | [] => res.canonical.toList
  | routes => routes

def MarkDomainVerifiedResult.projected (res : MarkDomainVerifiedResult) : List RouteUpdate :=
  match res.route with
  | some route => if res.registered then [⟨res.host, route⟩] else []
  | none => []

/-- The transaction of a request and the writes that follow it. -/
def Request.transact (config : Config) (t : Tenant) (now : Instant) (db : Database) :
    Request → Except StoreError (Database × List EdgeWrite)
  | .publish siteId versionId => do
    let (db, res) ← Api.publish config t siteId versionId db
    return (db, putRoutes res.projected ++ res.deletedPreviewHosts.map .deleteRoute)
  | .setSiteAccess params => do
    let (db, res) ← Api.setSiteAccess config t params db
    return (db, putRoutes res.routes)
  | .setAllowExternalSharing enabled => do
    let (db, res) ← Api.setAllowExternalSharing t enabled db
    return (db, putRoutes res.downgraded)
  | .getDomainStatus id verify tls => do
    let (db, res) ← updateDomainStatus t id verify tls db
    return (db, putRoutes res.projected)
  | .deleteDomain id => do
    let (db, res) ← Api.deleteDomain t id db
    return (db, [.deleteRoute res.hostname])
  | .deleteSite id => do
    let (db, hosts) ← Api.deleteSite t id db
    return (db, hosts.map .deleteRoute)
  | .createPreview siteId versionId ttl => do
    let (db, res) ← createPreviewRoute config t siteId versionId now ttl db
    return (db, [.putRoute res.host res.route])
  | .deletePreview siteId versionId => do
    let (db, hosts) ← deletePreviewRoutes t siteId versionId db
    return (db, hosts.map .deleteRoute)
  | .refreshChat siteId => do
    let routes ← siteChatRoutes t siteId db
    return (db, putRoutes routes)
  | .reprojectOrgRoutes =>
    .ok (db, (db.collectRoutesForOrg now t.orgId).entries.map fun entry =>
      .putRoute entry.1 entry.2)

end Dropway.Api
