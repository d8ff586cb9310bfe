import Dropway.Api.Projection
import Dropway.Lib.Outcome

/-! The transactions that change what is served (internal/store). Each takes the
database and gives the one it commits, with what its caller projects; an error
rolls it back. -/

namespace Dropway.Api
open Lib Lib.Outcome
open Edge (AccessMode)

structure Tenant where
  orgId : Text
  userId : Text

structure Config where
  contentDomain : Text

inductive StoreError where
  | notFound
  | invalidMode
  | externalSharingDisabled
  | versionMismatch
  | hostTaken
  | slugTaken
  | quotaExceeded
  | orgSlugNotFound
  | db (error : DbError)
  deriving Repr, DecidableEq

/-- The trigger's rejection has an error of its own. -/
def sharingError : DbError → StoreError
  | .checkViolation => .externalSharingDisabled
  | error => .db error

/-- Go's zero time. -/
def zeroTime : Instant := -62135596800000000000

def deadlineOf (row : HostRoute) : Instant := (row.expiresAt.map Timestamptz.time).getD zeroTime

def orgSlugTx (db : Database) (orgId : Text) : Except StoreError Text := do
  let organization ← orFail (db.organizations.get? orgId) .orgSlugNotFound
  require (organization.slug ≠ []) .orgSlugNotFound
  return organization.slug

/-- The value of a site's live hosts, as publishing and the chat refresh have it. -/
def siteRoute (db : Database) (t : Tenant) (siteId versionId : Text) (mode : AccessMode) : RouteValue :=
  routeValue t.orgId siteId versionId mode (db.siteExpiry siteId t.orgId mode)
    (db.getPlanTier t.orgId) (db.chatIdForSite t.orgId siteId)

structure PublishResult where
  site : Site
  canonical : Option RouteUpdate
  routes : List RouteUpdate
  deletedPreviewHosts : List Text

def publish (config : Config) (t : Tenant) (siteId versionId : Text) (db : Database) :
    Except StoreError (Database × PublishResult) := do
  let site ← orFail (db.getSite siteId t.orgId) .notFound
  let version ← orFail (db.getSiteVersion versionId t.orgId) .notFound
  require (version.siteId = siteId) .versionMismatch
  let orgSlug ← orgSlugTx db t.orgId
  let host := hostForSite config.contentDomain orgSlug site.slug
  let row ← orFail (db.getHostRoute host t.orgId) .hostTaken
  require (row.siteId = siteId) .hostTaken
  let db := db.setCurrentVersion siteId versionId t.orgId
  let route := siteRoute db t siteId versionId site.accessMode
  let routes := (db.liveHosts siteId t.orgId).map fun row => ⟨row.host, route⟩
  let (db, deletedPreviewHosts) := db.deleteSitePreviewRoutesExcept siteId t.orgId none
  let db := db.setVersionPreviewExpiry versionId none t.orgId
  return (db, { site := { site with currentVersionId := some versionId },
                canonical := some ⟨host, route⟩, routes, deletedPreviewHosts })

structure SetAccessParams where
  siteId : Text
  mode : String
  passwordHash : Text
  expiresAt : Option Instant
  unlisted : Bool

def SetAccessParams.policy (p : SetAccessParams) (t : Tenant) (mode : AccessMode) : AccessPolicy where
  siteId := p.siteId
  orgId := t.orgId
  mode := mode
  passwordHash := if mode = .password ∧ p.passwordHash ≠ [] then some p.passwordHash else none
  expiresAt := p.expiresAt.map Timestamptz.ofTime
  unlisted := p.unlisted

/-- The route of a host after an access change. A preview keeps its version and
its deadline. -/
def accessRoute (t : Tenant) (site : Site) (mode : AccessMode) (expiresAt chatId : Text)
    (row : HostRoute) : Option RouteUpdate :=
  match (if row.kind = .preview then row.versionId else none), site.currentVersionId with
  | some versionId, _ =>
    some { host := row.host
           route := { orgId := t.orgId, siteId := site.id, versionId, accessMode := mode, schemaVersion
                      expiresAt := earliestExpiry expiresAt (deadlineOf row)
                      planTier := [], chatId := [] } }
  | none, some versionId =>
    some { host := row.host
           route := { orgId := t.orgId, siteId := site.id, versionId, accessMode := mode, schemaVersion
                      expiresAt, planTier := [], chatId } }
  | none, none => none

/-- The canonical pair, where there is a live version to serve. -/
def accessCanonical (config : Config) (t : Tenant) (db : Database) (site : Site) (mode : AccessMode)
    (expiresAt chatId : Text) : Except StoreError (Option RouteUpdate) := do
  match site.currentVersionId with
  | none => return none
  | some versionId =>
    let orgSlug ← orgSlugTx db t.orgId
    return some { host := hostForSite config.contentDomain orgSlug site.slug
                  route := { orgId := t.orgId, siteId := site.id, versionId, accessMode := mode
                             schemaVersion, expiresAt, planTier := [], chatId } }

def setSiteAccess (config : Config) (t : Tenant) (p : SetAccessParams) (db : Database) :
    Except StoreError (Database × PublishResult) := do
  let mode ← orFail (AccessMode.parse? p.mode) .invalidMode
  let site ← orFail (db.getSite p.siteId t.orgId) .notFound
  let db ← (db.setSiteAccessMode p.siteId mode t.orgId).mapError sharingError
  let policy := p.policy t mode
  let db ← (db.upsertSiteAccessPolicy policy).mapError sharingError
  let expiresAt := routeExpiry mode policy
  let chatId := db.chatIdForSite t.orgId p.siteId
  let routes := (db.listHostRoutesForSite p.siteId t.orgId).filterMap
    (accessRoute t site mode expiresAt chatId)
  let canonical ← accessCanonical config t db site mode expiresAt chatId
  return (db, { site := { site with accessMode := mode }, canonical, routes, deletedPreviewHosts := [] })

/-- The route of a host of a site that stops being public. -/
def downgradeRoute (t : Tenant) (site : Site) (chatId : Text) (row : HostRoute) : Option RouteUpdate :=
  match (if row.kind = .preview then row.versionId else none), site.currentVersionId with
  | some versionId, _ =>
    some { host := row.host
           route := { orgId := t.orgId, siteId := site.id, versionId, accessMode := .orgOnly
                      schemaVersion
                      expiresAt := (row.expiresAt.map fun expires => rfc3339 expires.time).getD []
                      planTier := [], chatId := [] } }
  | none, some versionId =>
    some { host := row.host
           route := { orgId := t.orgId, siteId := site.id, versionId, accessMode := .orgOnly
                      schemaVersion, expiresAt := [], planTier := [], chatId } }
  | none, none => none

/-- The policy row a downgraded site keeps. -/
def orgOnlyPolicy (t : Tenant) (siteId : Text) : AccessPolicy :=
  { siteId, orgId := t.orgId, mode := .orgOnly, passwordHash := none, expiresAt := none
    unlisted := false }

def mirrorOrgOnly (t : Tenant) (siteId : Text) (db : Database) : Except StoreError Database :=
  if (db.getSiteAccessPolicy siteId t.orgId).isSome then
    (db.upsertSiteAccessPolicy (orgOnlyPolicy t siteId)).mapError .db
  else .ok db

def downgradeSites (t : Tenant) :
    List Site → Database → Except StoreError (Database × List RouteUpdate)
  | [], db => .ok (db, [])
  | site :: rest, db => do
    let db ← (db.setSiteAccessMode site.id .orgOnly t.orgId).mapError .db
    let db ← mirrorOrgOnly t site.id db
    let chatId := db.chatIdForSite t.orgId site.id
    let updates := (db.listHostRoutesForSite site.id t.orgId).filterMap (downgradeRoute t site chatId)
    let (db, more) ← downgradeSites t rest db
    return (db, updates ++ more)

structure ReconcileResult where
  allowExternalSharing : Bool
  downgraded : List RouteUpdate

/-- Only turning the policy off has anything to reconcile. -/
def setAllowExternalSharing (t : Tenant) (enabled : Bool) (db : Database) :
    Except StoreError (Database × ReconcileResult) := do
  let db := db.setAllowExternalSharing t.orgId enabled
  if enabled then return (db, { allowExternalSharing := enabled, downgraded := [] })
  let (db, downgraded) ← downgradeSites t (db.listPublicSitesForOrg t.orgId) db
  return (db.deleteExternalAllowlistEntriesForOrg t.orgId,
    { allowExternalSharing := enabled, downgraded })

structure MarkDomainVerifiedResult where
  domain : Domain
  host : Text
  route : Option RouteValue
  registered : Bool

def updateDomainStatus (t : Tenant) (id : Text) (verify : VerifyStatus) (tls : TLSStatus)
    (db : Database) : Except StoreError (Database × MarkDomainVerifiedResult) := do
  let existing ← orFail (db.getDomain id t.orgId) .notFound
  let db := db.updateDomainStatus id verify tls t.orgId
  let domain := { existing with verifyStatus := verify, tlsStatus := tls }
  if verify = .verified ∧ tls = .issued then
    let site ← orFail (db.getSite domain.siteId t.orgId) .notFound
    let db ← (db.upsertHostRoute domain.hostname t.orgId domain.siteId).mapError .db
    let route := site.currentVersionId.map fun versionId =>
      { orgId := t.orgId, siteId := domain.siteId, versionId, accessMode := site.accessMode
        schemaVersion, expiresAt := [], planTier := []
        chatId := db.chatIdForSite t.orgId domain.siteId }
    return (db, { domain, host := domain.hostname, route, registered := true })
  return (db, { domain, host := [], route := none, registered := false })

structure PreviewResult where
  host : Text
  route : RouteValue
  expiresAt : Instant

def createPreviewRoute (config : Config) (t : Tenant) (siteId versionId : Text) (now ttl : Instant)
    (db : Database) : Except StoreError (Database × PreviewResult) := do
  let site ← orFail (db.getSite siteId t.orgId) .notFound
  let version ← orFail (db.getSiteVersion versionId t.orgId) .notFound
  require (version.siteId = siteId) .versionMismatch
  require (version.status = .ready) .versionMismatch
  let orgSlug ← orgSlugTx db t.orgId
  let host := previewHostForSite config.contentDomain versionId orgSlug site.slug
  let expiresAt := now + ttl
  let stamp := Timestamptz.ofTime expiresAt
  let db ← (db.upsertPreviewRoute host t.orgId siteId versionId stamp).mapError .db
  -- The upsert leaves a host alone that is not a preview of this site.
  let row ← orFail (db.getHostRoute host t.orgId) .hostTaken
  require (row.siteId = siteId ∧ row.kind = .preview) .hostTaken
  let db := db.setVersionPreviewExpiry versionId (some stamp) t.orgId
  let route := routeValue t.orgId siteId versionId site.accessMode
    (earliestExpiry (db.siteExpiry siteId t.orgId site.accessMode) expiresAt) (db.getPlanTier t.orgId) []
  return (db, { host, route, expiresAt })

def siteChatRoutes (t : Tenant) (siteId : Text) (db : Database) :
    Except StoreError (List RouteUpdate) := do
  let site ← orFail (db.getSite siteId t.orgId) .notFound
  match site.currentVersionId with
  | none => return []
  | some versionId =>
    let route := siteRoute db t siteId versionId site.accessMode
    return (db.liveHosts siteId t.orgId).map fun row => ⟨row.host, route⟩

def deletePreviewRoutes (t : Tenant) (siteId versionId : Text) (db : Database) :
    Except StoreError (Database × List Text) := do
  let _site ← orFail (db.getSite siteId t.orgId) .notFound
  let version ← orFail (db.getSiteVersion versionId t.orgId) .notFound
  require (version.siteId = siteId) .versionMismatch
  let (db, hosts) := db.deletePreviewRoutesForVersion versionId t.orgId
  return (db.setVersionPreviewExpiry versionId none t.orgId, hosts)

structure DeleteDomainResult where
  hostname : Text
  cfHostnameId : Option Text

def deleteDomain (t : Tenant) (id : Text) (db : Database) :
    Except StoreError (Database × DeleteDomainResult) := do
  let domain ← orFail (db.getDomain id t.orgId) .notFound
  let db := (db.deleteDomain id t.orgId).deleteHostRoute domain.hostname t.orgId
  return (db, { hostname := domain.hostname, cfHostnameId := domain.cfHostnameId })

/-- The hosts whose routes the caller drops. -/
def deleteSite (t : Tenant) (id : Text) (db : Database) : Except StoreError (Database × List Text) := do
  let hosts := (db.listHostRoutesForSite id t.orgId).map HostRoute.host
  let _site ← orFail (db.getSite id t.orgId) .notFound
  return (db.deleteSite id, hosts)

end Dropway.Api
