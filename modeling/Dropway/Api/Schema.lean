import Dropway.Edge.Route
import Dropway.Lib.Table

/-! The tables of the `app` schema that hosts are served from (db/migrations/app)
and the queries over them (db/sqlc/query.sql). Every query but `resolveHost` is
bound to one org, as the row-level policies bind it. -/

namespace Dropway.Api
open Lib
open Edge (AccessMode)

/-- Nanoseconds since the Unix epoch. -/
abbrev Instant := Int

/-- A column of microseconds. -/
structure Timestamptz where
  micros : Int
  deriving Repr, DecidableEq

def Timestamptz.ofTime (time : Instant) : Timestamptz := ⟨time / 1000⟩

def Timestamptz.time (stamp : Timestamptz) : Instant := stamp.micros * 1000

inductive RouteKind where
  | canonical
  | custom
  | preview
  deriving Repr, DecidableEq

inductive VersionStatus where
  | pending
  | uploading
  | ready
  | failed
  deriving Repr, DecidableEq

inductive VerifyStatus where
  | pending
  | verifying
  | verified
  | failed
  deriving Repr, DecidableEq

inductive TLSStatus where
  | pending
  | issued
  | failed
  deriving Repr, DecidableEq

structure OrgMeta where
  id : Text
  planTier : Text
  allowExternalSharing : Bool
  defaultVisibility : String
  deriving DecidableEq

/-- A row of `identity.organization`. -/
structure Organization where
  id : Text
  slug : Text
  deriving DecidableEq

structure Site where
  id : Text
  orgId : Text
  slug : Text
  accessMode : AccessMode
  currentVersionId : Option Text
  deriving DecidableEq

structure SiteVersion where
  id : Text
  orgId : Text
  siteId : Text
  status : VersionStatus
  previewExpiresAt : Option Timestamptz
  deriving DecidableEq

structure AccessPolicy where
  siteId : Text
  orgId : Text
  mode : AccessMode
  passwordHash : Option Text
  expiresAt : Option Timestamptz
  unlisted : Bool
  deriving DecidableEq

structure AllowlistEntry where
  orgId : Text
  siteId : Text
  email : Text
  isExternal : Bool
  deriving DecidableEq

def AllowlistEntry.key (entry : AllowlistEntry) : Text × Text := (entry.siteId, entry.email)

structure HostRoute where
  host : Text
  orgId : Text
  siteId : Text
  kind : RouteKind
  versionId : Option Text
  expiresAt : Option Timestamptz
  deriving DecidableEq

structure ChatLog where
  id : Text
  orgId : Text
  siteId : Option Text
  panelEnabled : Bool
  deriving DecidableEq

structure Domain where
  id : Text
  orgId : Text
  siteId : Text
  hostname : Text
  verifyStatus : VerifyStatus
  tlsStatus : TLSStatus
  cfHostnameId : Option Text
  deriving DecidableEq

/-- A row of `app.resolve_host`. -/
structure ResolvedHost where
  host : Text
  siteId : Text
  orgId : Text
  slug : Text
  accessMode : AccessMode
  versionId : Option Text
  previewExpiresAt : Option Timestamptz
  deriving DecidableEq

structure Database where
  organizations : Table Organization.id
  orgMeta : Table OrgMeta.id
  sites : Table Site.id
  siteVersions : Table SiteVersion.id
  policies : Table AccessPolicy.siteId
  allowlist : Table AllowlistEntry.key
  hostRoutes : Table HostRoute.host
  chatLogs : Table ChatLog.id
  domains : Table Domain.id

inductive DbError where
  | noRows
  | checkViolation
  | uniqueViolation
  | rowSecurity
  deriving Repr, DecidableEq

namespace Database

variable (db : Database)

def getPlanTier (orgId : Text) : Text :=
  ((db.orgMeta.get? orgId).map OrgMeta.planTier).getD "free".toList

def listAllOrgIDs : List Text := db.orgMeta.rows.map OrgMeta.id

def getSite (id orgId : Text) : Option Site :=
  (db.sites.get? id).filter fun site => site.orgId = orgId

def getSiteVersion (id orgId : Text) : Option SiteVersion :=
  (db.siteVersions.get? id).filter fun version => version.orgId = orgId

def getSiteAccessPolicy (siteId orgId : Text) : Option AccessPolicy :=
  (db.policies.get? siteId).filter fun policy => policy.orgId = orgId

def getHostRoute (host orgId : Text) : Option HostRoute :=
  (db.hostRoutes.get? host).filter fun route => route.orgId = orgId

/-- It sees the hosts of every org. -/
def resolveHost (host : Text) : Option ResolvedHost := do
  let route ← db.hostRoutes.get? host
  let site ← db.sites.get? route.siteId
  return { host := route.host, siteId := site.id, orgId := site.orgId, slug := site.slug
           accessMode := site.accessMode, versionId := route.versionId.or site.currentVersionId
           previewExpiresAt := if route.kind = .preview then route.expiresAt else none }

def getDomain (id orgId : Text) : Option Domain :=
  (db.domains.get? id).filter fun domain => domain.orgId = orgId

def getChatLogBySite (siteId orgId : Text) : Option ChatLog :=
  db.chatLogs.rows.find? fun log => log.siteId = some siteId ∧ log.orgId = orgId

def listHostRoutesForSite (siteId orgId : Text) : List HostRoute :=
  db.hostRoutes.filter fun route => route.siteId = siteId ∧ route.orgId = orgId

def listPublicSitesForOrg (orgId : Text) : List Site :=
  db.sites.filter fun site => site.accessMode = .public ∧ site.orgId = orgId

def listPublishedSitesForRebuild (orgId : Text) : List Site :=
  db.sites.filter fun site => site.currentVersionId.isSome ∧ site.orgId = orgId

def livePreview (now : Instant) (orgId : Text) (route : HostRoute) : Bool :=
  decide (route.kind = .preview ∧ route.orgId = orgId) && route.versionId.isSome &&
    route.expiresAt.any fun expires => decide (now < expires.time)

/-- Each row with the site it belongs to. -/
def listPreviewRoutesForRebuild (now : Instant) (orgId : Text) : List (HostRoute × Site) :=
  (db.hostRoutes.filter (livePreview now orgId)).filterMap fun route =>
    (db.getSite route.siteId orgId).map fun site => (route, site)

/-- What the triggers on sites, policies and allowlist entries look at. -/
def allowsExternalSharing (orgId : Text) : Bool :=
  (db.orgMeta.get? orgId).any OrgMeta.allowExternalSharing

def setAllowExternalSharing (orgId : Text) (enabled : Bool) : Database :=
  { db with orgMeta := db.orgMeta.update (fun row => row.id = orgId) fun row =>
      { row with allowExternalSharing := enabled } }

def withAccessMode (id : Text) (mode : AccessMode) (orgId : Text) : Database :=
  { db with sites := db.sites.update (fun site => site.id = id ∧ site.orgId = orgId) fun site =>
      { site with accessMode := mode } }

def setSiteAccessMode (id : Text) (mode : AccessMode) (orgId : Text) : Except DbError Database :=
  if mode = .public ∧ (db.getSite id orgId).isSome ∧ db.allowsExternalSharing orgId = false then
    .error .checkViolation
  else .ok (db.withAccessMode id mode orgId)

def setCurrentVersion (id versionId orgId : Text) : Database :=
  { db with sites := db.sites.update (fun site => site.id = id ∧ site.orgId = orgId) fun site =>
      { site with currentVersionId := some versionId } }

def withPolicy (policy : AccessPolicy) : Database :=
  { db with policies := db.policies.upsert policy fun row => { policy with siteId := row.siteId } }

/-- The trigger fires before the conflict is looked for, and a row of another
org cannot be updated. -/
def upsertSiteAccessPolicy (policy : AccessPolicy) : Except DbError Database :=
  if policy.mode = .public ∧ db.allowsExternalSharing policy.orgId = false then
    .error .checkViolation
  else if (db.policies.get? policy.siteId).any fun row => row.orgId ≠ policy.orgId then
    .error .rowSecurity
  else .ok (db.withPolicy policy)

/-- An entry that is there already becomes external or internal. -/
def regrant (entry row : AllowlistEntry) : AllowlistEntry := { row with isExternal := entry.isExternal }

theorem regrant_key (entry row : AllowlistEntry) : (regrant entry row).key = row.key := rfl

def withAllowlistEntry (entry : AllowlistEntry) : Database :=
  { db with allowlist := db.allowlist.upsert entry (regrant entry) (regrant_key entry) }

def upsertAllowlistEntry (entry : AllowlistEntry) : Except DbError Database :=
  if entry.isExternal ∧ db.allowsExternalSharing entry.orgId = false then .error .checkViolation
  else if (db.allowlist.get? entry.key).any fun row => row.orgId ≠ entry.orgId then .error .rowSecurity
  else .ok (db.withAllowlistEntry entry)

def withSite (site : Site) : Database :=
  { db with sites := db.sites.upsert site id }

/-- An id is never drawn twice, and a slug is the org's only one. -/
def createSite (site : Site) : Except DbError Database :=
  if site.accessMode = .public ∧ db.allowsExternalSharing site.orgId = false then
    .error .checkViolation
  else if db.sites.rows.any fun row => row.id = site.id ∨ row.orgId = site.orgId ∧ row.slug = site.slug
    then .error .uniqueViolation
  else .ok (db.withSite site)

def countSitesForOrg (orgId : Text) : Nat :=
  (db.sites.filter fun site => site.orgId = orgId).length

def externalAllowlistEntries (orgId : Text) : List AllowlistEntry :=
  db.allowlist.filter fun entry => entry.isExternal ∧ entry.orgId = orgId

/-- The entry goes if it is still external. -/
def deleteExternalAllowlistEntry (key : Text × Text) (orgId : Text) : Database :=
  { db with allowlist := db.allowlist.delete fun entry =>
      entry.key = key ∧ entry.isExternal ∧ entry.orgId = orgId }

def deleteExternalAllowlistEntriesForOrg (orgId : Text) : Database :=
  { db with allowlist := db.allowlist.delete fun entry => entry.isExternal ∧ entry.orgId = orgId }

def withCustomHost (host orgId siteId : Text) : Database :=
  let custom : HostRoute := ⟨host, orgId, siteId, .custom, none, none⟩
  { db with hostRoutes := db.hostRoutes.upsert custom fun route =>
      { route with siteId := siteId, kind := .custom } }

def withCanonicalHost (host orgId siteId : Text) : Database :=
  let canonical : HostRoute := ⟨host, orgId, siteId, .canonical, none, none⟩
  { db with hostRoutes := db.hostRoutes.upsert canonical id }

def insertHostRoute (host orgId siteId : Text) : Except DbError Database :=
  if (db.hostRoutes.get? host).isSome then .error .uniqueViolation
  else .ok (db.withCanonicalHost host orgId siteId)

/-- A row of another org cannot be updated. -/
def upsertHostRoute (host orgId siteId : Text) : Except DbError Database :=
  if (db.hostRoutes.get? host).any fun route => route.orgId ≠ orgId then .error .rowSecurity
  else .ok (db.withCustomHost host orgId siteId)

/-- A host that is no preview of this site stays as it is. -/
def renewPreview (siteId versionId : Text) (expiresAt : Timestamptz) (route : HostRoute) : HostRoute :=
  if route.siteId = siteId ∧ route.kind = .preview then
    { route with versionId := some versionId, expiresAt := some expiresAt }
  else route

theorem renewPreview_host (siteId versionId : Text) (expiresAt : Timestamptz) (route : HostRoute) :
    (renewPreview siteId versionId expiresAt route).host = route.host := by
  unfold renewPreview
  split <;> rfl

def withPreviewHost (host orgId siteId versionId : Text) (expiresAt : Timestamptz) : Database :=
  let preview : HostRoute := ⟨host, orgId, siteId, .preview, some versionId, some expiresAt⟩
  let hostRoutes := db.hostRoutes.upsert preview (renewPreview siteId versionId expiresAt)
    (renewPreview_host siteId versionId expiresAt)
  { db with hostRoutes }

def upsertPreviewRoute (host orgId siteId versionId : Text) (expiresAt : Timestamptz) :
    Except DbError Database :=
  if (db.hostRoutes.get? host).any fun route => route.orgId ≠ orgId then .error .rowSecurity
  else .ok (db.withPreviewHost host orgId siteId versionId expiresAt)

def deleteHostRoute (host orgId : Text) : Database :=
  { db with hostRoutes := db.hostRoutes.delete fun route => route.host = host ∧ route.orgId = orgId }

def sitePreviewExcept (siteId orgId : Text) (keep : Option Text) (route : HostRoute) : Bool :=
  route.siteId = siteId ∧ route.orgId = orgId ∧ route.kind = .preview ∧ route.versionId ≠ keep

def deleteSitePreviewRoutesExcept (siteId orgId : Text) (keep : Option Text) :
    Database × List Text :=
  ({ db with hostRoutes := db.hostRoutes.delete (sitePreviewExcept siteId orgId keep) },
    (db.hostRoutes.filter (sitePreviewExcept siteId orgId keep)).map HostRoute.host)

def previewOfVersion (versionId orgId : Text) (route : HostRoute) : Bool :=
  route.versionId = some versionId ∧ route.kind = .preview ∧ route.orgId = orgId

def deletePreviewRoutesForVersion (versionId orgId : Text) : Database × List Text :=
  ({ db with hostRoutes := db.hostRoutes.delete (previewOfVersion versionId orgId) },
    (db.hostRoutes.filter (previewOfVersion versionId orgId)).map HostRoute.host)

def setVersionPreviewExpiry (id : Text) (expiresAt : Option Timestamptz) (orgId : Text) : Database :=
  { db with siteVersions :=
      db.siteVersions.update (fun version => version.id = id ∧ version.orgId = orgId) fun version =>
        { version with previewExpiresAt := expiresAt } }

def updateDomainStatus (id : Text) (verify : VerifyStatus) (tls : TLSStatus) (orgId : Text) :
    Database :=
  { db with domains := db.domains.update (fun row => row.id = id ∧ row.orgId = orgId) fun row =>
      { row with verifyStatus := verify, tlsStatus := tls } }

def deleteDomain (id orgId : Text) : Database :=
  { db with domains := db.domains.delete fun domain => domain.id = id ∧ domain.orgId = orgId }

def pinsVersionOf (siteId : Text) (route : HostRoute) : Bool :=
  (route.versionId.bind db.siteVersions.get?).any fun version => version.siteId = siteId

/-- The rows that belong to the site or to one of its versions go with it; a chat
log is detached. -/
def deleteSite (id : Text) : Database :=
  { db with
    sites := db.sites.delete fun site => site.id = id
    siteVersions := db.siteVersions.delete fun version => version.siteId = id
    policies := db.policies.delete fun policy => policy.siteId = id
    allowlist := db.allowlist.delete fun entry => entry.siteId = id
    hostRoutes := db.hostRoutes.delete fun route => route.siteId = id || db.pinsVersionOf id route
    domains := db.domains.delete fun domain => domain.siteId = id
    chatLogs := db.chatLogs.update (fun log => log.siteId = some id) fun log =>
      { log with siteId := none } }

end Database
end Dropway.Api
