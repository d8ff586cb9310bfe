import Dropway.Api.Schema
import Dropway.Lib.Rfc3339

/-! The route values the API projects to the edge (internal/projection) and the
rebuild that collects all of an org's (store/rebuild.go). -/

namespace Dropway.Api
open Lib
open Edge (AccessMode)

def schemaVersion : Nat := 4

/-- The value written at `route:<host>`; an empty text is an absent field. -/
structure RouteValue where
  orgId : Text
  siteId : Text
  versionId : Text
  accessMode : AccessMode
  schemaVersion : Nat
  expiresAt : Text
  planTier : Text
  chatId : Text
  deriving DecidableEq

structure RouteUpdate where
  host : Text
  route : RouteValue
  deriving DecidableEq

def routeValue (orgId siteId versionId : Text) (accessMode : AccessMode)
    (expiresAt planTier chatId : Text) : RouteValue :=
  { orgId, siteId, versionId, accessMode, schemaVersion, expiresAt, planTier, chatId }

def hostForSite (contentDomain orgSlug appSlug : Text) : Text :=
  orgSlug ++ ['-', '-'] ++ appSlug ++ ['.'] ++ contentDomain

def previewLabel (versionId : Text) : Text :=
  match (versionId.filter (· ≠ '-')).take 8 with
  | [] => "preview".toList
  | label => label

def previewHostForSite (contentDomain versionId orgSlug appSlug : Text) : Text :=
  previewLabel versionId ++ ['-', '-'] ++ hostForSite contentDomain orgSlug appSlug

def rfc3339 (time : Instant) : Text := Rfc3339.format (time / 1000000000)

/-- Identity-gated modes enforce their expiry when a token is minted. -/
def routeExpiry (mode : AccessMode) (policy : AccessPolicy) : Text :=
  if mode ≠ .public then []
  else
    match policy.expiresAt with
    | none => []
    | some expires => rfc3339 expires.time

def earliestExpiry (policyExpiry : Text) (previewDeadline : Instant) : Text :=
  if policyExpiry = [] then rfc3339 previewDeadline
  else
    match Rfc3339.parse policyExpiry with
    | some time => if time < previewDeadline then policyExpiry else rfc3339 previewDeadline
    | none => rfc3339 previewDeadline

namespace Database

variable (db : Database)

/-- A site without a policy row has no expiry. -/
def siteExpiry (siteId orgId : Text) (mode : AccessMode) : Text :=
  match db.getSiteAccessPolicy siteId orgId with
  | some policy => routeExpiry mode policy
  | none => []

/-- The attached chat log, if its panel is on. -/
def chatIdForSite (orgId siteId : Text) : Text :=
  match db.getChatLogBySite siteId orgId with
  | some log => if log.panelEnabled then log.id else []
  | none => []

/-- The hosts that follow the site's live version. -/
def liveHosts (siteId orgId : Text) : List HostRoute :=
  (db.listHostRoutesForSite siteId orgId).filter fun row => row.kind ≠ .preview

/-- The value a rebuild gives the hosts that follow the site's live version. -/
def liveRoute (orgId : Text) (site : Site) (versionId : Text) : RouteValue :=
  routeValue site.orgId site.id versionId site.accessMode
    (db.siteExpiry site.id orgId site.accessMode) (db.getPlanTier orgId) (db.chatIdForSite orgId site.id)

def liveEntries (orgId : Text) (site : Site) : List (Text × RouteValue) :=
  match site.currentVersionId with
  | none => []
  | some versionId =>
    (db.liveHosts site.id orgId).map fun row => (row.host, db.liveRoute orgId site versionId)

def previewRoute (orgId : Text) (row : HostRoute) (site : Site) (versionId : Text)
    (deadline : Instant) : RouteValue :=
  routeValue site.orgId row.siteId versionId site.accessMode
    (earliestExpiry (db.siteExpiry row.siteId orgId site.accessMode) deadline) (db.getPlanTier orgId) []

def previewEntry (orgId : Text) (row : HostRoute) (site : Site) : Option (Text × RouteValue) :=
  match row.versionId, row.expiresAt with
  | some versionId, some deadline =>
    some (row.host, db.previewRoute orgId row site versionId deadline.time)
  | _, _ => none

def rebuildEntries (now : Instant) (orgId : Text) : List (Text × RouteValue) :=
  (db.listPublishedSitesForRebuild orgId).flatMap (db.liveEntries orgId) ++
    (db.listPreviewRoutesForRebuild now orgId).filterMap fun entry =>
      db.previewEntry orgId entry.1 entry.2

def collectRoutesForOrg (now : Instant) (orgId : Text) : AList fun _ : Text => RouteValue :=
  ofEntries (db.rebuildEntries now orgId)

/-- What a rebuild of every org replaces the edge's routes with. -/
def rebuildAllOrgs (now : Instant) : AList fun _ : Text => RouteValue :=
  ofEntries (db.listAllOrgIDs.flatMap fun orgId =>
    (db.collectRoutesForOrg now orgId).entries.map fun entry => (entry.1, entry.2))

end Database
end Dropway.Api
