import Dropway.Api.Store
import Dropway.Lib.ReadCommitted

/-! The transactions that external sharing is decided in, statement by statement:
SetSiteAccess, AddAllowlistEntry, CreateSite and SetAllowExternalSharing. -/

namespace Dropway.Api
open Lib Lib.Outcome
open Edge (AccessMode)

/-- What a statement changes. The quota lock and the usage counter only order the
transactions that take them. -/
inductive Update where
  | allowExternalSharing (enabled : Bool)
  | accessMode (siteId : Text) (mode : AccessMode)
  | policy (row : AccessPolicy)
  | grant (entry : AllowlistEntry)
  | revokeExternal (key : Text × Text)
  | site (row : Site)
  | host (name siteId : Text)
  | siteQuota
  | siteCount

def Update.apply (t : Tenant) (db : Database) : Update → Database
  | .allowExternalSharing enabled => db.setAllowExternalSharing t.orgId enabled
  | .accessMode siteId mode => db.withAccessMode siteId mode t.orgId
  | .policy row => db.withPolicy row
  | .grant entry => db.withAllowlistEntry entry
  | .revokeExternal key => db.deleteExternalAllowlistEntry key t.orgId
  | .site row => db.withSite row
  | .host name siteId => db.withCanonicalHost name t.orgId siteId
  | .siteQuota => db
  | .siteCount => db

inductive RowKey where
  | org
  | site (id : Text)
  | slug (slug : Text)
  | policy (siteId : Text)
  | grant (key : Text × Text)
  | host (name : Text)
  | siteQuota
  | usage
  deriving DecidableEq

def Update.locks : Update → List RowKey
  | .allowExternalSharing _ => [.org]
  | .accessMode siteId _ => [.site siteId]
  | .policy row => [.policy row.siteId]
  | .grant entry => [.grant entry.key]
  | .revokeExternal key => [.grant key]
  | .site row => [.site row.id, .slug row.slug]
  | .host name _ => [.host name]
  | .siteQuota => [.siteQuota]
  | .siteCount => [.usage]

/-- `email` as `normalizeEmail` leaves it. -/
structure AddAllowlistEntryParams where
  siteId : Text
  email : Text
  isExternal : Bool

def AddAllowlistEntryParams.entry (p : AddAllowlistEntryParams) (t : Tenant) : AllowlistEntry where
  orgId := t.orgId
  siteId := p.siteId
  email := p.email
  isExternal := p.isExternal

/-- `id` is the one the database draws. -/
structure CreateSiteParams where
  id : Text
  slug : Text
  accessMode : String

def CreateSiteParams.site (p : CreateSiteParams) (t : Tenant) (mode : AccessMode) : Site where
  id := p.id
  orgId := t.orgId
  slug := p.slug
  accessMode := mode
  currentVersionId := none

/-- The statement that a transaction is at. -/
inductive Position where
  | setSiteAccess (p : SetAccessParams)
  | setSiteAccessMode (p : SetAccessParams) (mode : AccessMode) (site : Site)
  | upsertSiteAccessPolicy (p : SetAccessParams) (mode : AccessMode) (site : Site)
  | accessRoutes (p : SetAccessParams) (mode : AccessMode) (site : Site)
  | addAllowlistEntry (p : AddAllowlistEntryParams)
  | upsertAllowlistEntry (p : AddAllowlistEntryParams)
  | createSite (p : CreateSiteParams)
  | defaultVisibility (p : CreateSiteParams) (host : Text)
  | lockOrgSiteQuota (p : CreateSiteParams) (host : Text) (mode : String)
  | getPlanTier (p : CreateSiteParams) (host : Text) (mode : String)
  | countSites (p : CreateSiteParams) (host : Text) (mode : String) (planTier : Text)
  | insertSite (p : CreateSiteParams) (host : Text) (mode : String)
  | insertHostRoute (p : CreateSiteParams) (host : Text)
  | incSiteCount
  | setAllowExternalSharing (enabled : Bool)
  | listPublicSites
  | downgrade (sites : List Site)
  | getSiteAccessPolicy (site : Site) (rest : List Site)
  | mirrorPolicy (site : Site) (rest : List Site)
  | listExternalEntries
  | deleteExternalEntries (keys : List (Text × Text))
  | done

inductive Position.Initial : Position → Prop
  | setSiteAccess (p : SetAccessParams) : Initial (.setSiteAccess p)
  | addAllowlistEntry (p : AddAllowlistEntryParams) : Initial (.addAllowlistEntry p)
  | createSite (p : CreateSiteParams) : Initial (.createSite p)
  | setAllowExternalSharing (enabled : Bool) : Initial (.setAllowExternalSharing enabled)

def defaultMode (visibility : String) : String := if visibility = "" then "org_only" else visibility

/-- `quota` decides from the plan tier and the number of sites. -/
def Position.next (config : Config) (quota : Text → Nat → Bool) (t : Tenant) (db : Database) :
    Position → Except StoreError (Option Update × Position)
  | .setSiteAccess p => do
    let mode ← orFail (AccessMode.parse? p.mode) .invalidMode
    let site ← orFail (db.getSite p.siteId t.orgId) .notFound
    return (none, .setSiteAccessMode p mode site)
  | .setSiteAccessMode p mode site => do
    let _ ← (db.setSiteAccessMode p.siteId mode t.orgId).mapError sharingError
    return (some (.accessMode p.siteId mode), .upsertSiteAccessPolicy p mode site)
  | .upsertSiteAccessPolicy p mode site => do
    let _ ← (db.upsertSiteAccessPolicy (p.policy t mode)).mapError sharingError
    return (some (.policy (p.policy t mode)), .accessRoutes p mode site)
  | .accessRoutes p mode site => do
    let _ ← accessCanonical config t db site mode (routeExpiry mode (p.policy t mode))
      (db.chatIdForSite t.orgId p.siteId)
    return (none, .done)
  | .addAllowlistEntry p => do
    let _ ← orFail (db.getSite p.siteId t.orgId) .notFound
    return (none, .upsertAllowlistEntry p)
  | .upsertAllowlistEntry p => do
    let _ ← (db.upsertAllowlistEntry (p.entry t)).mapError sharingError
    return (some (.grant (p.entry t)), .done)
  | .createSite p => do
    let orgSlug ← orgSlugTx db t.orgId
    return (none, .defaultVisibility p (hostForSite config.contentDomain orgSlug p.slug))
  | .defaultVisibility p host => do
    if p.accessMode ≠ "" then return (none, .lockOrgSiteQuota p host p.accessMode)
    let org ← orFail (db.orgMeta.get? t.orgId) (.db .noRows)
    return (none, .lockOrgSiteQuota p host (defaultMode org.defaultVisibility))
  | .lockOrgSiteQuota p host mode => .ok (some .siteQuota, .getPlanTier p host mode)
  | .getPlanTier p host mode => .ok (none, .countSites p host mode (db.getPlanTier t.orgId))
  | .countSites p host mode planTier => do
    require (quota planTier (db.countSitesForOrg t.orgId)) .quotaExceeded
    return (none, .insertSite p host mode)
  | .insertSite p host mode => do
    -- A mode that is none fails the column's check.
    let mode ← orFail (AccessMode.parse? mode) .externalSharingDisabled
    let _ ← (db.createSite (p.site t mode)).mapError fun error =>
      if error = .uniqueViolation then .slugTaken else sharingError error
    return (some (.site (p.site t mode)), .insertHostRoute p host)
  | .insertHostRoute p host => do
    let _ ← (db.insertHostRoute host t.orgId p.id).mapError fun _ => .hostTaken
    return (some (.host host p.id), .incSiteCount)
  | .incSiteCount => .ok (some .siteCount, .done)
  | .setAllowExternalSharing enabled =>
    .ok (some (.allowExternalSharing enabled), if enabled then .done else .listPublicSites)
  | .listPublicSites => .ok (none, .downgrade (db.listPublicSitesForOrg t.orgId))
  | .downgrade [] => .ok (none, .listExternalEntries)
  | .downgrade (site :: rest) => do
    let _ ← (db.setSiteAccessMode site.id .orgOnly t.orgId).mapError .db
    return (some (.accessMode site.id .orgOnly), .getSiteAccessPolicy site rest)
  | .getSiteAccessPolicy site rest =>
    if (db.getSiteAccessPolicy site.id t.orgId).isSome then .ok (none, .mirrorPolicy site rest)
    else .ok (none, .downgrade rest)
  | .mirrorPolicy site rest => do
    let _ ← (db.upsertSiteAccessPolicy (orgOnlyPolicy t site.id)).mapError .db
    return (some (.policy (orgOnlyPolicy t site.id)), .downgrade rest)
  | .listExternalEntries =>
    .ok (none, .deleteExternalEntries ((db.externalAllowlistEntries t.orgId).map AllowlistEntry.key))
  | .deleteExternalEntries [] => .ok (none, .done)
  | .deleteExternalEntries (key :: rest) =>
    .ok (some (.revokeExternal key), .deleteExternalEntries rest)
  | .done => .ok (none, .done)

def sharing (config : Config) (quota : Text → Nat → Bool) (t : Tenant) :
    ReadCommitted.Program Database Update RowKey Position StoreError where
  initial := Position.Initial
  next position db := position.next config quota t db
  finished position := position = .done
  apply update db := update.apply t db
  locks := Update.locks

end Dropway.Api
