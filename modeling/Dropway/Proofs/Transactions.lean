import Dropway.Proofs.Effects

/-! What each transaction leaves every host with. -/

namespace Dropway.Api
open Lib Lib.Outcome Database
open Edge (AccessMode)

variable {config : Config} {t : Tenant} {db changed : Database} {siteId versionId host : Text}
  {row : HostRoute} {now later : Instant}

/-- The route of a live host is assembled from the same reads everywhere. -/
theorem liveRoute_eq (db : Database) {site : Site} (org : site.orgId = t.orgId) :
    db.liveRoute t.orgId site versionId = siteRoute db t site.id versionId site.accessMode := by
  rw [liveRoute, siteRoute, org]

/-! Publishing. -/

section Publish

def published (db : Database) (t : Tenant) (siteId versionId : Text) : Database :=
  (((db.setCurrentVersion siteId versionId t.orgId).deleteSitePreviewRoutesExcept siteId t.orgId
    none).1).setVersionPreviewExpiry versionId none t.orgId

theorem publish_ok {res : PublishResult}
    (ran : publish config t siteId versionId db = .ok (changed, res)) :
    ∃ site canonical, db.getSite siteId t.orgId = some site ∧
      db.getHostRoute canonical.host t.orgId = some canonical ∧ canonical.siteId = siteId ∧
      changed = published db t siteId versionId ∧
      res.canonical = some ⟨canonical.host, siteRoute db t siteId versionId site.accessMode⟩ ∧
      res.routes = (db.liveHosts siteId t.orgId).map (fun row =>
        ⟨row.host, siteRoute db t siteId versionId site.accessMode⟩) ∧
      res.deletedPreviewHosts =
        (db.hostRoutes.filter (sitePreviewExcept siteId t.orgId none)).map HostRoute.host := by
  simp only [publish, bind_ok, orFail_ok, require_ok, pure_ok, exists_const, Prod.mk.injEq] at ran
  obtain ⟨site, owner, version, -, -, orgSlug, -, canonical, found, owned, rfl, rfl⟩ := ran
  have hostEq := (getHostRoute_eq_some.mp found).2.1
  refine ⟨site, canonical, owner, hostEq ▸ found, owned, rfl, ?_, rfl, rfl⟩
  rw [hostEq]
  rfl

theorem publish_projected {res : PublishResult} {site : Site}
    (ran : publish config t siteId versionId db = .ok (changed, res))
    (owner : db.getSite siteId t.orgId = some site) :
    ∀ update ∈ res.projected, ∃ row, db.getHostRoute update.host t.orgId = some row ∧
      row.siteId = siteId ∧ update.route = siteRoute db t siteId versionId site.accessMode := by
  obtain ⟨found, canonical, foundOwner, canonicalFound, canonicalOwned, -, canonicalEq, routesEq, -⟩ :=
    publish_ok ran
  obtain rfl := Option.some.inj (owner.symm.trans foundOwner)
  intro update mem
  unfold PublishResult.projected at mem
  split at mem
  · rw [canonicalEq, Option.toList_some, List.mem_singleton] at mem
    subst mem
    exact ⟨canonical, canonicalFound, canonicalOwned, rfl⟩
  · rw [routesEq] at mem
    obtain ⟨row, rowMem, rfl⟩ := List.mem_map.mp mem
    obtain ⟨rowFound, rowOwned, -⟩ := mem_liveHosts.mp rowMem
    exact ⟨row, rowFound, rowOwned, rfl⟩

theorem published_getHostRoute (db : Database) (t : Tenant) (siteId versionId host : Text) :
    (published db t siteId versionId).getHostRoute host t.orgId =
      (db.getHostRoute host t.orgId).filter fun row => !sitePreviewExcept siteId t.orgId none row :=
  getHostRoute_deleteWhere (db.setCurrentVersion siteId versionId t.orgId) _ host t.orgId

theorem published_getSite (db : Database) (t : Tenant) (siteId versionId other : Text) :
    (published db t siteId versionId).getSite other t.orgId =
      (db.getSite other t.orgId).map fun site =>
        if other = siteId then { site with currentVersionId := some versionId } else site :=
  getSite_setCurrentVersion db siteId versionId t.orgId other

/-- Every host of the site has the projected route, and its previews none. -/
theorem published_own {site : Site} (owner : db.getSite siteId t.orgId = some site)
    (found : db.getHostRoute host t.orgId = some row) (owned : row.siteId = siteId) :
    (published db t siteId versionId).served later t.orgId host =
      if row.kind = .preview then none
      else some (siteRoute db t siteId versionId site.accessMode) := by
  obtain ⟨-, rfl, org⟩ := getSite_eq_some.mp owner
  have orgRow := (getHostRoute_eq_some.mp found).2.2
  have after := published_getHostRoute db t site.id versionId host
  rw [found, Option.filter_some] at after
  by_cases kind : row.kind = .preview
  · rw [if_pos kind]
    cases pinned : row.versionId with
    | none =>
      have kept : sitePreviewExcept site.id t.orgId none row = false := by
        simp [sitePreviewExcept, pinned]
      rw [kept, Bool.not_false, if_pos rfl] at after
      rw [served_of_row after, owned, published_getSite, owner]
      simp [routeOf, kind, livePreview, pinned]
    | some pin =>
      have gone : sitePreviewExcept site.id t.orgId none row = true := by
        simp [sitePreviewExcept, pinned, kind, owned, orgRow]
      rw [gone, Bool.not_true, if_neg Bool.false_ne_true] at after
      exact served_none after
  · rw [if_neg kind]
    have kept : sitePreviewExcept site.id t.orgId none row = false := by
      simp [sitePreviewExcept, kind]
    rw [kept, Bool.not_false, if_pos rfl] at after
    rw [served_of_row after, owned, published_getSite, owner, Option.map_some, Option.bind_some,
      if_pos rfl, routeOf, if_neg kind, Option.map_some]
    exact congrArg some (liveRoute_eq db org)

theorem published_other (found : db.getHostRoute host t.orgId = some row) (other : row.siteId ≠ siteId) :
    (published db t siteId versionId).served later t.orgId host = db.served later t.orgId host := by
  have after := published_getHostRoute db t siteId versionId host
  have kept : sitePreviewExcept siteId t.orgId none row = false := by
    simp [sitePreviewExcept, other]
  rw [found, Option.filter_some, kept, Bool.not_false, if_pos rfl] at after
  rw [served_of_row after, served_of_row found, published_getSite]
  cases db.getSite row.siteId t.orgId with
  | none => rfl
  | some site =>
    rw [Option.map_some, if_neg other]
    rfl

end Publish

/-! Changing a site's access. -/

section Access

def accessChanged (db : Database) (t : Tenant) (p : SetAccessParams) (mode : AccessMode) : Database :=
  (db.withAccessMode p.siteId mode t.orgId).withPolicy (p.policy t mode)

theorem setSiteAccess_ok {p : SetAccessParams} {res : PublishResult}
    (ran : setSiteAccess config t p db = .ok (changed, res)) :
    ∃ mode site, AccessMode.parse? p.mode = some mode ∧ db.getSite p.siteId t.orgId = some site ∧
      changed = accessChanged db t p mode ∧
      res.routes = (db.listHostRoutesForSite p.siteId t.orgId).filterMap
        (accessRoute t site mode (routeExpiry mode (p.policy t mode))
          (db.chatIdForSite t.orgId p.siteId)) := by
  simp only [setSiteAccess, bind_ok, orFail_ok, mapError_ok, pure_ok, Prod.mk.injEq] at ran
  obtain ⟨mode, parsed, site, owner, first, moded, second, written, canonical, -, rfl, rfl⟩ := ran
  obtain rfl := setSiteAccessMode_ok moded
  obtain rfl := upsertSiteAccessPolicy_ok written
  exact ⟨mode, site, parsed, owner, rfl, rfl⟩

theorem accessChanged_getSite (db : Database) (t : Tenant) (p : SetAccessParams) (mode : AccessMode)
    (other : Text) :
    (accessChanged db t p mode).getSite other t.orgId =
      (db.getSite other t.orgId).map fun site =>
        if other = p.siteId then { site with accessMode := mode } else site :=
  getSite_withAccessMode db p.siteId mode t.orgId other

theorem accessRoute_host {site : Site} {mode : AccessMode} {expiresAt chatId : Text}
    (row : HostRoute) (update : RouteUpdate)
    (made : accessRoute t site mode expiresAt chatId row = some update) : update.host = row.host := by
  unfold accessRoute at made
  split at made
  · cases made
    rfl
  · cases made
    rfl
  · cases made

/-- The projected route is the served one without its plan tier. -/
theorem accessChanged_own {p : SetAccessParams} {mode : AccessMode} {site : Site}
    (owner : db.getSite p.siteId t.orgId = some site)
    (found : db.getHostRoute host t.orgId = some row) (owned : row.siteId = p.siteId)
    {value : RouteValue}
    (route : (accessChanged db t p mode).served later t.orgId host = some value) :
    accessRoute t site mode (routeExpiry mode (p.policy t mode)) (db.chatIdForSite t.orgId p.siteId) row =
      some ⟨row.host, { value with planTier := [] }⟩ := by
  obtain ⟨-, siteEq, org⟩ := getSite_eq_some.mp owner
  have after : (accessChanged db t p mode).getHostRoute host t.orgId = some row := found
  rw [served_of_row after, owned, accessChanged_getSite, owner, Option.map_some, Option.bind_some,
    if_pos rfl] at route
  have expiry : (accessChanged db t p mode).siteExpiry p.siteId t.orgId mode =
      routeExpiry mode (p.policy t mode) :=
    siteExpiry_withPolicy (db.withAccessMode p.siteId mode t.orgId) (p.policy t mode) mode
  rcases routeOf_cases route with
    ⟨kind, versionId, deadline, pinned, dated, -, rfl⟩ | ⟨kind, versionId, live, rfl⟩
  · simp only [accessRoute, kind, if_true, pinned, previewRoute, routeValue, deadlineOf, dated,
      Option.map_some, Option.getD_some, owned, expiry, org, siteEq]
  · simp only at live
    simp only [accessRoute, kind, if_false, live, liveRoute, routeValue, siteEq, expiry, org]
    rfl

theorem accessChanged_isSome (db : Database) (p : SetAccessParams) (mode : AccessMode) (host : Text) :
    ((accessChanged db t p mode).served later t.orgId host).isSome =
      (db.served later t.orgId host).isSome := by
  cases found : db.getHostRoute host t.orgId with
  | none =>
    have after : (accessChanged db t p mode).getHostRoute host t.orgId = none := found
    rw [served_none found, served_none after]
  | some row =>
    have after : (accessChanged db t p mode).getHostRoute host t.orgId = some row := found
    rw [served_of_row after, served_of_row found, accessChanged_getSite]
    cases db.getSite row.siteId t.orgId with
    | none => rfl
    | some site =>
      rw [Option.map_some, Option.bind_some, Option.bind_some, routeOf_isSome, routeOf_isSome]
      by_cases same : row.siteId = p.siteId
      · rw [if_pos same]
      · rw [if_neg same]

theorem accessChanged_other {p : SetAccessParams} {mode : AccessMode}
    (found : db.getHostRoute host t.orgId = some row) (other : row.siteId ≠ p.siteId) :
    (accessChanged db t p mode).served later t.orgId host = db.served later t.orgId host := by
  have after : (accessChanged db t p mode).getHostRoute host t.orgId = some row := found
  rw [served_of_row after, served_of_row found, accessChanged_getSite]
  cases owner : db.getSite row.siteId t.orgId with
  | none => rfl
  | some site =>
    have siteEq := (getSite_eq_some.mp owner).2.1
    rw [Option.map_some, if_neg other]
    refine routeOf_congr siteEq.symm ⟨rfl, rfl, ?_⟩
    exact siteExpiry_withPolicy_ne (db.withAccessMode p.siteId mode t.orgId) (p.policy t mode)
      site.accessMode (fun same => other (siteEq.symm.trans same.symm))

end Access

/-! Turning external sharing off. -/

section Sharing

/-- What downgrading the sites with these ids does. -/
structure Downgraded (t : Tenant) (ids : List Text) (before after : Database) : Prop where
  hosts : after.hostRoutes = before.hostRoutes
  chats : after.chatLogs = before.chatLogs
  orgs : after.listAllOrgIDs = before.listAllOrgIDs
  tier : after.getPlanTier t.orgId = before.getPlanTier t.orgId
  site : ∀ id, after.getSite id t.orgId = (before.getSite id t.orgId).map fun site =>
    if id ∈ ids then { site with accessMode := .orgOnly } else site
  parents : KeepsParents before after
  policy : ∀ id, id ∉ ids →
    after.getSiteAccessPolicy id t.orgId = before.getSiteAccessPolicy id t.orgId

theorem mirrorOrgOnly_ok (ran : mirrorOrgOnly t siteId db = .ok changed) :
    changed = db.withPolicy (orgOnlyPolicy t siteId) ∨ changed = db := by
  unfold mirrorOrgOnly at ran
  split at ran
  · exact .inl (upsertSiteAccessPolicy_ok (mapError_ok.mp ran))
  · cases ran
    exact .inr rfl

private theorem downgrade_one {moded mirrored : Database}
    (modeRan : db.setSiteAccessMode siteId .orgOnly t.orgId = .ok moded)
    (mirrorRan : mirrorOrgOnly t siteId moded = .ok mirrored) :
    Downgraded t [siteId] db mirrored := by
  obtain rfl := setSiteAccessMode_ok modeRan
  have site : ∀ id, (db.withAccessMode siteId .orgOnly t.orgId).getSite id t.orgId =
      (db.getSite id t.orgId).map fun site =>
        if id ∈ [siteId] then { site with accessMode := .orgOnly } else site := fun id => by
    simpa using getSite_withAccessMode db siteId .orgOnly t.orgId id
  have parents := keepsParents_withAccessMode db siteId .orgOnly t.orgId
  rcases mirrorOrgOnly_ok mirrorRan with rfl | rfl
  · refine ⟨rfl, rfl, rfl, rfl, site, parents.trans (.of_eq rfl rfl), fun id other => ?_⟩
    have apart : siteId ≠ id := fun same => other (by simp [same])
    exact (getSiteAccessPolicy_withPolicy (db.withAccessMode siteId .orgOnly t.orgId)
      (orgOnlyPolicy t siteId) id).trans (if_neg apart)
  · exact ⟨rfl, rfl, rfl, rfl, site, parents, fun _ _ => rfl⟩

private theorem Downgraded.trans {ids more : List Text} {middle : Database}
    (first : Downgraded t ids db middle) (second : Downgraded t more middle changed) :
    Downgraded t (ids ++ more) db changed := by
  refine ⟨second.hosts.trans first.hosts, second.chats.trans first.chats, second.orgs.trans first.orgs,
    second.tier.trans first.tier, fun id => ?_, first.parents.trans second.parents,
    fun id other => ?_⟩
  · rw [second.site, first.site, Option.map_map]
    congr 1
    funext site
    by_cases here : id ∈ ids <;> by_cases there : id ∈ more <;> simp [here, there]
  · rw [List.mem_append, not_or] at other
    rw [second.policy id other.2, first.policy id other.1]

theorem downgradeSites_ok {sites : List Site} {updates : List RouteUpdate}
    (ran : downgradeSites t sites db = .ok (changed, updates)) :
    Downgraded t (sites.map Site.id) db changed ∧
      updates = sites.flatMap fun site =>
        (db.listHostRoutesForSite site.id t.orgId).filterMap
          (downgradeRoute t site (db.chatIdForSite t.orgId site.id)) := by
  induction sites generalizing db updates with
  | nil =>
    cases ran
    exact ⟨⟨rfl, rfl, rfl, rfl, fun id => by simp, .of_eq rfl rfl, fun _ _ => rfl⟩, rfl⟩
  | cons site rest ih =>
    simp only [downgradeSites, bind_ok, mapError_ok] at ran
    obtain ⟨moded, modeRan, mirrored, mirrorRan, ⟨last, more⟩, restRan, done⟩ := ran
    cases done
    have first := downgrade_one modeRan mirrorRan
    obtain ⟨second, rfl⟩ := ih restRan
    refine ⟨first.trans second, ?_⟩
    have hosts : ∀ id, mirrored.listHostRoutesForSite id t.orgId =
        db.listHostRoutesForSite id t.orgId := fun id => by
      rw [listHostRoutesForSite, first.hosts, listHostRoutesForSite]
    have chat : ∀ id, mirrored.chatIdForSite t.orgId id = db.chatIdForSite t.orgId id := fun id => by
      rw [chatIdForSite, getChatLogBySite, first.chats, chatIdForSite, getChatLogBySite]
    simp only [hosts, chat, List.flatMap_cons]

theorem listAllOrgIDs_setAllowExternalSharing (db : Database) (orgId : Text) (enabled : Bool) :
    (db.setAllowExternalSharing orgId enabled).listAllOrgIDs = db.listAllOrgIDs := by
  simp only [listAllOrgIDs, Database.setAllowExternalSharing, Table.update, List.map_map]
  apply List.map_congr_left
  intro org _
  simp only [Function.comp_apply]
  split <;> rfl

private theorem downgraded_flag (db : Database) (t : Tenant) (enabled : Bool) :
    Downgraded t [] db (db.setAllowExternalSharing t.orgId enabled) := by
  refine ⟨rfl, rfl, listAllOrgIDs_setAllowExternalSharing db t.orgId enabled, ?_, fun id => ?_,
    .of_eq rfl rfl, fun _ _ => rfl⟩
  · simp only [getPlanTier, Database.setAllowExternalSharing, Table.get?_update, Option.map_map]
    cases db.orgMeta.get? t.orgId with
    | none => rfl
    | some org =>
      simp only [Option.map_some, Function.comp_apply]
      split <;> rfl
  · simp [getSite, Database.setAllowExternalSharing]

private theorem downgraded_allowlist (db : Database) (t : Tenant) :
    Downgraded t [] db (db.deleteExternalAllowlistEntriesForOrg t.orgId) :=
  ⟨rfl, rfl, rfl, rfl, fun id => by simp [getSite, deleteExternalAllowlistEntriesForOrg], .of_eq rfl rfl,
    fun _ _ => rfl⟩

theorem setAllowExternalSharing_ok {res : ReconcileResult}
    (ran : Api.setAllowExternalSharing t false db = .ok (changed, res)) :
    Downgraded t ((db.listPublicSitesForOrg t.orgId).map Site.id) db changed ∧
      res.downgraded = (db.listPublicSitesForOrg t.orgId).flatMap fun site =>
        (db.listHostRoutesForSite site.id t.orgId).filterMap
          (downgradeRoute t site (db.chatIdForSite t.orgId site.id)) := by
  simp only [Api.setAllowExternalSharing, Bool.false_eq_true, if_false, bind_ok, pure_ok, Prod.exists,
    Prod.mk.injEq] at ran
  obtain ⟨reconciled, downgraded, loop, rfl, rfl⟩ := ran
  obtain ⟨effect, rfl⟩ := downgradeSites_ok loop
  have whole := ((downgraded_flag db t false).trans effect).trans (downgraded_allowlist reconciled t)
  rw [List.nil_append, List.append_nil] at whole
  exact ⟨whole, rfl⟩

variable {ids : List Text}

theorem downgradeRoute_host {site : Site} {chatId : Text} (row : HostRoute)
    (update : RouteUpdate) (made : downgradeRoute t site chatId row = some update) :
    update.host = row.host := by
  unfold downgradeRoute at made
  split at made
  · cases made
    rfl
  · cases made
    rfl
  · cases made

private theorem Downgraded.getHostRoute (effect : Downgraded t ids db changed) (host : Text) :
    changed.getHostRoute host t.orgId = db.getHostRoute host t.orgId := by
  rw [Database.getHostRoute, effect.hosts, Database.getHostRoute]

private theorem Downgraded.chat (effect : Downgraded t ids db changed) (siteId : Text) :
    changed.chatIdForSite t.orgId siteId = db.chatIdForSite t.orgId siteId := by
  rw [chatIdForSite, getChatLogBySite, effect.chats, chatIdForSite, getChatLogBySite]

/-- The projected route of a downgraded site is the served one without its plan
tier. -/
theorem Downgraded.own (effect : Downgraded t ids db changed) {site : Site}
    (owner : db.getSite row.siteId t.orgId = some site)
    (found : db.getHostRoute host t.orgId = some row) (mem : row.siteId ∈ ids) {value : RouteValue}
    (route : changed.served later t.orgId host = some value) :
    downgradeRoute t site (db.chatIdForSite t.orgId row.siteId) row =
      some ⟨row.host, { value with planTier := [] }⟩ := by
  obtain ⟨-, siteEq, org⟩ := getSite_eq_some.mp owner
  have after := (effect.getHostRoute host).trans found
  have gated : ∀ id, changed.siteExpiry id t.orgId .orgOnly = [] := fun id =>
    siteExpiry_gated changed (by decide)
  rw [served_of_row after, effect.site, owner, Option.map_some, Option.bind_some, if_pos mem] at route
  rcases routeOf_cases route with
    ⟨kind, versionId, deadline, pinned, dated, -, rfl⟩ | ⟨kind, versionId, live, rfl⟩
  · simp only [downgradeRoute, kind, if_true, pinned, previewRoute, routeValue, dated, gated,
      Option.map_some, Option.getD_some, earliestExpiry, siteEq, org]
  · simp only at live
    simp only [downgradeRoute, kind, if_false, live, liveRoute, routeValue, gated, siteEq, org,
      effect.chat]

theorem Downgraded.isSome (effect : Downgraded t ids db changed) (host : Text) :
    (changed.served later t.orgId host).isSome = (db.served later t.orgId host).isSome := by
  cases found : db.getHostRoute host t.orgId with
  | none => rw [served_none found, served_none ((effect.getHostRoute host).trans found)]
  | some row =>
    rw [served_of_row found, served_of_row ((effect.getHostRoute host).trans found), effect.site]
    cases db.getSite row.siteId t.orgId with
    | none => rfl
    | some site =>
      rw [Option.map_some, Option.bind_some, Option.bind_some, routeOf_isSome, routeOf_isSome]
      by_cases mem : row.siteId ∈ ids
      · rw [if_pos mem]
      · rw [if_neg mem]

theorem Downgraded.other (effect : Downgraded t ids db changed)
    (found : db.getHostRoute host t.orgId = some row) (other : row.siteId ∉ ids) :
    changed.served later t.orgId host = db.served later t.orgId host := by
  rw [served_of_row found, served_of_row ((effect.getHostRoute host).trans found), effect.site]
  cases owner : db.getSite row.siteId t.orgId with
  | none => rfl
  | some site =>
    have siteEq := (getSite_eq_some.mp owner).2.1
    rw [Option.map_some, if_neg other]
    refine routeOf_congr siteEq.symm ⟨effect.tier, effect.chat site.id, ?_⟩
    rw [siteExpiry, effect.policy site.id (siteEq ▸ other), siteExpiry]

end Sharing

/-! Custom domains. -/

section Domains

variable {id : Text} {verify : VerifyStatus} {tls : TLSStatus} {res : MarkDomainVerifiedResult}

theorem updateDomainStatus_pending (waiting : ¬(verify = .verified ∧ tls = .issued))
    (ran : Api.updateDomainStatus t id verify tls db = .ok (changed, res)) :
    changed = db.updateDomainStatus id verify tls t.orgId ∧ res.projected = [] := by
  simp only [Api.updateDomainStatus, if_neg waiting, bind_ok, orFail_ok, pure_ok, Prod.mk.injEq] at ran
  obtain ⟨domain, -, rfl, rfl⟩ := ran
  exact ⟨rfl, rfl⟩

/-- What a verified domain is projected with: neither the tier nor an expiry. -/
def domainRoute (db : Database) (t : Tenant) (site : Site) (versionId : Text) : RouteValue :=
  { siteRoute db t site.id versionId site.accessMode with expiresAt := [], planTier := [] }

theorem updateDomainStatus_ok
    (ran : Api.updateDomainStatus t id .verified .issued db = .ok (changed, res)) :
    ∃ domain site, db.getDomain id t.orgId = some domain ∧
      db.getSite domain.siteId t.orgId = some site ∧
      (∀ row, db.hostRoutes.get? domain.hostname = some row → row.orgId = t.orgId) ∧
      changed = (db.updateDomainStatus id .verified .issued t.orgId).withCustomHost domain.hostname
        t.orgId domain.siteId ∧
      res.projected = (site.currentVersionId.map fun versionId =>
        (⟨domain.hostname, domainRoute db t site versionId⟩ : RouteUpdate)).toList := by
  simp only [Api.updateDomainStatus, and_self, if_true, bind_ok, orFail_ok, mapError_ok, pure_ok,
    Prod.mk.injEq] at ran
  obtain ⟨domain, found, site, owner, written, upserted, rfl, rfl⟩ := ran
  obtain ⟨rfl, owned⟩ := upsertHostRoute_ok upserted
  refine ⟨domain, site, found, owner, owned, rfl, ?_⟩
  have siteEq := (getSite_eq_some.mp owner).2.1
  cases live : site.currentVersionId with
  | none => rfl
  | some versionId =>
    simp only [MarkDomainVerifiedResult.projected, Option.map_some, if_true, Option.toList_some,
      domainRoute, siteRoute, routeValue, siteEq]
    rfl

theorem verified_own {domain : Domain} {site : Site}
    (owner : db.getSite domain.siteId t.orgId = some site)
    (owned : ∀ row, db.hostRoutes.get? domain.hostname = some row → row.orgId = t.orgId) :
    ((db.updateDomainStatus id verify tls t.orgId).withCustomHost domain.hostname t.orgId
        domain.siteId).served later t.orgId domain.hostname =
      site.currentVersionId.map fun versionId => siteRoute db t site.id versionId site.accessMode := by
  obtain ⟨-, siteEq, org⟩ := getSite_eq_some.mp owner
  obtain ⟨row, found, -, rowSite, kind⟩ :=
    getHostRoute_withCustomHost (db.updateDomainStatus id verify tls t.orgId) domain.siteId owned
  have notPreview : row.kind ≠ .preview := by simp [kind]
  have ownerRow : (((db.updateDomainStatus id verify tls t.orgId).withCustomHost domain.hostname t.orgId
      domain.siteId).getSite row.siteId t.orgId) = some site := by
    rw [rowSite]
    exact owner
  rw [served_of_site found ownerRow, routeOf, if_neg notPreview]
  congr 1
  funext versionId
  exact liveRoute_eq db org

theorem verified_other {domain : Domain} (other : domain.hostname ≠ host) :
    ((db.updateDomainStatus id verify tls t.orgId).withCustomHost domain.hostname t.orgId
        domain.siteId).served later t.orgId host = db.served later t.orgId host := by
  have same := getHostRoute_withCustomHost_ne (db.updateDomainStatus id verify tls t.orgId) t.orgId
    domain.siteId other
  rw [served, same]
  rfl

end Domains

/-! Previews. -/

section Previews

theorem siteExpiry_text (db : Database) (siteId orgId : Text) (mode : AccessMode) :
    db.siteExpiry siteId orgId mode = [] ∨ ∃ time, db.siteExpiry siteId orgId mode = rfc3339 time := by
  unfold siteExpiry routeExpiry
  split
  · split
    · exact .inl rfl
    · split
      · exact .inl rfl
      · exact .inr ⟨_, rfl⟩
  · exact .inl rfl

/-- The deadline a column keeps gives the same text as the one it was written
from. -/
theorem rfc3339_ofTime (time : Instant) : rfc3339 (Timestamptz.ofTime time).time = rfc3339 time := by
  unfold rfc3339 Timestamptz.ofTime Timestamptz.time
  congr 1
  simp only
  omega

/-- A second that ends between a time and its microseconds is the whole second of
both. -/
private theorem whole_second {expires time : Int}
    (before : ¬ expires / 1000000000 * 1000000000 < time / 1000 * 1000)
    (between : expires / 1000000000 * 1000000000 < time) :
    expires / 1000000000 = time / 1000000000 := by
  omega

theorem earliestExpiry_ofTime {policyExpiry : Text} (time : Instant)
    (made : policyExpiry = [] ∨ ∃ expires, policyExpiry = rfc3339 expires) :
    earliestExpiry policyExpiry (Timestamptz.ofTime time).time = earliestExpiry policyExpiry time := by
  unfold earliestExpiry
  rw [rfc3339_ofTime]
  rcases made with rfl | ⟨expires, rfl⟩
  · rfl
  · cases read : Rfc3339.parse (rfc3339 expires) with
    | none => rfl
    | some instant =>
      have value := Rfc3339.parse_format read
      by_cases before : instant < (Timestamptz.ofTime time).time
      · have earlier : instant < time := by
          simp only [Timestamptz.ofTime, Timestamptz.time] at before
          omega
        simp only [if_pos before, if_pos earlier]
      · by_cases between : instant < time
        · subst value
          have second : rfc3339 expires = rfc3339 time :=
            congrArg Rfc3339.format (whole_second before between)
          simp only [if_neg before, if_pos between, second]
        · simp only [if_neg before, if_neg between]

variable {ttl : Instant}

theorem createPreviewRoute_ok {res : PreviewResult}
    (ran : createPreviewRoute config t siteId versionId now ttl db = .ok (changed, res)) :
    ∃ site version row, db.getSite siteId t.orgId = some site ∧
      db.getSiteVersion versionId t.orgId = some version ∧ version.siteId = siteId ∧
      changed = (db.withPreviewHost res.host t.orgId siteId versionId
        (.ofTime (now + ttl))).setVersionPreviewExpiry versionId (some (.ofTime (now + ttl))) t.orgId ∧
      changed.getHostRoute res.host t.orgId = some row ∧ row.siteId = siteId ∧ row.kind = .preview ∧
      row.versionId = some versionId ∧ row.expiresAt = some (.ofTime (now + ttl)) ∧
      res.route = routeValue t.orgId siteId versionId site.accessMode
        (earliestExpiry (db.siteExpiry siteId t.orgId site.accessMode) (now + ttl))
        (db.getPlanTier t.orgId) [] := by
  simp only [createPreviewRoute, bind_ok, orFail_ok, mapError_ok, require_ok, pure_ok, exists_const,
    Prod.mk.injEq] at ran
  obtain ⟨site, owner, version, versionFound, own, -, orgSlug, -, written, upserted, row, found,
    ⟨owned, kind⟩, rfl, rfl⟩ := ran
  obtain rfl := upsertPreviewRoute_ok upserted
  obtain ⟨pinned, dated⟩ := getHostRoute_withPreviewHost found owned kind
  exact ⟨site, version, row, owner, versionFound, own, rfl, found, owned, kind, pinned, dated, rfl⟩

theorem createPreviewRoute_own (later : Instant) {res : PreviewResult}
    (ran : createPreviewRoute config t siteId versionId now ttl db = .ok (changed, res)) :
    changed.served later t.orgId res.host =
      if later < (Timestamptz.ofTime (now + ttl)).time then some res.route else none := by
  obtain ⟨site, version, row, owner, -, -, rfl, found, owned, kind, pinned, dated, route⟩ :=
    createPreviewRoute_ok ran
  obtain ⟨-, siteEq, org⟩ := getSite_eq_some.mp owner
  have orgRow := (getHostRoute_eq_some.mp found).2.2
  have ownerRow : (db.withPreviewHost res.host t.orgId siteId versionId
      (.ofTime (now + ttl))).getSite row.siteId t.orgId = some site := by
    rw [owned]
    exact owner
  rw [served_of_site found ownerRow, routeOf, if_pos kind]
  by_cases live : later < (Timestamptz.ofTime (now + ttl)).time
  · have fresh : livePreview later t.orgId row = true := by
      simp [livePreview, kind, orgRow, pinned, dated, live]
    rw [if_pos fresh, if_pos live, previewEntry, pinned, dated, route]
    simp only [Option.map_some, previewRoute, owned, org]
    rw [earliestExpiry_ofTime _ (siteExpiry_text _ _ _ _)]
    rfl
  · have stale : livePreview later t.orgId row = false := by
      simp [livePreview, dated, live]
    rw [stale, if_neg Bool.false_ne_true, if_neg live]

theorem createPreviewRoute_other (later : Instant) {res : PreviewResult}
    (ran : createPreviewRoute config t siteId versionId now ttl db = .ok (changed, res))
    (other : res.host ≠ host) :
    changed.served later t.orgId host = db.served later t.orgId host := by
  obtain ⟨site, version, row, -, -, -, rfl, -⟩ := createPreviewRoute_ok ran
  have same := getHostRoute_withPreviewHost_ne db t.orgId siteId versionId (.ofTime (now + ttl)) other
  unfold served
  rw [show (((db.withPreviewHost res.host t.orgId siteId versionId
    (.ofTime (now + ttl))).setVersionPreviewExpiry versionId (some (.ofTime (now + ttl))) t.orgId).getHostRoute
      host t.orgId) = db.getHostRoute host t.orgId from same]
  rfl

theorem deletePreviewRoutes_ok {hosts : List Text}
    (ran : deletePreviewRoutes t siteId versionId db = .ok (changed, hosts)) :
    changed = (db.deletePreviewRoutesForVersion versionId t.orgId).1.setVersionPreviewExpiry versionId
        none t.orgId ∧
      hosts = (db.hostRoutes.filter (previewOfVersion versionId t.orgId)).map HostRoute.host := by
  simp only [deletePreviewRoutes, bind_ok, orFail_ok, require_ok, pure_ok, exists_const,
    Prod.mk.injEq] at ran
  obtain ⟨site, -, version, -, -, rfl, rfl⟩ := ran
  exact ⟨rfl, rfl⟩

end Previews

/-! Deletions. -/

theorem deleteDomain_ok {id : Text} {res : DeleteDomainResult}
    (ran : Api.deleteDomain t id db = .ok (changed, res)) :
    changed = (db.deleteDomain id t.orgId).deleteHostRoute res.hostname t.orgId := by
  simp only [Api.deleteDomain, bind_ok, orFail_ok, pure_ok, Prod.mk.injEq] at ran
  obtain ⟨domain, -, rfl, rfl⟩ := ran
  rfl

theorem deleteSite_ok {id : Text} {hosts : List Text}
    (ran : Api.deleteSite t id db = .ok (changed, hosts)) :
    ∃ site, db.getSite id t.orgId = some site ∧ changed = db.deleteSite id ∧
      hosts = (db.listHostRoutesForSite id t.orgId).map HostRoute.host := by
  simp only [Api.deleteSite, bind_ok, orFail_ok, pure_ok, Prod.mk.injEq] at ran
  obtain ⟨site, owner, rfl, rfl⟩ := ran
  exact ⟨site, owner, rfl, rfl⟩

/-! The chat surface. -/

theorem siteChatRoutes_ok {updates : List RouteUpdate}
    (ran : siteChatRoutes t siteId db = .ok updates) :
    ∃ site, db.getSite siteId t.orgId = some site ∧
      ∀ update ∈ updates, ∃ row versionId, db.getHostRoute update.host t.orgId = some row ∧
        row.siteId = siteId ∧ row.kind ≠ .preview ∧ site.currentVersionId = some versionId ∧
        update.route = siteRoute db t siteId versionId site.accessMode := by
  simp only [siteChatRoutes, bind_ok, orFail_ok] at ran
  obtain ⟨site, owner, ran⟩ := ran
  refine ⟨site, owner, ?_⟩
  cases live : site.currentVersionId with
  | none =>
    rw [live, pure_ok] at ran
    subst ran
    intro update mem
    cases mem
  | some versionId =>
    rw [live, pure_ok] at ran
    subst ran
    intro update mem
    obtain ⟨row, rowMem, rfl⟩ := List.mem_map.mp mem
    obtain ⟨found, owned, kind⟩ := mem_liveHosts.mp rowMem
    exact ⟨row, versionId, found, owned, kind, rfl, rfl⟩

end Dropway.Api
