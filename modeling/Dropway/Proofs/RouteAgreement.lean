import Dropway.Proofs.Transactions

/-! Which requests project what a rebuild would. Publishing, previews and the
chat refresh always do; the other requests leave fields out. -/

namespace Dropway.Api
open Lib Lib.Outcome Database
open Edge (AccessMode)

variable {config : Config} {t : Tenant} {db changed : Database} {writes : List EdgeWrite}
  {updates : List RouteUpdate} {siteId host : Text} {row : HostRoute} {now later : Instant}

/-- Every projected route is the one a rebuild of `db` gives its host, if it gives
one. -/
def Agrees (later : Instant) (t : Tenant) (db : Database) (writes : List EdgeWrite) : Prop :=
  ∀ host route, EdgeWrite.putRoute host route ∈ writes →
    ∀ value, (db.collectRoutesForOrg later t.orgId).lookup host = some value → route = value

/-- A rebuild has a route for no host of the site. -/
def Unserved (later : Instant) (t : Tenant) (db : Database) (siteId : Text) : Prop :=
  ∀ row ∈ db.listHostRoutesForSite siteId t.orgId,
    (db.collectRoutesForOrg later t.orgId).lookup row.host = none

/-! A public site with one host, in an org on the free tier. -/

def blogTenant : Tenant := ⟨['o'], ['u']⟩

def blogConfig : Config := ⟨['c', 'o', 'm']⟩

def blogHost : Text := hostForSite blogConfig.contentDomain ['a'] ['b']

def blogDatabase : Database where
  organizations := .singleton ⟨['o'], ['a']⟩
  orgMeta := .singleton ⟨['o'], "free".toList, true, "org_only"⟩
  sites := .singleton ⟨['s'], ['o'], ['b'], .public, some ['v']⟩
  siteVersions := .singleton ⟨['v'], ['o'], ['s'], .ready, none⟩
  policies := .empty
  allowlist := .empty
  hostRoutes := .singleton ⟨blogHost, ['o'], ['s'], .canonical, none, none⟩
  chatLogs := .empty
  domains := .empty

def blogAccess : SetAccessParams := ⟨['s'], "org_only", [], none, false⟩

def blogRoute (planTier : Text) : RouteValue :=
  ⟨['o'], ['s'], ['v'], .orgOnly, 4, [], planTier, []⟩

/-- The plan tier is lost where a site's access changes. -/
theorem access_change_drops_tier :
    ∃ changed, (Request.setSiteAccess blogAccess).transact blogConfig blogTenant 0 blogDatabase =
        .ok (changed, [.putRoute blogHost (blogRoute [])]) ∧
      (changed.collectRoutesForOrg 0 blogTenant.orgId).lookup blogHost =
        some (blogRoute "free".toList) ∧
      ¬ Agrees 0 blogTenant changed [.putRoute blogHost (blogRoute [])] := by
  refine ⟨_, rfl, rfl, fun agrees => ?_⟩
  have same := agrees blogHost (blogRoute []) List.mem_cons_self (blogRoute "free".toList) rfl
  exact absurd same (by decide)

/-- The fields that a request leaves out are empty, or nobody would see them. -/
def Complete (later : Instant) (t : Tenant) (db : Database) : Request → Prop
  | .setSiteAccess p => db.getPlanTier t.orgId = [] ∨ Unserved later t db p.siteId
  | .setAllowExternalSharing false =>
    db.getPlanTier t.orgId = [] ∨
      ∀ site ∈ db.listPublicSitesForOrg t.orgId, Unserved later t db site.id
  | .getDomainStatus id verify tls =>
    verify = .verified → tls = .issued → ∀ domain site, db.getDomain id t.orgId = some domain →
      db.getSite domain.siteId t.orgId = some site → site.currentVersionId.isSome →
        db.getPlanTier t.orgId = [] ∧ db.siteExpiry site.id t.orgId site.accessMode = []
  | _ => True

private theorem agrees_putRoutes :
    Agrees later t db (putRoutes updates) ↔ ∀ update ∈ updates, ∀ value,
      db.served later t.orgId update.host = some value → update.route = value := by
  simp only [Agrees, putRoutes, List.mem_map, lookup_collectRoutesForOrg]
  constructor
  · intro agrees update mem
    exact agrees update.host update.route ⟨update, mem, rfl⟩
  · rintro agrees host route ⟨update, mem, same⟩
    cases same
    exact agrees update mem

private theorem agrees_append_deletes {hosts : List Text} :
    Agrees later t db (writes ++ hosts.map .deleteRoute) ↔ Agrees later t db writes := by
  simp [Agrees]

private theorem publish_agrees {versionId : Text} {res : PublishResult}
    (ran : publish config t siteId versionId db = .ok (changed, res)) :
    Agrees later t changed (putRoutes res.projected) := by
  obtain ⟨site, -, owner, -, -, rfl, -⟩ := publish_ok ran
  rw [agrees_putRoutes]
  intro update mem value route
  obtain ⟨row, rowFound, rowOwned, projected⟩ := publish_projected ran owner update mem
  rw [published_own owner rowFound rowOwned] at route
  split at route
  · cases route
  · cases route
    exact projected

private theorem createPreview_agrees {versionId : Text} {ttl : Instant} {res : PreviewResult}
    (ran : createPreviewRoute config t siteId versionId now ttl db = .ok (changed, res)) :
    Agrees later t changed [.putRoute res.host res.route] := by
  intro host route mem value found
  rw [List.mem_singleton] at mem
  cases mem
  rw [lookup_collectRoutesForOrg, createPreviewRoute_own later ran] at found
  split at found
  · exact Option.some.inj found
  · cases found

private theorem chat_agrees (ran : siteChatRoutes t siteId db = .ok updates) :
    Agrees later t db (putRoutes updates) := by
  obtain ⟨site, owner, listed⟩ := siteChatRoutes_ok ran
  rw [agrees_putRoutes]
  intro update mem value route
  obtain ⟨row, versionId, found, owned, kind, live, projected⟩ := listed update mem
  obtain ⟨-, siteEq, org⟩ := getSite_eq_some.mp owner
  rw [served_of_site found (by rw [owned]; exact owner), routeOf, if_neg kind, live, Option.map_some,
    liveRoute_eq db org, siteEq] at route
  exact projected.trans (Option.some.inj route)

private theorem reproject_agrees :
    Agrees later t db ((db.collectRoutesForOrg now t.orgId).entries.map fun entry =>
      .putRoute entry.1 entry.2) := by
  intro host route mem value found
  obtain ⟨entry, entryMem, same⟩ := List.mem_map.mp mem
  cases same
  have collected := AList.mem_lookup_iff.mpr entryMem
  rw [Option.mem_def, lookup_collectRoutesForOrg] at collected
  rw [lookup_collectRoutesForOrg] at found
  obtain ⟨row, site, rowFound, owner, _⟩ := served_eq_some.mp found
  rw [served_of_site rowFound owner] at collected found
  rcases routeOf_cases found with
    ⟨kind, versionId, deadline, pinned, dated, -, rfl⟩ | ⟨kind, versionId, live, rfl⟩ <;>
  rcases routeOf_cases collected with
    ⟨kind', versionId', deadline', pinned', dated', -, collectedEq⟩ |
      ⟨kind', versionId', live', collectedEq⟩
  · rw [pinned] at pinned'
    rw [dated] at dated'
    cases pinned'
    cases dated'
    exact collectedEq
  · exact absurd kind kind'
  · exact absurd kind' kind
  · rw [live] at live'
    cases live'
    exact collectedEq

theorem served_planTier {orgId : Text} {value : RouteValue}
    (route : db.served now orgId host = some value) : value.planTier = db.getPlanTier orgId := by
  obtain ⟨row, site, -, -, made⟩ := served_eq_some.mp route
  rcases routeOf_cases made with ⟨-, versionId, deadline, -, -, -, rfl⟩ | ⟨-, versionId, -, rfl⟩
  · rfl
  · rfl

/-- Routes that are the served ones but for the plan tier. -/
private theorem stripped_agree {rows : List HostRoute} {project : HostRoute → Option RouteUpdate}
    (own : ∀ row ∈ rows, ∀ value, changed.served later t.orgId row.host = some value →
      project row = some ⟨row.host, { value with planTier := [] }⟩)
    (sameHost : ∀ row update, project row = some update → update.host = row.host) :
    (∀ update ∈ rows.filterMap project, ∀ value,
        changed.served later t.orgId update.host = some value → update.route = value) ↔
      changed.getPlanTier t.orgId = [] ∨
        ∀ row ∈ rows, changed.served later t.orgId row.host = none := by
  constructor
  · intro agree
    by_cases free : changed.getPlanTier t.orgId = []
    · exact .inl free
    · refine .inr fun row mem => ?_
      cases route : changed.served later t.orgId row.host with
      | none => rfl
      | some value =>
        have same := agree _ (List.mem_filterMap.mpr ⟨row, mem, own row mem value route⟩) value route
        have tier := congrArg RouteValue.planTier same
        rw [served_planTier route] at tier
        exact absurd tier.symm free
  · intro complete update mem value route
    obtain ⟨row, rowMem, projected⟩ := List.mem_filterMap.mp mem
    rw [sameHost row update projected] at route
    rcases complete with free | unserved
    · rw [own row rowMem value route] at projected
      cases projected
      have tier := served_planTier route
      rw [free] at tier
      rw [← tier]
    · rw [unserved row rowMem] at route
      cases route

private theorem unserved_iff {after : Database}
    (same : ∀ host, (after.served later t.orgId host).isSome = (db.served later t.orgId host).isSome) :
    (∀ row ∈ db.listHostRoutesForSite siteId t.orgId, after.served later t.orgId row.host = none) ↔
      Unserved later t db siteId := by
  simp only [Unserved, lookup_collectRoutesForOrg, ← Option.isNone_iff_eq_none,
    ← Option.not_isSome, same]

private theorem setSiteAccess_agrees_iff {p : SetAccessParams} {res : PublishResult}
    (ran : setSiteAccess config t p db = .ok (changed, res)) :
    Agrees later t changed (putRoutes res.routes) ↔ Complete later t db (.setSiteAccess p) := by
  obtain ⟨mode, site, -, owner, rfl, routesEq⟩ := setSiteAccess_ok ran
  have own : ∀ row ∈ db.listHostRoutesForSite p.siteId t.orgId, ∀ value,
      (accessChanged db t p mode).served later t.orgId row.host = some value →
      accessRoute t site mode (routeExpiry mode (p.policy t mode)) (db.chatIdForSite t.orgId p.siteId)
        row = some ⟨row.host, { value with planTier := [] }⟩ := by
    intro row mem value route
    obtain ⟨found, owned⟩ := mem_listHostRoutesForSite.mp mem
    exact accessChanged_own owner found owned route
  rw [agrees_putRoutes, routesEq, stripped_agree own accessRoute_host,
    unserved_iff (accessChanged_isSome db p mode)]
  rfl

private theorem setAllowExternalSharing_agrees_iff {res : ReconcileResult}
    (ran : Api.setAllowExternalSharing t false db = .ok (changed, res)) :
    Agrees later t changed (putRoutes res.downgraded) ↔
      Complete later t db (.setAllowExternalSharing false) := by
  obtain ⟨effect, downgradedEq⟩ := setAllowExternalSharing_ok ran
  have each : ∀ site ∈ db.listPublicSitesForOrg t.orgId,
      ((∀ update ∈ (db.listHostRoutesForSite site.id t.orgId).filterMap
          (downgradeRoute t site (db.chatIdForSite t.orgId site.id)), ∀ value,
        changed.served later t.orgId update.host = some value → update.route = value) ↔
      db.getPlanTier t.orgId = [] ∨ Unserved later t db site.id) := by
    intro site mem
    have own : ∀ row ∈ db.listHostRoutesForSite site.id t.orgId, ∀ value,
        changed.served later t.orgId row.host = some value →
        downgradeRoute t site (db.chatIdForSite t.orgId site.id) row =
          some ⟨row.host, { value with planTier := [] }⟩ := by
      intro row rowMem value route
      obtain ⟨found, owned⟩ := mem_listHostRoutesForSite.mp rowMem
      have listed := Table.mem_filter.mp mem
      simp only [decide_eq_true_eq] at listed
      have owner : db.getSite row.siteId t.orgId = some site :=
        getSite_eq_some.mpr ⟨listed.1, owned.symm, listed.2.2⟩
      have rowIn : row.siteId ∈ (db.listPublicSitesForOrg t.orgId).map Site.id :=
        owned ▸ List.mem_map_of_mem mem
      rw [← owned]
      exact effect.own owner found rowIn route
    rw [stripped_agree own downgradeRoute_host, unserved_iff effect.isSome, effect.tier]
  rw [agrees_putRoutes, downgradedEq]
  constructor
  · intro agree
    by_cases free : db.getPlanTier t.orgId = []
    · exact .inl free
    · refine .inr fun site mem => ((each site mem).mp fun update updateMem => ?_).resolve_left free
      exact agree update (List.mem_flatMap.mpr ⟨site, mem, updateMem⟩)
  · intro complete update mem
    obtain ⟨site, siteMem, updateMem⟩ := List.mem_flatMap.mp mem
    refine (each site siteMem).mpr ?_ update updateMem
    rcases complete with free | unserved
    · exact .inl free
    · exact .inr (unserved site siteMem)

private theorem verified_agrees_iff {id : Text} {res : MarkDomainVerifiedResult}
    (ran : Api.updateDomainStatus t id .verified .issued db = .ok (changed, res)) :
    Agrees later t changed (putRoutes res.projected) ↔
      Complete later t db (.getDomainStatus id .verified .issued) := by
  obtain ⟨domain, site, found, owner, owned, rfl, projected⟩ := updateDomainStatus_ok ran
  rw [agrees_putRoutes, projected]
  simp only [Option.mem_toList, Option.map_eq_some_iff]
  constructor
  · intro agree _ _ domain' site' found' owner' live
    rw [found] at found'
    cases found'
    rw [owner] at owner'
    cases owner'
    obtain ⟨versionId, current⟩ := Option.isSome_iff_exists.mp live
    have same := agree _ ⟨versionId, current, rfl⟩ (siteRoute db t site.id versionId site.accessMode)
      (by rw [verified_own owner owned, current, Option.map_some])
    have tier := congrArg RouteValue.planTier same
    have expiry := congrArg RouteValue.expiresAt same
    exact ⟨tier.symm, expiry.symm⟩
  · rintro complete _ ⟨versionId, current, rfl⟩ value route
    obtain ⟨tier, expiry⟩ := complete rfl rfl domain site found owner (by simp [current])
    rw [verified_own owner owned, current, Option.map_some] at route
    cases route
    simp only [domainRoute, siteRoute, routeValue, tier, expiry]

private theorem agrees_no_puts (none : ∀ host route, .putRoute host route ∉ writes) :
    Agrees later t db writes :=
  fun host route mem => absurd mem (none host route)

/-- What a request projects agrees with a rebuild exactly if the fields it leaves
out do not matter. -/
theorem projected_agrees_iff {request : Request}
    (ran : request.transact config t now db = .ok (changed, writes)) :
    Agrees later t changed writes ↔ Complete later t db request := by
  cases request with
  | publish siteId versionId =>
    simp only [Request.transact, bind_ok, pure_ok, Prod.mk.injEq] at ran
    obtain ⟨⟨_, res⟩, ran, rfl, rfl⟩ := ran
    exact iff_of_true (agrees_append_deletes.mpr (publish_agrees ran)) trivial
  | setSiteAccess p =>
    simp only [Request.transact, bind_ok, pure_ok, Prod.mk.injEq] at ran
    obtain ⟨⟨_, res⟩, ran, rfl, rfl⟩ := ran
    exact setSiteAccess_agrees_iff ran
  | setAllowExternalSharing enabled =>
    simp only [Request.transact, bind_ok, pure_ok, Prod.mk.injEq] at ran
    obtain ⟨⟨_, res⟩, ran, rfl, rfl⟩ := ran
    cases enabled with
    | false => exact setAllowExternalSharing_agrees_iff ran
    | true =>
      simp only [Api.setAllowExternalSharing, if_true, pure_ok, Prod.mk.injEq] at ran
      obtain ⟨rfl, rfl⟩ := ran
      exact iff_of_true (agrees_no_puts (by simp [putRoutes])) trivial
  | getDomainStatus id verify tls =>
    simp only [Request.transact, bind_ok, pure_ok, Prod.mk.injEq] at ran
    obtain ⟨⟨_, res⟩, ran, rfl, rfl⟩ := ran
    by_cases done : verify = .verified ∧ tls = .issued
    · obtain ⟨rfl, rfl⟩ := done
      exact verified_agrees_iff ran
    · obtain ⟨rfl, projected⟩ := updateDomainStatus_pending done ran
      rw [projected]
      exact iff_of_true (agrees_no_puts (by simp [putRoutes]))
        fun verified issued => absurd ⟨verified, issued⟩ done
  | deleteDomain id =>
    simp only [Request.transact, bind_ok, pure_ok, Prod.mk.injEq] at ran
    obtain ⟨⟨_, res⟩, -, rfl, rfl⟩ := ran
    exact iff_of_true (agrees_no_puts (by simp)) trivial
  | deleteSite id =>
    simp only [Request.transact, bind_ok, pure_ok, Prod.mk.injEq] at ran
    obtain ⟨⟨_, hosts⟩, -, rfl, rfl⟩ := ran
    exact iff_of_true (agrees_no_puts (by simp)) trivial
  | createPreview siteId versionId ttl =>
    simp only [Request.transact, bind_ok, pure_ok, Prod.mk.injEq] at ran
    obtain ⟨⟨_, res⟩, ran, rfl, rfl⟩ := ran
    exact iff_of_true (createPreview_agrees ran) trivial
  | deletePreview siteId versionId =>
    simp only [Request.transact, bind_ok, pure_ok, Prod.mk.injEq] at ran
    obtain ⟨⟨_, hosts⟩, -, rfl, rfl⟩ := ran
    exact iff_of_true (agrees_no_puts (by simp)) trivial
  | refreshChat siteId =>
    simp only [Request.transact, bind_ok, pure_ok, Prod.mk.injEq] at ran
    obtain ⟨routes, ran, rfl, rfl⟩ := ran
    exact iff_of_true (chat_agrees ran) trivial
  | reprojectOrgRoutes =>
    cases ran
    exact iff_of_true reproject_agrees trivial

theorem projected_agrees_iff_blog :
    Agrees 0 blogTenant (accessChanged blogDatabase blogTenant blogAccess .orgOnly)
        [.putRoute blogHost (blogRoute [])] ↔
      Complete 0 blogTenant blogDatabase (.setSiteAccess blogAccess) :=
  projected_agrees_iff
    (show (Request.setSiteAccess blogAccess).transact blogConfig blogTenant 0 blogDatabase =
      .ok (accessChanged blogDatabase blogTenant blogAccess .orgOnly,
        [.putRoute blogHost (blogRoute [])]) from rfl)

end Dropway.Api
