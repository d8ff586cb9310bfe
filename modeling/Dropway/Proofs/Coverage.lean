import Dropway.Lib.WriteBehind
import Dropway.Proofs.HostRows

/-! Every request writes each host whose route it changes, and writes what the
database then serves there. -/

namespace Dropway.Api
open Lib Lib.Outcome Lib.WriteBehind Database
open Edge (AccessMode)

variable {config : Config} {t : Tenant} {db changed : Database} {writes : List EdgeWrite}
  {host : Text} {row : HostRoute} {site : Site} {now later : Instant}

def EdgeWrite.toWrite : EdgeWrite → Write Text RouteValue
  | .putRoute host route => ⟨host, some route⟩
  | .deleteRoute host => ⟨host, none⟩

/-- What the edge decides from a route. -/
def RouteValue.shown (route : RouteValue) : Text × AccessMode := (route.versionId, route.accessMode)

/-- The host is registered to another org. -/
def Foreign (t : Tenant) (db : Database) (host : Text) : Prop :=
  ∃ row ∈ db.hostRoutes.rows, row.host = host ∧ row.orgId ≠ t.orgId

/-- The route of a host is there exactly if this database has served the host at some
instant up to now, with its version and access mode. -/
def AgreesAt (now : Instant) (t : Tenant) (db : Database) (host : Text)
    (route : Option RouteValue) : Prop :=
  Foreign t db host ∨ ∃ seen ≤ now,
    route.map RouteValue.shown = (db.served seen t.orgId host).map RouteValue.shown

structure Covers (now : Instant) (t : Tenant) (before after : Database) (writes : List EdgeWrite) :
    Prop where
  foreign : ∀ row ∈ before.hostRoutes.rows, row.orgId ≠ t.orgId → row ∈ after.hostRoutes.rows
  touched : ∀ host route, lastWrite (writes.map EdgeWrite.toWrite) host = some route →
    AgreesAt now t after host route
  untouched : ∀ host, lastWrite (writes.map EdgeWrite.toWrite) host = none → ∀ seen,
    (after.served seen t.orgId host).map RouteValue.shown =
      (before.served seen t.orgId host).map RouteValue.shown

theorem Covers.keep {before after : Database} (covers : Covers now t before after writes)
    {route : Option RouteValue} (untouched : lastWrite (writes.map EdgeWrite.toWrite) host = none)
    (agrees : AgreesAt now t before host route) : AgreesAt now t after host route := by
  rcases agrees with ⟨row, mem, same, other⟩ | ⟨seen, past, same⟩
  · exact .inl ⟨row, covers.foreign row mem other, same, other⟩
  · exact .inr ⟨seen, past, same.trans (covers.untouched host untouched seen).symm⟩

theorem AgreesAt.served {route : Option RouteValue}
    (same : route.map RouteValue.shown = (db.served now t.orgId host).map RouteValue.shown) :
    AgreesAt now t db host route :=
  .inr ⟨now, le_rfl, same⟩

/-! Last writes. -/

theorem lastWrite_puts_some {updates : List RouteUpdate} {route : Option RouteValue}
    (last : lastWrite ((putRoutes updates).map EdgeWrite.toWrite) host = some route) :
    ∃ update ∈ updates, update.host = host ∧ route = some update.route := by
  obtain ⟨write, mem, same, rfl⟩ := mem_of_lastWrite last
  simp only [putRoutes, List.map_map, List.mem_map] at mem
  obtain ⟨update, updateMem, rfl⟩ := mem
  exact ⟨update, updateMem, same, rfl⟩

theorem lastWrite_puts_none {updates : List RouteUpdate} :
    lastWrite ((putRoutes updates).map EdgeWrite.toWrite) host = none ↔
      ∀ update ∈ updates, update.host ≠ host := by
  simp [lastWrite_eq_none, putRoutes, EdgeWrite.toWrite]

theorem lastWrite_deletes {hosts : List Text} :
    lastWrite ((hosts.map EdgeWrite.deleteRoute).map EdgeWrite.toWrite) host =
      if host ∈ hosts then some none else none := by
  by_cases listed : host ∈ hosts
  · rw [if_pos listed]
    cases last : lastWrite ((hosts.map EdgeWrite.deleteRoute).map EdgeWrite.toWrite) host with
    | none =>
      rw [lastWrite_eq_none] at last
      exact absurd rfl (last ⟨host, none⟩ (by simp [EdgeWrite.toWrite, listed]))
    | some route =>
      obtain ⟨write, mem, -, rfl⟩ := mem_of_lastWrite last
      simp only [List.map_map, List.mem_map] at mem
      obtain ⟨other, -, rfl⟩ := mem
      rfl
  · rw [if_neg listed, lastWrite_eq_none]
    intro write mem same
    simp only [List.map_map, List.mem_map] at mem
    obtain ⟨other, otherMem, rfl⟩ := mem
    exact listed (same ▸ otherMem)

/-! Hosts whose row and site are known. -/

theorem routeOf_shown (db : Database) (now : Instant) (orgId : Text) (row : HostRoute) (site : Site) :
    (db.routeOf now orgId row site).map RouteValue.shown =
      if row.kind = .preview then
        if livePreview now orgId row then row.versionId.map (·, site.accessMode) else none
      else site.currentVersionId.map (·, site.accessMode) := by
  unfold routeOf
  by_cases kind : row.kind = .preview
  · rw [if_pos kind, if_pos kind]
    by_cases live : livePreview now orgId row = true
    · rw [if_pos live, if_pos live]
      simp only [livePreview, Bool.and_eq_true, Option.any_eq_true_iff_get] at live
      obtain ⟨⟨-, version⟩, deadline, -⟩ := live
      obtain ⟨versionId, pinned⟩ := Option.isSome_iff_exists.mp version
      obtain ⟨expires, dated⟩ := Option.isSome_iff_exists.mp deadline
      simp only [previewEntry, pinned, dated, Option.map_some]
      rfl
    · rw [if_neg live, if_neg live, Option.map_none]
  · rw [if_neg kind, if_neg kind, Option.map_map]
    rfl

/-- A host that has a route at all had one at some instant. -/
theorem exists_served (valid : RowValid db row) (found : db.getHostRoute host t.orgId = some row)
    (owner : db.getSite row.siteId t.orgId = some site)
    (live : row.kind ≠ .preview → site.currentVersionId ≠ none) (now : Instant) :
    ∃ seen ≤ now, ∃ value, db.served seen t.orgId host = some value := by
  by_cases kind : row.kind = .preview
  · obtain ⟨version, dated⟩ := valid.pinned kind
    obtain ⟨deadline, dated⟩ := Option.isSome_iff_exists.mp dated
    have org := (getHostRoute_eq_some.mp found).2.2
    refine ⟨min now (deadline.time - 1), min_le_left _ _, Option.isSome_iff_exists.mp ?_⟩
    have running : min now (deadline.time - 1) < deadline.time :=
      (min_le_right _ _).trans_lt (Int.sub_one_lt_of_le le_rfl)
    rw [served_of_site found owner, routeOf_isSome, if_pos kind]
    simp only [livePreview, kind, org, version, dated, and_self, decide_true, Option.any_some,
      Bool.true_and, decide_eq_true_eq]
    exact running
  · refine ⟨now, le_rfl, Option.isSome_iff_exists.mp ?_⟩
    rw [served_of_site found owner, routeOf_isSome, if_neg kind]
    exact Option.isSome_iff_ne_none.mpr (live kind)

/-! The requests. -/

private theorem publish_covers {siteId versionId : Text} {res : PublishResult} (valid : RowsValid db)
    (ran : publish config t siteId versionId db = .ok (changed, res)) :
    Covers now t db changed (putRoutes res.projected ++ res.deletedPreviewHosts.map .deleteRoute) := by
  obtain ⟨site, canonical, owner, canonicalFound, canonicalOwned, rfl, canonicalEq, routesEq, deletedEq⟩ :=
    publish_ok ran
  have deleted : ∀ {host row}, db.getHostRoute host t.orgId = some row → row.siteId = siteId →
      (host ∈ res.deletedPreviewHosts ↔ row.kind = .preview) := by
    intro host row found owned
    obtain ⟨rowMem, rowHost, org⟩ := getHostRoute_eq_some.mp found
    rw [deletedEq, List.mem_map]
    constructor
    · rintro ⟨other, mem, same⟩
      obtain ⟨otherMem, gone⟩ := Table.mem_filter.mp mem
      obtain rfl := db.hostRoutes.eq_of_key otherMem rowMem (same.trans rowHost.symm)
      simp only [sitePreviewExcept, decide_eq_true_eq] at gone
      exact gone.2.2.1
    · intro kind
      refine ⟨row, Table.mem_filter.mpr ⟨rowMem, ?_⟩, rowHost⟩
      have pinned := (valid row rowMem).pinned kind
      simp only [sitePreviewExcept, owned, org, kind, true_and, ne_eq, decide_eq_true_eq]
      exact Option.isSome_iff_ne_none.mp pinned.1
  have own := publish_projected ran owner
  constructor
  · intro row mem other
    refine Table.mem_delete.mpr ⟨mem, ?_⟩
    simp [sitePreviewExcept, other]
  · intro host route last
    rw [List.map_append, lastWrite_append, lastWrite_deletes] at last
    by_cases gone : host ∈ res.deletedPreviewHosts
    · rw [if_pos gone, Option.some_or] at last
      cases last
      rw [deletedEq, List.mem_map] at gone
      obtain ⟨row, rowMem, rfl⟩ := gone
      obtain ⟨listed, preview⟩ := Table.mem_filter.mp rowMem
      simp only [sitePreviewExcept, decide_eq_true_eq] at preview
      have found := getHostRoute_eq_some.mpr ⟨listed, rfl, preview.2.1⟩
      apply AgreesAt.served
      rw [published_own owner found preview.1, if_pos preview.2.2.1]
    · rw [if_neg gone, Option.none_or] at last
      obtain ⟨update, mem, rfl, rfl⟩ := lastWrite_puts_some last
      obtain ⟨row, found, owned, same⟩ := own update mem
      apply AgreesAt.served
      rw [published_own owner found owned, if_neg fun kind => gone ((deleted found owned).mpr kind), same]
  · intro host untouched seen
    rw [List.map_append, lastWrite_append, lastWrite_deletes, Option.or_eq_none_iff,
      lastWrite_puts_none] at untouched
    obtain ⟨kept, unwritten⟩ := untouched
    have notDeleted : host ∉ res.deletedPreviewHosts := fun gone => by simp [gone] at kept
    have rowAfter := published_getHostRoute db t siteId versionId host
    cases found : db.getHostRoute host t.orgId with
    | none =>
      rw [found, Option.filter_none] at rowAfter
      rw [served_none found, served_none rowAfter]
    | some row =>
      have other : row.siteId ≠ siteId := fun owned => by
        have live : row.kind ≠ .preview := fun kind => notDeleted ((deleted found owned).mpr kind)
        obtain ⟨-, rowHost, -⟩ := getHostRoute_eq_some.mp found
        have listed : (⟨row.host, siteRoute db t siteId versionId site.accessMode⟩ : RouteUpdate) ∈
            res.routes := by
          rw [routesEq]
          exact List.mem_map.mpr ⟨row, mem_liveHosts.mpr ⟨rowHost ▸ found, owned, live⟩, rfl⟩
        have projected : res.projected = res.routes := by
          unfold PublishResult.projected
          split
          · rename_i empty
            rw [empty] at listed
            cases listed
          · rfl
        exact unwritten _ (projected ▸ listed) rowHost
      rw [published_other found other]

/-- A rewrite of the sites that `sel` picks, each host with its served route but for
the tier. -/
private theorem rewrite_covers {updates : List RouteUpdate} (sel : Text → Prop)
    (project : HostRoute → Option RouteUpdate) (validAfter : RowsValid changed)
    (hosts : changed.hostRoutes = db.hostRoutes)
    (listed : ∀ update, update ∈ updates ↔ ∃ row, db.getHostRoute row.host t.orgId = some row ∧
      sel row.siteId ∧ project row = some update)
    (owned : ∀ row, db.getHostRoute row.host t.orgId = some row → sel row.siteId →
      ∃ site, changed.getSite row.siteId t.orgId = some site ∧
        (row.kind ≠ .preview → project row ≠ none → site.currentVersionId ≠ none))
    (own : ∀ row, db.getHostRoute row.host t.orgId = some row → sel row.siteId → ∀ seen value,
      changed.served seen t.orgId row.host = some value →
        project row = some ⟨row.host, { value with planTier := [] }⟩)
    (isSome : ∀ seen host,
      (changed.served seen t.orgId host).isSome = (db.served seen t.orgId host).isSome)
    (other : ∀ seen host row, db.getHostRoute host t.orgId = some row → ¬ sel row.siteId →
      changed.served seen t.orgId host = db.served seen t.orgId host) :
    Covers now t db changed (putRoutes updates) := by
  have sameRow : ∀ host, changed.getHostRoute host t.orgId = db.getHostRoute host t.orgId := fun host => by
    rw [getHostRoute, hosts, getHostRoute]
  constructor
  · intro row mem _
    rwa [hosts]
  · intro host route last
    obtain ⟨update, mem, rfl, rfl⟩ := lastWrite_puts_some last
    obtain ⟨row, found, picked, projected⟩ := (listed update).mp mem
    obtain ⟨site, owner, live⟩ := owned row found picked
    have foundAfter := (sameRow row.host).trans found
    have valid := validAfter row (getHostRoute_eq_some.mp foundAfter).1
    obtain ⟨seen, past, value, route⟩ := exists_served valid foundAfter owner
      (fun kind => live kind (by simp [projected])) now
    rw [own row found picked seen value route] at projected
    cases projected
    exact .inr ⟨seen, past, by rw [route]; rfl⟩
  · intro host untouched seen
    rw [lastWrite_puts_none] at untouched
    cases found : db.getHostRoute host t.orgId with
    | none => rw [served_none found, served_none ((sameRow host).trans found)]
    | some row =>
      by_cases picked : sel row.siteId
      · obtain ⟨-, rfl, -⟩ := getHostRoute_eq_some.mp found
        have missing : changed.served seen t.orgId row.host = none := by
          cases route : changed.served seen t.orgId row.host with
          | none => rfl
          | some value =>
            have written := (listed _).mpr ⟨row, found, picked, own row found picked seen value route⟩
            exact absurd rfl (untouched _ written)
        have before := isSome seen row.host
        rw [missing, Option.isSome_none] at before
        rw [missing, Option.isNone_iff_eq_none.mp (Option.isSome_eq_false_iff.mp before.symm)]
      · rw [other seen host row found picked]

private theorem access_covers {p : SetAccessParams} {res : PublishResult} (valid : RowsValid changed)
    (ran : setSiteAccess config t p db = .ok (changed, res)) :
    Covers now t db changed (putRoutes res.routes) := by
  obtain ⟨mode, site, -, owner, rfl, routesEq⟩ := setSiteAccess_ok ran
  have ownerAfter : (accessChanged db t p mode).getSite p.siteId t.orgId =
      some { site with accessMode := mode } := by
    rw [accessChanged_getSite, owner, Option.map_some, if_pos rfl]
  refine rewrite_covers (· = p.siteId) (accessRoute t site mode (routeExpiry mode (p.policy t mode))
      (db.chatIdForSite t.orgId p.siteId)) valid rfl ?_ ?_ ?_
    (fun _ => accessChanged_isSome db p mode) fun _ host row found other => accessChanged_other found other
  · intro update
    rw [routesEq, List.mem_filterMap]
    simp only [mem_listHostRoutesForSite, and_assoc]
  · intro row found owned
    refine ⟨_, owned ▸ ownerAfter, fun kind projected => ?_⟩
    intro gone
    simp only at gone
    exact projected (by simp [accessRoute, kind, gone])
  · intro row found owned seen value route
    exact accessChanged_own owner found owned route

private theorem downgrade_covers {res : ReconcileResult} (valid : RowsValid changed)
    (ran : Api.setAllowExternalSharing t false db = .ok (changed, res)) :
    Covers now t db changed (putRoutes res.downgraded) := by
  obtain ⟨effect, downgradedEq⟩ := setAllowExternalSharing_ok ran
  -- Each host is projected with the reads of its own site.
  have listedSite : ∀ site ∈ db.listPublicSitesForOrg t.orgId, db.getSite site.id t.orgId = some site :=
    fun site mem => by
      have listed := Table.mem_filter.mp mem
      simp only [decide_eq_true_eq] at listed
      exact getSite_eq_some.mpr ⟨listed.1, rfl, listed.2.2⟩
  have picked : ∀ {id}, id ∈ (db.listPublicSitesForOrg t.orgId).map Site.id →
      ∃ site ∈ db.listPublicSitesForOrg t.orgId, site.id = id ∧ db.getSite id t.orgId = some site :=
    fun mem => by
      obtain ⟨site, siteMem, rfl⟩ := List.mem_map.mp mem
      exact ⟨site, siteMem, rfl, listedSite site siteMem⟩
  refine rewrite_covers (· ∈ (db.listPublicSitesForOrg t.orgId).map Site.id)
    (fun row => (db.getSite row.siteId t.orgId).bind fun site =>
      downgradeRoute t site (db.chatIdForSite t.orgId row.siteId) row) valid effect.hosts ?_ ?_ ?_
    (fun _ => effect.isSome) fun _ host row found other => effect.other found other
  · intro update
    simp only [downgradedEq, List.mem_flatMap, List.mem_filterMap, mem_listHostRoutesForSite]
    constructor
    · rintro ⟨site, siteMem, row, ⟨found, owned⟩, projected⟩
      refine ⟨row, found, owned ▸ List.mem_map_of_mem siteMem, ?_⟩
      rw [owned, listedSite site siteMem, Option.bind_some]
      exact projected
    · rintro ⟨row, found, mem, projected⟩
      obtain ⟨site, siteMem, same, owner⟩ := picked mem
      rw [owner, Option.bind_some, ← same] at projected
      exact ⟨site, siteMem, row, ⟨found, same.symm⟩, projected⟩
  · intro row found mem
    obtain ⟨site, siteMem, same, owner⟩ := picked mem
    refine ⟨{ site with accessMode := .orgOnly }, ?_, fun kind projected => ?_⟩
    · rw [effect.site, owner, Option.map_some, if_pos mem]
    · intro gone
      simp only at gone
      exact projected (by simp [owner, downgradeRoute, kind, gone])
  · intro row found mem seen value route
    obtain ⟨site, siteMem, same, owner⟩ := picked mem
    rw [owner, Option.bind_some]
    exact effect.own owner found mem route

/-- A host keeps its version and its mode where its row and its site stay. -/
private theorem shown_congr {seen : Instant}
    (rows : changed.getHostRoute host t.orgId = db.getHostRoute host t.orgId)
    (sites : ∀ row, db.getHostRoute host t.orgId = some row →
      changed.getSite row.siteId t.orgId = db.getSite row.siteId t.orgId) :
    (changed.served seen t.orgId host).map RouteValue.shown =
      (db.served seen t.orgId host).map RouteValue.shown := by
  cases found : db.getHostRoute host t.orgId with
  | none => rw [served_none found, served_none (rows.trans found)]
  | some row =>
    rw [served_of_row found, served_of_row (rows.trans found), sites row found]
    cases db.getSite row.siteId t.orgId with
    | none => rfl
    | some site => rw [Option.bind_some, Option.bind_some, routeOf_shown, routeOf_shown]

private theorem kept_rows {p : HostRoute → Bool}
    (rows : changed.hostRoutes = db.hostRoutes.delete p) (host : Text) :
    changed.getHostRoute host t.orgId = (db.getHostRoute host t.orgId).filter fun row => !p row := by
  rw [getHostRoute, rows]
  exact getHostRoute_deleteWhere db p host t.orgId

/-- Dropping hosts with the rows that `p` picks. -/
private theorem delete_covers (hosts : List Text) (p : HostRoute → Bool)
    (rows : changed.hostRoutes = db.hostRoutes.delete p)
    (own : ∀ row ∈ db.hostRoutes.rows, p row = true → row.orgId = t.orgId)
    (listed : ∀ row, db.getHostRoute row.host t.orgId = some row → (p row = true ↔ row.host ∈ hosts))
    (sites : ∀ row, db.getHostRoute row.host t.orgId = some row → p row = false →
      changed.getSite row.siteId t.orgId = db.getSite row.siteId t.orgId) :
    Covers now t db changed (hosts.map .deleteRoute) := by
  constructor
  · intro row mem other
    rw [rows, Table.mem_delete]
    refine ⟨mem, ?_⟩
    by_contra picked
    exact other (own row mem (by simpa using picked))
  · intro host route last
    rw [lastWrite_deletes] at last
    split at last
    · rename_i mem
      cases last
      apply AgreesAt.served
      have gone : changed.getHostRoute host t.orgId = none := by
        rw [kept_rows rows]
        cases found : db.getHostRoute host t.orgId with
        | none => rfl
        | some row =>
          obtain ⟨-, rfl, -⟩ := getHostRoute_eq_some.mp found
          rw [Option.filter_some, (listed row found).mpr mem]
          rfl
      rw [served_none gone]
    · cases last
  · intro host last seen
    rw [lastWrite_deletes] at last
    have missing : host ∉ hosts := fun mem => by simp [mem] at last
    have unpicked : ∀ row, db.getHostRoute host t.orgId = some row → p row = false := fun row found => by
      obtain ⟨-, rfl, -⟩ := getHostRoute_eq_some.mp found
      by_contra picked
      exact missing ((listed row found).mp (by simpa using picked))
    have same : changed.getHostRoute host t.orgId = db.getHostRoute host t.orgId := by
      rw [kept_rows rows]
      cases found : db.getHostRoute host t.orgId with
      | none => rfl
      | some row => rw [Option.filter_some, unpicked row found, Bool.not_false, if_pos rfl]
    refine shown_congr same fun row found => ?_
    obtain ⟨-, rfl, -⟩ := getHostRoute_eq_some.mp found
    exact sites row found (unpicked row found)

private theorem deleteDomain_covers {id : Text} {res : DeleteDomainResult}
    (ran : Api.deleteDomain t id db = .ok (changed, res)) :
    Covers now t db changed [.deleteRoute res.hostname] := by
  obtain rfl := deleteDomain_ok ran
  refine delete_covers [res.hostname] (fun row => row.host = res.hostname ∧ row.orgId = t.orgId) rfl ?_ ?_ fun _ _ _ => rfl
  · intro row _ picked
    simp only [decide_eq_true_eq] at picked
    exact picked.2
  · intro row found
    have org := (getHostRoute_eq_some.mp found).2.2
    simp [org]

private theorem deleteSite_covers {id : Text} {hosts : List Text} (valid : RowsValid db)
    (ran : Api.deleteSite t id db = .ok (changed, hosts)) :
    Covers now t db changed (hosts.map .deleteRoute) := by
  obtain ⟨site, owner, rfl, rfl⟩ := deleteSite_ok ran
  obtain ⟨siteMem, siteEq, org⟩ := getSite_eq_some.mp owner
  have picks : ∀ row ∈ db.hostRoutes.rows,
      ((row.siteId = id || db.pinsVersionOf id row) = true ↔ row.siteId = id) := fun row mem => by
    have kept := deleteSite_rows valid id row
    simp only [Database.deleteSite, Table.mem_delete, mem, true_and] at kept
    rw [← Bool.not_eq_false, kept, not_not]
  refine delete_covers _ (fun row => row.siteId = id || db.pinsVersionOf id row) rfl ?_ ?_ ?_
  · intro row mem picked
    have owned := (picks row mem).mp picked
    rw [← (valid row mem).owner site siteMem (siteEq.trans owned.symm), org]
  · intro row found
    rw [picks row (getHostRoute_eq_some.mp found).1, List.mem_map]
    constructor
    · intro owned
      exact ⟨row, mem_listHostRoutesForSite.mpr ⟨found, owned⟩, rfl⟩
    · rintro ⟨other, mem, same⟩
      obtain ⟨otherFound, owned⟩ := mem_listHostRoutesForSite.mp mem
      rw [same, found] at otherFound
      cases otherFound
      exact owned
  · intro row found kept
    have other : row.siteId ≠ id := fun owned => by
      rw [(picks row (getHostRoute_eq_some.mp found).1).mpr owned] at kept
      cases kept
    simp only [getSite, Database.deleteSite, Table.get?_delete]
    cases found : db.sites.get? row.siteId with
    | none => rfl
    | some site =>
      have keyed : site.id = row.siteId := Table.get?_key found
      simp [Option.filter_some, keyed, other]

private theorem deletePreview_covers {siteId versionId : Text} {hosts : List Text}
    (ran : deletePreviewRoutes t siteId versionId db = .ok (changed, hosts)) :
    Covers now t db changed (hosts.map .deleteRoute) := by
  obtain ⟨rfl, rfl⟩ := deletePreviewRoutes_ok ran
  refine delete_covers _ (previewOfVersion versionId t.orgId) rfl ?_ ?_ fun _ _ _ => rfl
  · intro row _ picked
    simp only [previewOfVersion, decide_eq_true_eq] at picked
    exact picked.2.2
  · intro row found
    rw [List.mem_map]
    constructor
    · intro picked
      exact ⟨row, Table.mem_filter.mpr ⟨(getHostRoute_eq_some.mp found).1, picked⟩, rfl⟩
    · rintro ⟨other, mem, same⟩
      obtain ⟨otherMem, picked⟩ := Table.mem_filter.mp mem
      rw [← db.hostRoutes.eq_of_key otherMem (getHostRoute_eq_some.mp found).1 same]
      exact picked

private theorem verified_covers {id : Text} {res : MarkDomainVerifiedResult}
    (undisturbing : (Request.getDomainStatus id .verified .issued).Undisturbing t db)
    (ran : Api.updateDomainStatus t id .verified .issued db = .ok (changed, res)) :
    Covers now t db changed (putRoutes res.projected) := by
  obtain ⟨domain, site, found, owner, owned, rfl, projected⟩ := updateDomainStatus_ok ran
  have apart : ∀ {host}, domain.hostname ≠ host →
      ((db.updateDomainStatus id .verified .issued t.orgId).withCustomHost domain.hostname t.orgId
        domain.siteId).hostRoutes.get? host = db.hostRoutes.get? host := fun other =>
    (Table.get?_upsert ..).trans (if_neg other)
  constructor
  · intro row mem other
    have here := Table.mem_iff_get?.mp mem
    by_cases same : domain.hostname = row.host
    · rw [← same] at here
      exact absurd (owned row here) other
    · exact Table.mem_iff_get?.mpr ((apart same).trans here)
  · intro host route last
    obtain ⟨update, mem, rfl, rfl⟩ := lastWrite_puts_some last
    rw [projected, Option.mem_toList, Option.map_eq_some_iff] at mem
    obtain ⟨versionId, live, rfl⟩ := mem
    apply AgreesAt.served
    rw [verified_own owner owned, live]
    rfl
  · intro host untouched seen
    rw [lastWrite_puts_none, projected] at untouched
    by_cases same : domain.hostname = host
    · -- The domain's site is not live, and neither was its host.
      subst same
      have gone : site.currentVersionId = none := by
        cases live : site.currentVersionId with
        | none => rfl
        | some versionId => exact absurd rfl (untouched _ (by rw [live]; exact List.mem_cons_self))
      rw [verified_own owner owned, gone]
      cases before : db.getHostRoute domain.hostname t.orgId with
      | none => rw [served_none before, Option.map_none]
      | some row =>
        obtain ⟨sameSite, kind⟩ := undisturbing rfl rfl domain found row
          (Option.filter_eq_some_iff.mp before).1
        rw [served_of_site before (sameSite ▸ owner), routeOf, if_neg kind, gone]
        rfl
    · rw [verified_other same]

private theorem createPreview_covers {siteId versionId : Text} {ttl : Instant} {res : PreviewResult}
    (ran : createPreviewRoute config t siteId versionId now ttl db = .ok (changed, res)) :
    Covers now t db changed (putRoutes [⟨res.host, res.route⟩]) := by
  have own := fun seen => createPreviewRoute_own seen ran
  have others : ∀ {host} seen, res.host ≠ host →
      changed.served seen t.orgId host = db.served seen t.orgId host :=
    fun seen => createPreviewRoute_other seen ran
  obtain ⟨site, version, row, -, -, -, rfl, found, -⟩ := createPreviewRoute_ok ran
  have apart : ∀ {host}, res.host ≠ host →
      (db.withPreviewHost res.host t.orgId siteId versionId (.ofTime (now + ttl))).hostRoutes.get? host =
        db.hostRoutes.get? host := fun other =>
    (Table.get?_upsert ..).trans (if_neg other)
  constructor
  · intro old mem other
    have here := Table.mem_iff_get?.mp mem
    by_cases same : res.host = old.host
    · -- A renewed row keeps its org.
      rw [← same] at here
      have listed := (Option.filter_eq_some_iff.mp found).1
      rw [show (((db.withPreviewHost res.host t.orgId siteId versionId
        (.ofTime (now + ttl))).setVersionPreviewExpiry versionId (some (.ofTime (now + ttl)))
          t.orgId).hostRoutes.get? res.host) = _ from Table.get?_upsert .., if_pos rfl, here,
        Option.elim_some] at listed
      have org := (getHostRoute_eq_some.mp found).2.2
      rw [← Option.some.inj listed] at org
      unfold renewPreview at org
      split at org
      · exact absurd org other
      · exact absurd org other
    · exact Table.mem_iff_get?.mpr ((apart same).trans here)
  · intro host route last
    obtain ⟨update, mem, rfl, rfl⟩ := lastWrite_puts_some last
    obtain rfl := List.mem_singleton.mp mem
    -- Before its deadline the preview is served, whenever that is.
    let deadline := (Timestamptz.ofTime (now + ttl)).time
    refine .inr ⟨min now (deadline - 1), min_le_left _ _, ?_⟩
    have running : min now (deadline - 1) < deadline :=
      (min_le_right _ _).trans_lt (Int.sub_one_lt_of_le le_rfl)
    rw [own, if_pos running]
  · intro host untouched seen
    rw [others seen (lastWrite_puts_none.mp untouched _ List.mem_cons_self)]

/-- Writes that change no row only have to write what is served. -/
private theorem refresh_covers {updates : List RouteUpdate}
    (current : ∀ update ∈ updates, db.served now t.orgId update.host = some update.route) :
    Covers now t db db (putRoutes updates) := by
  refine ⟨fun row mem _ => mem, fun host route last => ?_, fun host _ _ => rfl⟩
  obtain ⟨update, mem, rfl, rfl⟩ := lastWrite_puts_some last
  exact .served (by rw [current update mem])

/-- What a request writes covers what it changes. -/
theorem transact_covers {request : Request} (valid : RowsValid db)
    (undisturbing : request.Undisturbing t db)
    (ran : request.transact config t now db = .ok (changed, writes)) :
    Covers now t db changed writes := by
  have validAfter := transact_valid valid undisturbing ran
  cases request with
  | publish siteId versionId =>
    simp only [Request.transact, bind_ok, pure_ok, Prod.mk.injEq] at ran
    obtain ⟨⟨_, res⟩, ran, rfl, rfl⟩ := ran
    exact publish_covers valid ran
  | setSiteAccess p =>
    simp only [Request.transact, bind_ok, pure_ok, Prod.mk.injEq] at ran
    obtain ⟨⟨_, res⟩, ran, rfl, rfl⟩ := ran
    exact access_covers validAfter ran
  | setAllowExternalSharing enabled =>
    simp only [Request.transact, bind_ok, pure_ok, Prod.mk.injEq] at ran
    obtain ⟨⟨_, res⟩, ran, rfl, rfl⟩ := ran
    cases enabled with
    | false => exact downgrade_covers validAfter ran
    | true =>
      simp only [Api.setAllowExternalSharing, if_true, pure_ok, Prod.mk.injEq] at ran
      obtain ⟨rfl, rfl⟩ := ran
      refine ⟨fun row mem _ => mem, fun host route last => ?_, fun host _ _ => ?_⟩
      · cases last
      · exact shown_congr rfl fun _ _ => rfl
  | getDomainStatus id verify tls =>
    simp only [Request.transact, bind_ok, pure_ok, Prod.mk.injEq] at ran
    obtain ⟨⟨_, res⟩, ran, rfl, rfl⟩ := ran
    by_cases done : verify = .verified ∧ tls = .issued
    · obtain ⟨rfl, rfl⟩ := done
      exact verified_covers undisturbing ran
    · obtain ⟨rfl, projected⟩ := updateDomainStatus_pending done ran
      rw [projected]
      refine ⟨fun row mem _ => mem, fun host route last => ?_, fun host _ _ => ?_⟩
      · cases last
      · exact shown_congr rfl fun _ _ => rfl
  | deleteDomain id =>
    simp only [Request.transact, bind_ok, pure_ok, Prod.mk.injEq] at ran
    obtain ⟨⟨_, res⟩, ran, rfl, rfl⟩ := ran
    exact deleteDomain_covers ran
  | deleteSite id =>
    simp only [Request.transact, bind_ok, pure_ok, Prod.mk.injEq] at ran
    obtain ⟨⟨_, hosts⟩, ran, rfl, rfl⟩ := ran
    exact deleteSite_covers valid ran
  | createPreview siteId versionId ttl =>
    simp only [Request.transact, bind_ok, pure_ok, Prod.mk.injEq] at ran
    obtain ⟨⟨_, res⟩, ran, rfl, rfl⟩ := ran
    exact createPreview_covers ran
  | deletePreview siteId versionId =>
    simp only [Request.transact, bind_ok, pure_ok, Prod.mk.injEq] at ran
    obtain ⟨⟨_, hosts⟩, ran, rfl, rfl⟩ := ran
    exact deletePreview_covers ran
  | refreshChat siteId =>
    simp only [Request.transact, bind_ok, pure_ok, Prod.mk.injEq] at ran
    obtain ⟨routes, ran, rfl, rfl⟩ := ran
    obtain ⟨site, owner, listed⟩ := siteChatRoutes_ok ran
    refine refresh_covers fun update mem => ?_
    obtain ⟨row, versionId, found, owned, kind, live, projected⟩ := listed update mem
    obtain ⟨-, rfl, org⟩ := getSite_eq_some.mp owner
    rw [served_of_site found (by rw [owned]; exact owner), routeOf, if_neg kind, live, Option.map_some,
      liveRoute_eq db org, projected]
  | reprojectOrgRoutes =>
    cases ran
    have entries : ((db.collectRoutesForOrg now t.orgId).entries.map fun entry =>
        EdgeWrite.putRoute entry.1 entry.2) =
          putRoutes ((db.collectRoutesForOrg now t.orgId).entries.map fun entry =>
            ⟨entry.1, entry.2⟩) := by
      rw [putRoutes, List.map_map]
      rfl
    rw [entries]
    refine refresh_covers fun update mem => ?_
    obtain ⟨entry, entryMem, rfl⟩ := List.mem_map.mp mem
    rw [← lookup_collectRoutesForOrg]
    exact AList.mem_lookup_iff.mpr entryMem

end Dropway.Api
