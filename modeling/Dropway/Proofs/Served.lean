import Dropway.Api.Handlers

/-! The route the database gives one host, and that a rebuild collects exactly
these. -/

namespace Dropway.Api
open Lib
open Edge (AccessMode)

namespace Database

variable (db : Database)

def routeOf (now : Instant) (orgId : Text) (row : HostRoute) (site : Site) : Option RouteValue :=
  if row.kind = .preview then
    if livePreview now orgId row then (db.previewEntry orgId row site).map Prod.snd else none
  else site.currentVersionId.map (db.liveRoute orgId site)

def served (now : Instant) (orgId host : Text) : Option RouteValue :=
  (db.getHostRoute host orgId).bind fun row =>
    (db.getSite row.siteId orgId).bind (db.routeOf now orgId row)

end Database

variable {db : Database} {orgId host siteId : Text} {row : HostRoute} {site : Site}
  {value : RouteValue} {now : Instant}

theorem getSite_eq_some :
    db.getSite siteId orgId = some site ↔ site ∈ db.sites.rows ∧ site.id = siteId ∧ site.orgId = orgId := by
  simp [Database.getSite, Table.get?_eq_some, and_assoc]

theorem getHostRoute_eq_some :
    db.getHostRoute host orgId = some row ↔
      row ∈ db.hostRoutes.rows ∧ row.host = host ∧ row.orgId = orgId := by
  simp [Database.getHostRoute, Table.get?_eq_some, and_assoc]

theorem mem_listHostRoutesForSite :
    row ∈ db.listHostRoutesForSite siteId orgId ↔
      db.getHostRoute row.host orgId = some row ∧ row.siteId = siteId := by
  rw [getHostRoute_eq_some]
  simp only [Database.listHostRoutesForSite, Table.mem_filter, decide_eq_true_eq]
  tauto

theorem mem_liveHosts :
    row ∈ db.liveHosts siteId orgId ↔
      db.getHostRoute row.host orgId = some row ∧ row.siteId = siteId ∧ row.kind ≠ .preview := by
  simp [Database.liveHosts, mem_listHostRoutesForSite, and_assoc]

theorem served_eq_some :
    db.served now orgId host = some value ↔
      ∃ row site, db.getHostRoute host orgId = some row ∧ db.getSite row.siteId orgId = some site ∧
        db.routeOf now orgId row site = some value := by
  simp only [Database.served, Option.bind_eq_some_iff, exists_and_left]

private theorem mem_live :
    (host, value) ∈ (db.listPublishedSitesForRebuild orgId).flatMap (db.liveEntries orgId) ↔
      ∃ row site, db.getHostRoute host orgId = some row ∧ db.getSite row.siteId orgId = some site ∧
        row.kind ≠ .preview ∧ site.currentVersionId.map (db.liveRoute orgId site) = some value := by
  constructor
  · intro mem
    obtain ⟨site, published, entry⟩ := List.mem_flatMap.mp mem
    simp only [Database.listPublishedSitesForRebuild, Table.mem_filter, decide_eq_true_eq] at published
    cases live : site.currentVersionId with
    | none => simp [Database.liveEntries, live] at entry
    | some versionId =>
      simp only [Database.liveEntries, live, List.mem_map, Prod.mk.injEq] at entry
      obtain ⟨row, rowMem, rfl, rfl⟩ := entry
      obtain ⟨found, owned, kind⟩ := mem_liveHosts.mp rowMem
      exact ⟨row, site, found, getSite_eq_some.mpr ⟨published.1, owned.symm, published.2.2⟩, kind,
        by rw [live, Option.map_some]⟩
  · rintro ⟨row, site, found, owner, kind, route⟩
    obtain ⟨versionId, live, rfl⟩ := Option.map_eq_some_iff.mp route
    obtain ⟨siteMem, owned, org⟩ := getSite_eq_some.mp owner
    have hostEq := (getHostRoute_eq_some.mp found).2.1
    refine List.mem_flatMap.mpr ⟨site, ?_, ?_⟩
    · simp [Database.listPublishedSitesForRebuild, Table.mem_filter, siteMem, live, org]
    · simp only [Database.liveEntries, live, List.mem_map]
      exact ⟨row, mem_liveHosts.mpr ⟨hostEq ▸ found, owned.symm, kind⟩, by rw [hostEq]⟩

private theorem mem_preview :
    (host, value) ∈ (db.listPreviewRoutesForRebuild now orgId).filterMap
        (fun entry => db.previewEntry orgId entry.1 entry.2) ↔
      ∃ row site, db.getHostRoute host orgId = some row ∧ db.getSite row.siteId orgId = some site ∧
        Database.livePreview now orgId row = true ∧
          (db.previewEntry orgId row site).map Prod.snd = some value := by
  have entryHost : ∀ {row site} {entry : Text × RouteValue},
      db.previewEntry orgId row site = some entry → entry.1 = row.host := by
    intro row site entry made
    unfold Database.previewEntry at made
    split at made
    · cases made
      rfl
    · cases made
  constructor
  · intro mem
    obtain ⟨⟨_, _⟩, listed, entry⟩ := List.mem_filterMap.mp mem
    simp only [Database.listPreviewRoutesForRebuild, List.mem_filterMap, Table.mem_filter,
      Option.map_eq_some_iff, Prod.mk.injEq] at listed
    obtain ⟨row, ⟨rowMem, live⟩, site, owner, rfl, rfl⟩ := listed
    have org : row.orgId = orgId := by
      simp only [Database.livePreview, Bool.and_eq_true, decide_eq_true_eq] at live
      exact live.1.1.2
    exact ⟨row, site, getHostRoute_eq_some.mpr ⟨rowMem, (entryHost entry).symm, org⟩, owner, live,
      by rw [entry, Option.map_some]⟩
  · rintro ⟨row, site, found, owner, live, route⟩
    obtain ⟨⟨entry, _⟩, made, rfl⟩ := Option.map_eq_some_iff.mp route
    obtain ⟨rowMem, rfl, -⟩ := getHostRoute_eq_some.mp found
    refine List.mem_filterMap.mpr ⟨(row, site), ?_, ?_⟩
    · simp only [Database.listPreviewRoutesForRebuild, List.mem_filterMap, Table.mem_filter,
        Option.map_eq_some_iff]
      exact ⟨row, ⟨rowMem, live⟩, site, owner, rfl⟩
    · have hostEq := entryHost made
      simp only at hostEq
      rw [made, hostEq]

theorem mem_rebuildEntries :
    (host, value) ∈ db.rebuildEntries now orgId ↔ db.served now orgId host = some value := by
  rw [served_eq_some, Database.rebuildEntries, List.mem_append, mem_live, mem_preview]
  constructor
  · rintro (⟨row, site, found, owner, kind, route⟩ | ⟨row, site, found, owner, live, route⟩)
    · exact ⟨row, site, found, owner, by rw [Database.routeOf, if_neg kind, route]⟩
    · have kind : row.kind = .preview := by
        simp only [Database.livePreview, Bool.and_eq_true, decide_eq_true_eq] at live
        exact live.1.1.1
      exact ⟨row, site, found, owner, by rw [Database.routeOf, if_pos kind, if_pos live, route]⟩
  · rintro ⟨row, site, found, owner, route⟩
    by_cases kind : row.kind = .preview
    · by_cases live : Database.livePreview now orgId row = true
      · rw [Database.routeOf, if_pos kind, if_pos live] at route
        exact .inr ⟨row, site, found, owner, live, route⟩
      · rw [Database.routeOf, if_pos kind, if_neg live] at route
        cases route
    · rw [Database.routeOf, if_neg kind] at route
      exact .inl ⟨row, site, found, owner, kind, route⟩

/-- A rebuild collects the route of every host that is served, and nothing else. -/
theorem lookup_collectRoutesForOrg (db : Database) (now : Instant) (orgId host : Text) :
    (db.collectRoutesForOrg now orgId).lookup host = db.served now orgId host := by
  cases found : (db.collectRoutesForOrg now orgId).lookup host with
  | some value => exact (mem_rebuildEntries.mp (mem_of_lookup_ofEntries found)).symm
  | none =>
    cases route : db.served now orgId host with
    | none => rfl
    | some value =>
      obtain ⟨last, present, -⟩ := exists_lookup_ofEntries (mem_rebuildEntries.mpr route)
      rw [Database.collectRoutesForOrg] at found
      rw [found] at present
      cases present

end Dropway.Api
