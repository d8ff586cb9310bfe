import Dropway.Proofs.Served

/-! What the statements of a transaction change of what a host is served from. -/

namespace Dropway.Api
open Lib Lib.Outcome Database
open Edge (AccessMode)

variable {db changed : Database} {orgId host siteId : Text} {row : HostRoute} {site : Site}
  {now later : Instant}

/-! Sites and their policies. -/

theorem setSiteAccessMode_ok {id : Text} {mode : AccessMode}
    (ran : db.setSiteAccessMode id mode orgId = .ok changed) :
    changed = db.withAccessMode id mode orgId := by
  unfold setSiteAccessMode at ran
  split at ran
  · cases ran
  · cases ran
    rfl

theorem getSite_withAccessMode (db : Database) (id : Text) (mode : AccessMode) (orgId siteId : Text) :
    (db.withAccessMode id mode orgId).getSite siteId orgId =
      (db.getSite siteId orgId).map fun site =>
        if siteId = id then { site with accessMode := mode } else site := by
  simp only [getSite, withAccessMode, Table.get?_update]
  cases found : db.sites.get? siteId with
  | none => rfl
  | some site =>
    have keyed := Table.get?_key found
    by_cases org : site.orgId = orgId <;> by_cases same : siteId = id <;>
      simp [keyed, org, same, Option.filter_some]

theorem getSite_setCurrentVersion (db : Database) (id versionId orgId siteId : Text) :
    (db.setCurrentVersion id versionId orgId).getSite siteId orgId =
      (db.getSite siteId orgId).map fun site =>
        if siteId = id then { site with currentVersionId := some versionId } else site := by
  simp only [getSite, setCurrentVersion, Table.get?_update]
  cases found : db.sites.get? siteId with
  | none => rfl
  | some site =>
    have keyed := Table.get?_key found
    by_cases org : site.orgId = orgId <;> by_cases same : siteId = id <;>
      simp [keyed, org, same, Option.filter_some]

theorem upsertSiteAccessPolicy_ok {policy : AccessPolicy}
    (ran : db.upsertSiteAccessPolicy policy = .ok changed) : changed = db.withPolicy policy := by
  unfold upsertSiteAccessPolicy at ran
  split at ran
  · cases ran
  · split at ran
    · cases ran
    · cases ran
      rfl

theorem getSiteAccessPolicy_withPolicy (db : Database) (policy : AccessPolicy) (siteId : Text) :
    (db.withPolicy policy).getSiteAccessPolicy siteId policy.orgId =
      if policy.siteId = siteId then some policy else db.getSiteAccessPolicy siteId policy.orgId := by
  simp only [getSiteAccessPolicy, withPolicy, Table.get?_upsert]
  by_cases same : policy.siteId = siteId
  · rw [if_pos same, if_pos same]
    cases found : db.policies.get? siteId with
    | none => simp
    | some old =>
      have keyed := Table.get?_key found
      simp [keyed, ← same]
  · rw [if_neg same, if_neg same]

theorem siteExpiry_withPolicy (db : Database) (policy : AccessPolicy) (mode : AccessMode) :
    (db.withPolicy policy).siteExpiry policy.siteId policy.orgId mode = routeExpiry mode policy := by
  rw [siteExpiry, getSiteAccessPolicy_withPolicy, if_pos rfl]

theorem siteExpiry_withPolicy_ne (db : Database) (policy : AccessPolicy) (mode : AccessMode)
    (other : policy.siteId ≠ siteId) :
    (db.withPolicy policy).siteExpiry siteId policy.orgId mode =
      db.siteExpiry siteId policy.orgId mode := by
  rw [siteExpiry, getSiteAccessPolicy_withPolicy, if_neg other, siteExpiry]

/-- Only public sites have an expiry. -/
theorem siteExpiry_gated (db : Database) {mode : AccessMode} (gated : mode ≠ .public) :
    db.siteExpiry siteId orgId mode = [] := by
  unfold siteExpiry
  split
  · rw [routeExpiry, if_pos gated]
  · rfl

/-! What host rows refer to. -/

/-- Sites keep their org, and versions stay with their site. -/
structure KeepsParents (before after : Database) : Prop where
  sites : ∀ site ∈ after.sites.rows, ∃ old ∈ before.sites.rows, old.id = site.id ∧ old.orgId = site.orgId
  versions : ∀ version ∈ before.siteVersions.rows,
    ∃ kept ∈ after.siteVersions.rows, kept.id = version.id ∧ kept.siteId = version.siteId

theorem KeepsParents.of_eq {before after : Database} (sites : after.sites = before.sites)
    (versions : after.siteVersions = before.siteVersions) : KeepsParents before after :=
  ⟨fun site mem => ⟨site, sites ▸ mem, rfl, rfl⟩,
    fun version mem => ⟨version, versions ▸ mem, rfl, rfl⟩⟩

theorem KeepsParents.trans {middle : Database} (first : KeepsParents db middle)
    (second : KeepsParents middle changed) : KeepsParents db changed := by
  refine ⟨fun site mem => ?_, fun version mem => ?_⟩
  · obtain ⟨between, betweenMem, id, org⟩ := second.sites site mem
    obtain ⟨old, oldMem, oldId, oldOrg⟩ := first.sites between betweenMem
    exact ⟨old, oldMem, oldId.trans id, oldOrg.trans org⟩
  · obtain ⟨between, betweenMem, id, owner⟩ := first.versions version mem
    obtain ⟨kept, keptMem, keptId, keptOwner⟩ := second.versions between betweenMem
    exact ⟨kept, keptMem, keptId.trans id, keptOwner.trans owner⟩

theorem keepsParents_withAccessMode (db : Database) (id : Text) (mode : AccessMode) (orgId : Text) :
    KeepsParents db (db.withAccessMode id mode orgId) := by
  refine ⟨fun site mem => ?_, (KeepsParents.of_eq rfl rfl).versions⟩
  obtain ⟨old, oldMem, rfl⟩ := List.mem_map.mp mem
  refine ⟨old, oldMem, ?_⟩
  split <;> exact ⟨rfl, rfl⟩

theorem keepsParents_setCurrentVersion (db : Database) (id versionId orgId : Text) :
    KeepsParents db (db.setCurrentVersion id versionId orgId) := by
  refine ⟨fun site mem => ?_, (KeepsParents.of_eq rfl rfl).versions⟩
  obtain ⟨old, oldMem, rfl⟩ := List.mem_map.mp mem
  refine ⟨old, oldMem, ?_⟩
  split <;> exact ⟨rfl, rfl⟩

theorem keepsParents_setVersionPreviewExpiry (db : Database) (id : Text)
    (expiresAt : Option Timestamptz) (orgId : Text) :
    KeepsParents db (db.setVersionPreviewExpiry id expiresAt orgId) := by
  refine ⟨(KeepsParents.of_eq rfl rfl).sites, fun version mem => ?_⟩
  refine ⟨_, List.mem_map.mpr ⟨version, mem, rfl⟩, ?_⟩
  split <;> exact ⟨rfl, rfl⟩

/-! Host rows. -/

theorem upsertHostRoute_ok (ran : db.upsertHostRoute host orgId siteId = .ok changed) :
    changed = db.withCustomHost host orgId siteId ∧
      ∀ row, db.hostRoutes.get? host = some row → row.orgId = orgId := by
  unfold upsertHostRoute at ran
  split at ran
  · cases ran
  · rename_i owned
    cases ran
    refine ⟨rfl, fun row found => ?_⟩
    simpa [found] using owned

theorem getHostRoute_withCustomHost (db : Database) (siteId : Text)
    (owned : ∀ row, db.hostRoutes.get? host = some row → row.orgId = orgId) :
    ∃ row, (db.withCustomHost host orgId siteId).getHostRoute host orgId = some row ∧
      row.host = host ∧ row.siteId = siteId ∧ row.kind = .custom := by
  simp only [getHostRoute, withCustomHost, Table.get?_upsert, if_pos]
  cases found : db.hostRoutes.get? host with
  | none => exact ⟨_, Option.filter_eq_some_iff.mpr ⟨rfl, by simp⟩, rfl, rfl, rfl⟩
  | some row =>
    have keyed : row.host = host := Table.get?_key found
    exact ⟨_, Option.filter_eq_some_iff.mpr ⟨rfl, by simp [owned row found]⟩, keyed, rfl, rfl⟩

theorem getHostRoute_withCustomHost_ne (db : Database) (orgId siteId : Text) {other : Text} (apart : host ≠ other) :
    (db.withCustomHost host orgId siteId).getHostRoute other orgId = db.getHostRoute other orgId := by
  simp only [getHostRoute, withCustomHost, Table.get?_upsert, if_neg apart]

theorem upsertPreviewRoute_ok {versionId : Text} {stamp : Timestamptz}
    (ran : db.upsertPreviewRoute host orgId siteId versionId stamp = .ok changed) :
    changed = db.withPreviewHost host orgId siteId versionId stamp := by
  unfold upsertPreviewRoute at ran
  split at ran
  · cases ran
  · cases ran
    rfl

/-- A host that is a preview of the site afterwards has been renewed. -/
theorem getHostRoute_withPreviewHost {versionId : Text} {stamp : Timestamptz}
    (found : (db.withPreviewHost host orgId siteId versionId stamp).getHostRoute host orgId = some row)
    (owned : row.siteId = siteId) (kind : row.kind = .preview) :
    row.versionId = some versionId ∧ row.expiresAt = some stamp := by
  simp only [getHostRoute, withPreviewHost, Table.get?_upsert, if_pos] at found
  cases old : db.hostRoutes.get? host with
  | none =>
    rw [old, Option.elim_none, Option.filter_eq_some_iff] at found
    cases found.1
    exact ⟨rfl, rfl⟩
  | some before =>
    rw [old, Option.elim_some, Option.filter_eq_some_iff] at found
    obtain rfl := Option.some.inj found.1
    unfold renewPreview at owned kind ⊢
    split
    · exact ⟨rfl, rfl⟩
    · rename_i kept
      rw [if_neg kept] at owned kind
      exact absurd ⟨owned, kind⟩ kept

theorem getHostRoute_withPreviewHost_ne (db : Database) (orgId siteId versionId : Text)
    (stamp : Timestamptz) {other : Text} (apart : host ≠ other) :
    (db.withPreviewHost host orgId siteId versionId stamp).getHostRoute other orgId =
      db.getHostRoute other orgId := by
  simp only [getHostRoute, withPreviewHost, Table.get?_upsert, if_neg apart]

theorem getHostRoute_deleteWhere (db : Database) (p : HostRoute → Bool) (host orgId : Text) :
    ({ db with hostRoutes := db.hostRoutes.delete p } : Database).getHostRoute host orgId =
      (db.getHostRoute host orgId).filter fun row => !p row := by
  simp only [getHostRoute, Table.get?_delete, Option.filter_filter, Bool.and_comm]

/-! The route of a host, once its row and its site are known. -/

theorem served_of_row (found : db.getHostRoute host orgId = some row) :
    db.served now orgId host = (db.getSite row.siteId orgId).bind (db.routeOf now orgId row) := by
  rw [served, found, Option.bind_some]

theorem served_of_site (found : db.getHostRoute host orgId = some row)
    (owner : db.getSite row.siteId orgId = some site) :
    db.served now orgId host = db.routeOf now orgId row site := by
  rw [served_of_row found, owner, Option.bind_some]

theorem served_none (missing : db.getHostRoute host orgId = none) :
    db.served now orgId host = none := by
  rw [served, missing, Option.bind_none]

/-- The reads a route is made of. -/
structure SameReads (orgId siteId : Text) (mode : AccessMode) (before after : Database) : Prop where
  tier : after.getPlanTier orgId = before.getPlanTier orgId
  chat : after.chatIdForSite orgId siteId = before.chatIdForSite orgId siteId
  expiry : after.siteExpiry siteId orgId mode = before.siteExpiry siteId orgId mode

theorem routeOf_congr (owner : row.siteId = site.id)
    (same : SameReads orgId site.id site.accessMode db changed) :
    changed.routeOf now orgId row site = db.routeOf now orgId row site := by
  have preview : changed.previewEntry orgId row site = db.previewEntry orgId row site := by
    unfold previewEntry previewRoute
    rw [owner, same.tier, same.expiry]
  have live : changed.liveRoute orgId site = db.liveRoute orgId site := by
    funext versionId
    unfold liveRoute
    rw [same.tier, same.expiry, same.chat]
  unfold routeOf
  rw [preview, live]

theorem routeOf_cases {value : RouteValue} (made : db.routeOf now orgId row site = some value) :
    (row.kind = .preview ∧ ∃ versionId deadline, row.versionId = some versionId ∧
        row.expiresAt = some deadline ∧ livePreview now orgId row = true ∧
        value = db.previewRoute orgId row site versionId deadline.time) ∨
      (row.kind ≠ .preview ∧ ∃ versionId, site.currentVersionId = some versionId ∧
        value = db.liveRoute orgId site versionId) := by
  unfold routeOf at made
  by_cases kind : row.kind = .preview
  · rw [if_pos kind] at made
    by_cases live : livePreview now orgId row = true
    · rw [if_pos live] at made
      obtain ⟨entry, entryMade, rfl⟩ := Option.map_eq_some_iff.mp made
      unfold previewEntry at entryMade
      split at entryMade
      · rename_i versionId deadline pinned dated
        cases entryMade
        exact .inl ⟨kind, versionId, deadline, pinned, dated, live, rfl⟩
      · cases entryMade
    · rw [if_neg live] at made
      cases made
  · rw [if_neg kind] at made
    obtain ⟨versionId, current, rfl⟩ := Option.map_eq_some_iff.mp made
    exact .inr ⟨kind, versionId, current, rfl⟩

/-- Whether a host has a route depends on its row and on the site being live. -/
theorem routeOf_isSome (db : Database) (now : Instant) (orgId : Text) (row : HostRoute) (site : Site) :
    (db.routeOf now orgId row site).isSome =
      if row.kind = .preview then livePreview now orgId row else site.currentVersionId.isSome := by
  unfold routeOf
  by_cases kind : row.kind = .preview
  · rw [if_pos kind, if_pos kind]
    cases live : livePreview now orgId row with
    | false => rfl
    | true =>
      simp only [livePreview, Bool.and_eq_true, Option.any_eq_true_iff_get] at live
      obtain ⟨⟨-, version⟩, deadline, -⟩ := live
      obtain ⟨versionId, pinned⟩ := Option.isSome_iff_exists.mp version
      obtain ⟨expires, dated⟩ := Option.isSome_iff_exists.mp deadline
      simp [previewEntry, pinned, dated]
  · rw [if_neg kind, if_neg kind, Option.isSome_map]

end Dropway.Api
