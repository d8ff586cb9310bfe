import Dropway.Proofs.Transactions

/-! The invariant of the host registry, and that every request keeps it. -/

namespace Dropway.Api
open Lib Lib.Outcome Database
open Edge (AccessMode)

variable {config : Config} {t : Tenant} {db changed : Database} {writes : List EdgeWrite}
  {row : HostRoute} {now : Instant}

/-- A host belongs to its site's org, a preview pins a version until a deadline, and a
pinned version is one of the site's. -/
structure RowValid (db : Database) (row : HostRoute) : Prop where
  owner : ∀ site ∈ db.sites.rows, site.id = row.siteId → site.orgId = row.orgId
  pinned : row.kind = .preview → row.versionId.isSome ∧ row.expiresAt.isSome
  version : ∀ versionId, row.versionId = some versionId →
    ∃ version ∈ db.siteVersions.rows, version.id = versionId ∧ version.siteId = row.siteId

def RowsValid (db : Database) : Prop := ∀ row ∈ db.hostRoutes.rows, RowValid db row

/-- A domain is not registered over a host that another site or a preview has. -/
def Request.Undisturbing (t : Tenant) (db : Database) : Request → Prop
  | .getDomainStatus id verify tls => verify = .verified → tls = .issued →
    ∀ domain, db.getDomain id t.orgId = some domain → ∀ row,
      db.hostRoutes.get? domain.hostname = some row →
        row.siteId = domain.siteId ∧ row.kind ≠ .preview
  | _ => True

theorem RowValid.mono (valid : RowValid db row) (parents : KeepsParents db changed) :
    RowValid changed row := by
  refine ⟨fun site mem same => ?_, valid.pinned, fun versionId pin => ?_⟩
  · obtain ⟨old, oldMem, id, org⟩ := parents.sites site mem
    exact org.symm.trans (valid.owner old oldMem (id.trans same))
  · obtain ⟨version, mem, id, owner⟩ := valid.version versionId pin
    obtain ⟨kept, keptMem, keptId, keptOwner⟩ := parents.versions version mem
    exact ⟨kept, keptMem, keptId.trans id, keptOwner.trans owner⟩

private theorem RowsValid.keep (valid : RowsValid db) (parents : KeepsParents db changed)
    (rows : ∀ row ∈ changed.hostRoutes.rows, row ∈ db.hostRoutes.rows) : RowsValid changed :=
  fun row mem => (valid row (rows row mem)).mono parents

private theorem published_valid {siteId versionId : Text} (valid : RowsValid db) :
    RowsValid (published db t siteId versionId) := by
  have parents : KeepsParents db (published db t siteId versionId) :=
    (keepsParents_setVersionPreviewExpiry db versionId none t.orgId).trans
      ⟨(keepsParents_setCurrentVersion db siteId versionId t.orgId).sites,
        (KeepsParents.of_eq rfl rfl).versions⟩
  exact valid.keep parents fun row mem => (Table.mem_delete.mp mem).1

private theorem verified_valid {id : Text} {verify : VerifyStatus} {tls : TLSStatus} {domain : Domain}
    {site : Site} (valid : RowsValid db) (owner : db.getSite domain.siteId t.orgId = some site)
    (owned : ∀ row, db.hostRoutes.get? domain.hostname = some row →
      row.orgId = t.orgId ∧ row.siteId = domain.siteId) :
    RowsValid ((db.updateDomainStatus id verify tls t.orgId).withCustomHost domain.hostname t.orgId
      domain.siteId) := by
  obtain ⟨siteMem, siteEq, org⟩ := getSite_eq_some.mp owner
  have parents : KeepsParents db ((db.updateDomainStatus id verify tls t.orgId).withCustomHost
      domain.hostname t.orgId domain.siteId) := .of_eq rfl rfl
  have ownSite : ∀ other ∈ db.sites.rows, other.id = domain.siteId → other.orgId = t.orgId :=
    fun other otherMem same => by
      rw [db.sites.eq_of_key otherMem siteMem (same.trans siteEq.symm), org]
  intro row mem
  refine RowValid.mono ?_ parents
  rcases Table.mem_upsert mem with kept | rfl | ⟨before, found, rfl⟩
  · exact valid row kept
  · exact ⟨ownSite, by simp, by simp⟩
  · obtain ⟨beforeOrg, beforeSite⟩ := owned before found
    have beforeValid := valid before (Table.get?_eq_some.mp found).1
    refine ⟨fun other otherMem same => ?_, by simp, fun versionId pin => ?_⟩
    · exact (ownSite other otherMem same).trans beforeOrg.symm
    · rw [← beforeSite]
      exact beforeValid.version versionId pin

private theorem preview_valid {host siteId versionId : Text} {stamp : Timestamptz} {site : Site}
    {version : SiteVersion} (valid : RowsValid db) (owner : db.getSite siteId t.orgId = some site)
    (found : db.getSiteVersion versionId t.orgId = some version) (own : version.siteId = siteId) :
    RowsValid ((db.withPreviewHost host t.orgId siteId versionId stamp).setVersionPreviewExpiry versionId
      (some stamp) t.orgId) := by
  obtain ⟨siteMem, siteEq, org⟩ := getSite_eq_some.mp owner
  have listed : version ∈ db.siteVersions.rows ∧ version.id = versionId := by
    simp only [getSiteVersion, Option.filter_eq_some_iff] at found
    exact Table.get?_eq_some.mp found.1
  have pin : ∃ version ∈ db.siteVersions.rows, version.id = versionId ∧ version.siteId = siteId :=
    ⟨version, listed.1, listed.2, own⟩
  have parents : KeepsParents db ((db.withPreviewHost host t.orgId siteId versionId
      stamp).setVersionPreviewExpiry versionId (some stamp) t.orgId) :=
    ⟨(KeepsParents.of_eq rfl rfl).sites,
      (keepsParents_setVersionPreviewExpiry db versionId (some stamp) t.orgId).versions⟩
  intro row mem
  refine RowValid.mono ?_ parents
  rcases Table.mem_upsert mem with kept | rfl | ⟨before, before_found, rfl⟩
  · exact valid row kept
  · refine ⟨fun other otherMem same => ?_, fun _ => ⟨rfl, rfl⟩, fun versionId' same => ?_⟩
    · rw [db.sites.eq_of_key otherMem siteMem (same.trans siteEq.symm), org]
    · cases same
      exact pin
  · have beforeValid := valid before (Table.get?_eq_some.mp before_found).1
    rw [renewPreview]
    split
    · rename_i renewed
      refine ⟨beforeValid.owner, fun _ => ⟨rfl, rfl⟩, fun versionId' same => ?_⟩
      cases same
      obtain ⟨version, mem, id, own⟩ := pin
      exact ⟨version, mem, id, own.trans renewed.1.symm⟩
    · exact beforeValid

/-- No other site's host goes with a site. -/
theorem deleteSite_rows (valid : RowsValid db) (id : Text) (row : HostRoute) :
    row ∈ (db.deleteSite id).hostRoutes.rows ↔ row ∈ db.hostRoutes.rows ∧ row.siteId ≠ id := by
  simp only [Database.deleteSite, Table.mem_delete, Bool.or_eq_false_iff, decide_eq_false_iff_not]
  constructor
  · rintro ⟨mem, other, -⟩
    exact ⟨mem, other⟩
  · rintro ⟨mem, other⟩
    refine ⟨mem, other, ?_⟩
    cases pin : row.versionId with
    | none => simp [pinsVersionOf, pin]
    | some versionId =>
      obtain ⟨version, versionMem, rfl, owner⟩ := (valid row mem).version versionId pin
      have found := Table.mem_iff_get?.mp versionMem
      simp [pinsVersionOf, pin, found, owner, other]

private theorem deleteSite_valid (valid : RowsValid db) (id : Text) : RowsValid (db.deleteSite id) := by
  intro row mem
  obtain ⟨old, other⟩ := (deleteSite_rows valid id row).mp mem
  obtain ⟨owner, pinned, version⟩ := valid row old
  refine ⟨fun site siteMem => owner site (Table.mem_delete.mp siteMem).1, pinned, fun versionId pin => ?_⟩
  obtain ⟨found, foundMem, same, own⟩ := version versionId pin
  exact ⟨found, Table.mem_delete.mpr ⟨foundMem, by simp [own, other]⟩, same, own⟩

/-- Every request keeps the registry valid. -/
theorem transact_valid {request : Request} (valid : RowsValid db)
    (undisturbing : request.Undisturbing t db)
    (ran : request.transact config t now db = .ok (changed, writes)) : RowsValid changed := by
  cases request with
  | publish siteId versionId =>
    simp only [Request.transact, bind_ok, pure_ok, Prod.mk.injEq] at ran
    obtain ⟨⟨_, res⟩, ran, rfl, rfl⟩ := ran
    obtain ⟨_, _, -, -, -, rfl, -⟩ := publish_ok ran
    exact published_valid valid
  | setSiteAccess p =>
    simp only [Request.transact, bind_ok, pure_ok, Prod.mk.injEq] at ran
    obtain ⟨⟨_, res⟩, ran, rfl, rfl⟩ := ran
    obtain ⟨mode, _, -, -, rfl, -⟩ := setSiteAccess_ok ran
    have parents : KeepsParents db (accessChanged db t p mode) :=
      (keepsParents_withAccessMode db p.siteId mode t.orgId).trans (.of_eq rfl rfl)
    exact valid.keep parents fun _ mem => mem
  | setAllowExternalSharing enabled =>
    simp only [Request.transact, bind_ok, pure_ok, Prod.mk.injEq] at ran
    obtain ⟨⟨_, res⟩, ran, rfl, rfl⟩ := ran
    cases enabled with
    | false =>
      obtain ⟨effect, -⟩ := setAllowExternalSharing_ok ran
      exact valid.keep effect.parents fun _ mem => effect.hosts ▸ mem
    | true =>
      simp only [Api.setAllowExternalSharing, if_true, pure_ok, Prod.mk.injEq] at ran
      obtain ⟨rfl, -⟩ := ran
      exact valid.keep (.of_eq rfl rfl) fun _ mem => mem
  | getDomainStatus id verify tls =>
    simp only [Request.transact, bind_ok, pure_ok, Prod.mk.injEq] at ran
    obtain ⟨⟨_, res⟩, ran, rfl, rfl⟩ := ran
    by_cases done : verify = .verified ∧ tls = .issued
    · obtain ⟨rfl, rfl⟩ := done
      obtain ⟨domain, site, found, owner, owned, rfl, -⟩ := updateDomainStatus_ok ran
      exact verified_valid valid owner fun row old =>
        ⟨owned row old, (undisturbing rfl rfl domain found row old).1⟩
    · obtain ⟨rfl, -⟩ := updateDomainStatus_pending done ran
      exact valid.keep (.of_eq rfl rfl) fun _ mem => mem
  | deleteDomain id =>
    simp only [Request.transact, bind_ok, pure_ok, Prod.mk.injEq] at ran
    obtain ⟨⟨_, res⟩, ran, rfl, -⟩ := ran
    obtain rfl := deleteDomain_ok ran
    exact valid.keep (.of_eq rfl rfl) fun _ mem => (Table.mem_delete.mp mem).1
  | deleteSite id =>
    simp only [Request.transact, bind_ok, pure_ok, Prod.mk.injEq] at ran
    obtain ⟨⟨_, hosts⟩, ran, rfl, -⟩ := ran
    obtain ⟨_, -, rfl, -⟩ := deleteSite_ok ran
    exact deleteSite_valid valid id
  | createPreview siteId versionId ttl =>
    simp only [Request.transact, bind_ok, pure_ok, Prod.mk.injEq] at ran
    obtain ⟨⟨_, res⟩, ran, rfl, -⟩ := ran
    obtain ⟨site, version, _, owner, found, own, rfl, -⟩ := createPreviewRoute_ok ran
    exact preview_valid valid owner found own
  | deletePreview siteId versionId =>
    simp only [Request.transact, bind_ok, pure_ok, Prod.mk.injEq] at ran
    obtain ⟨⟨_, hosts⟩, ran, rfl, -⟩ := ran
    obtain ⟨rfl, -⟩ := deletePreviewRoutes_ok ran
    have parents : KeepsParents db
        ((db.deletePreviewRoutesForVersion versionId t.orgId).1.setVersionPreviewExpiry versionId none
          t.orgId) :=
      ⟨(KeepsParents.of_eq rfl rfl).sites,
        (keepsParents_setVersionPreviewExpiry db versionId none t.orgId).versions⟩
    exact valid.keep parents fun _ mem => (Table.mem_delete.mp mem).1
  | refreshChat siteId =>
    simp only [Request.transact, bind_ok, pure_ok, Prod.mk.injEq] at ran
    obtain ⟨routes, -, rfl, -⟩ := ran
    exact valid
  | reprojectOrgRoutes =>
    cases ran
    exact valid

/-- No request adds or drops an org. -/
theorem transact_orgs {request : Request}
    (ran : request.transact config t now db = .ok (changed, writes)) :
    changed.listAllOrgIDs = db.listAllOrgIDs := by
  cases request with
  | publish siteId versionId =>
    simp only [Request.transact, bind_ok, pure_ok, Prod.mk.injEq] at ran
    obtain ⟨⟨_, res⟩, ran, rfl, -⟩ := ran
    obtain ⟨_, _, -, -, -, rfl, -⟩ := publish_ok ran
    rfl
  | setSiteAccess p =>
    simp only [Request.transact, bind_ok, pure_ok, Prod.mk.injEq] at ran
    obtain ⟨⟨_, res⟩, ran, rfl, -⟩ := ran
    obtain ⟨_, _, -, -, rfl, -⟩ := setSiteAccess_ok ran
    rfl
  | setAllowExternalSharing enabled =>
    simp only [Request.transact, bind_ok, pure_ok, Prod.mk.injEq] at ran
    obtain ⟨⟨_, res⟩, ran, rfl, -⟩ := ran
    cases enabled with
    | false => exact (setAllowExternalSharing_ok ran).1.orgs
    | true =>
      simp only [Api.setAllowExternalSharing, if_true, pure_ok, Prod.mk.injEq] at ran
      obtain ⟨rfl, -⟩ := ran
      exact listAllOrgIDs_setAllowExternalSharing db t.orgId true
  | getDomainStatus id verify tls =>
    simp only [Request.transact, bind_ok, pure_ok, Prod.mk.injEq] at ran
    obtain ⟨⟨_, res⟩, ran, rfl, -⟩ := ran
    by_cases done : verify = .verified ∧ tls = .issued
    · obtain ⟨rfl, rfl⟩ := done
      obtain ⟨_, _, -, -, -, rfl, -⟩ := updateDomainStatus_ok ran
      rfl
    · obtain ⟨rfl, -⟩ := updateDomainStatus_pending done ran
      rfl
  | deleteDomain id =>
    simp only [Request.transact, bind_ok, pure_ok, Prod.mk.injEq] at ran
    obtain ⟨⟨_, res⟩, ran, rfl, -⟩ := ran
    obtain rfl := deleteDomain_ok ran
    rfl
  | deleteSite id =>
    simp only [Request.transact, bind_ok, pure_ok, Prod.mk.injEq] at ran
    obtain ⟨⟨_, hosts⟩, ran, rfl, -⟩ := ran
    obtain ⟨_, -, rfl, -⟩ := deleteSite_ok ran
    rfl
  | createPreview siteId versionId ttl =>
    simp only [Request.transact, bind_ok, pure_ok, Prod.mk.injEq] at ran
    obtain ⟨⟨_, res⟩, ran, rfl, -⟩ := ran
    obtain ⟨_, _, _, -, -, -, rfl, -⟩ := createPreviewRoute_ok ran
    rfl
  | deletePreview siteId versionId =>
    simp only [Request.transact, bind_ok, pure_ok, Prod.mk.injEq] at ran
    obtain ⟨⟨_, hosts⟩, ran, rfl, -⟩ := ran
    obtain ⟨rfl, -⟩ := deletePreviewRoutes_ok ran
    rfl
  | refreshChat siteId =>
    simp only [Request.transact, bind_ok, pure_ok, Prod.mk.injEq] at ran
    obtain ⟨routes, -, rfl, -⟩ := ran
    rfl
  | reprojectOrgRoutes =>
    cases ran
    rfl

end Dropway.Api
