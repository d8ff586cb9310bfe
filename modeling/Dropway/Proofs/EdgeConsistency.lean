import Dropway.Proofs.Coverage
import Dropway.Proofs.RouteAgreement

/-! Requests of one org interleaved with their writes to the edge. Once all is
written, every host has the route that the database serves, if the writes of
each host keep the order of the transactions. -/

namespace Dropway.Api
open Lib Lib.WriteBehind Database
open Edge (AccessMode)

variable {config : Config} {t : Tenant} {db : Database} {host : Text} {now later : Instant}

/-- A database with a valid registry, that lists the org, and the clock. -/
structure Source (t : Tenant) where
  db : Database
  now : Instant
  valid : RowsValid db
  listed : t.orgId ∈ db.listAllOrgIDs

inductive Commits (config : Config) (t : Tenant) : Source t → Job Text RouteValue → Source t → Prop
  | request {source after : Source t} {request : Request} {writes : List EdgeWrite}
      (undisturbing : request.Undisturbing t source.db)
      (ran : request.transact config t source.now source.db = .ok (after.db, writes))
      (clock : after.now = source.now) :
      Commits config t source (.writes (writes.map EdgeWrite.toWrite)) after
  /-- The routes are written in any order. -/
  | reproject {source : Source t} {entries : List (Sigma fun _ : Text => RouteValue)}
      (order : entries.Perm (source.db.collectRoutesForOrg source.now t.orgId).entries) :
      Commits config t source (.writes (entries.map fun entry => ⟨entry.1, some entry.2⟩)) source
  | rebuildAllOrgs {source : Source t} {desired : Cache Text RouteValue}
      (order : desired.entries.Perm (source.db.rebuildAllOrgs source.now).entries) :
      Commits config t source (.refresh desired) source
  | tick {source after : Source t} (same : after.db = source.db) (passed : source.now ≤ after.now) :
      Commits config t source (.writes []) after

/-- A rebuild of every org has the route of every host of this one. -/
theorem lookup_rebuildAllOrgs (listed : t.orgId ∈ db.listAllOrgIDs) (own : ¬ Foreign t db host) :
    (db.rebuildAllOrgs now).lookup host = db.served now t.orgId host := by
  have collected : ∀ {value}, (host, value) ∈ (db.listAllOrgIDs.flatMap fun orgId =>
      (db.collectRoutesForOrg now orgId).entries.map fun entry => (entry.1, entry.2)) ↔
        ∃ orgId ∈ db.listAllOrgIDs, db.served now orgId host = some value := by
    intro value
    simp only [List.mem_flatMap, List.mem_map, Prod.mk.injEq, ← lookup_collectRoutesForOrg]
    constructor
    · rintro ⟨orgId, mem, entry, entryMem, rfl, rfl⟩
      exact ⟨orgId, mem, AList.mem_lookup_iff.mpr entryMem⟩
    · rintro ⟨orgId, mem, found⟩
      exact ⟨orgId, mem, ⟨host, value⟩, AList.mem_lookup_iff.mp found, rfl, rfl⟩
  have here : ∀ {orgId value}, db.served now orgId host = some value → orgId = t.orgId := by
    intro orgId value route
    obtain ⟨row, site, found, -⟩ := served_eq_some.mp route
    obtain ⟨mem, rowHost, org⟩ := getHostRoute_eq_some.mp found
    by_contra other
    exact own ⟨row, mem, rowHost, fun same => other (org.symm.trans same)⟩
  cases route : db.served now t.orgId host with
  | some value =>
    obtain ⟨last, found, mem⟩ := exists_lookup_ofEntries (collected.mpr ⟨t.orgId, listed, route⟩)
    obtain ⟨orgId, -, lastRoute⟩ := collected.mp mem
    rw [here lastRoute, route] at lastRoute
    cases lastRoute
    exact found
  | none =>
    cases found : (db.rebuildAllOrgs now).lookup host with
    | none => rfl
    | some value =>
      obtain ⟨orgId, -, some⟩ := collected.mp (mem_of_lookup_ofEntries found)
      rw [here some, route] at some
      cases some

def Source.agrees (source : Source t) (host : Text) (route : Option RouteValue) : Prop :=
  AgreesAt source.now t source.db host route

private theorem reproject_last {entries : List (Sigma fun _ : Text => RouteValue)}
    (order : entries.Perm (db.collectRoutesForOrg now t.orgId).entries) {route : Option RouteValue}
    (last : lastWrite (entries.map fun entry => (⟨entry.1, some entry.2⟩ : Write Text RouteValue)) host =
      some route) : route = db.served now t.orgId host := by
  obtain ⟨write, mem, rfl, rfl⟩ := mem_of_lastWrite last
  obtain ⟨entry, entryMem, rfl⟩ := List.mem_map.mp mem
  rw [← lookup_collectRoutesForOrg]
  exact (AList.mem_lookup_iff.mpr (order.mem_iff.mp entryMem)).symm

theorem commits_sound : Sound (Commits config t) Source.agrees := by
  constructor
  · intro source job after host route commits touch
    cases commits with
    | request undisturbing ran clock =>
      have covers := transact_covers source.valid undisturbing ran
      rw [Source.agrees, clock]
      exact covers.touched host route touch
    | reproject order => exact .served (by rw [reproject_last order touch])
    | rebuildAllOrgs order =>
      by_cases foreign : Foreign t source.db host
      · exact .inl foreign
      · apply AgreesAt.served
        have same := AList.perm_lookup (a := host) order
        rw [lookup_rebuildAllOrgs source.listed foreign] at same
        rw [← Option.some.inj touch, same]
    | tick same passed => cases touch
  · intro source job after host route commits touch agrees
    cases commits with
    | request undisturbing ran clock =>
      have covers := transact_covers source.valid undisturbing ran
      rw [Source.agrees, clock]
      exact covers.keep touch agrees
    | reproject order => exact agrees
    | rebuildAllOrgs order => exact agrees
    | tick same passed =>
      rw [Source.agrees, same]
      rcases agrees with away | ⟨seen, past, shown⟩
      · exact .inl away
      · exact .inr ⟨seen, past.trans passed, shown⟩
  · intro source desired after host route commits agrees
    cases commits
    exact agrees

/-! What agreeing comes to. -/

/-- The host is a preview past its deadline. -/
def Expired (now : Instant) (t : Tenant) (db : Database) (host : Text) : Prop :=
  ∃ row, db.getHostRoute host t.orgId = some row ∧ row.kind = .preview ∧
    ∀ deadline, row.expiresAt = some deadline → deadline.time ≤ now

/-- A host of the org has a route exactly if the database serves it, with the version
and the mode that it has there. An expired preview may still have the route that it
was served with. -/
def Consistent (source : Source t) (cache : Cache Text RouteValue) : Prop :=
  ∀ host, ¬ Foreign t source.db host →
    (cache.lookup host).map RouteValue.shown =
        (source.db.served source.now t.orgId host).map RouteValue.shown ∨
      Expired source.now t source.db host ∧ ∃ seen ≤ source.now,
        (cache.lookup host).map RouteValue.shown =
          (source.db.served seen t.orgId host).map RouteValue.shown

/-- Only an expired preview was served otherwise before. -/
private theorem shown_earlier {seen : Instant} (past : seen ≤ now) :
    (db.served seen t.orgId host).map RouteValue.shown =
        (db.served now t.orgId host).map RouteValue.shown ∨ Expired now t db host := by
  cases found : db.getHostRoute host t.orgId with
  | none => exact .inl (by rw [served_none found, served_none found])
  | some row =>
    cases owner : db.getSite row.siteId t.orgId with
    | none => exact .inl (by rw [served_of_row found, served_of_row found, owner]; rfl)
    | some site =>
      rw [served_of_site found owner, served_of_site found owner, routeOf_shown, routeOf_shown]
      by_cases kind : row.kind = .preview
      · by_cases expired : ∀ deadline, row.expiresAt = some deadline → deadline.time ≤ now
        · exact .inr ⟨row, found, kind, expired⟩
        · push Not at expired
          obtain ⟨deadline, dated, running⟩ := expired
          refine .inl ?_
          simp only [livePreview, dated, Option.any_some, running, past.trans_lt running]
      · exact .inl (by rw [if_neg kind, if_neg kind])

private theorem consistent_iff {source : Source t} {cache : Cache Text RouteValue} :
    Consistent source cache ↔ ∀ host, source.agrees host (cache.lookup host) := by
  constructor
  · intro consistent host
    by_cases foreign : Foreign t source.db host
    · exact .inl foreign
    · rcases consistent host foreign with same | ⟨-, stale⟩
      · exact .served same
      · exact .inr stale
  · intro agrees host own
    rcases agrees host with foreign | ⟨seen, past, same⟩
    · exact absurd foreign own
    · rcases shown_earlier past with current | expired
      · exact .inl (same.trans current)
      · exact .inr ⟨expired, seen, past, same⟩

private theorem served_mode {value : RouteValue} (route : db.served now t.orgId host = some value) :
    ∃ row site, db.getHostRoute host t.orgId = some row ∧ db.getSite row.siteId t.orgId = some site ∧
      value.accessMode = site.accessMode := by
  obtain ⟨row, site, found, owner, made⟩ := served_eq_some.mp route
  refine ⟨row, site, found, owner, ?_⟩
  rcases routeOf_cases made with ⟨-, versionId, deadline, -, -, -, rfl⟩ | ⟨-, versionId, -, rfl⟩
  · rfl
  · rfl

/-- No host is served with another mode than its site's. -/
def ModesCurrent (source : Source t) (cache : Cache Text RouteValue) : Prop :=
  ∀ host route, ¬ Foreign t source.db host → cache.lookup host = some route →
    ∃ row site, source.db.getHostRoute host t.orgId = some row ∧
      source.db.getSite row.siteId t.orgId = some site ∧ route.accessMode = site.accessMode

private theorem Consistent.modes {source : Source t} {cache : Cache Text RouteValue}
    (consistent : Consistent source cache) : ModesCurrent source cache := by
  intro host route own found
  have seen : ∃ seen, (some route).map RouteValue.shown =
      (source.db.served seen t.orgId host).map RouteValue.shown := by
    rw [← found]
    rcases consistent host own with same | ⟨-, seen, -, same⟩
    · exact ⟨source.now, same⟩
    · exact ⟨seen, same⟩
  obtain ⟨seen, same⟩ := seen
  obtain ⟨value, served, shown⟩ := Option.map_eq_some_iff.mp same.symm
  obtain ⟨row, site, rowFound, owner, mode⟩ := served_mode served
  exact ⟨row, site, rowFound, owner, (congrArg Prod.snd shown).symm.trans mode⟩

private theorem consistent_rebuilt (source : Source t) :
    Consistent source (source.db.collectRoutesForOrg source.now t.orgId) := by
  intro host _
  rw [lookup_collectRoutesForOrg]
  exact .inl rfl

/-! Runs over the blog. -/

private theorem blog_valid : RowsValid blogDatabase := by
  intro row mem
  obtain rfl := List.mem_singleton.mp mem
  refine ⟨fun site siteMem _ => ?_, fun kind => ?_, fun versionId pin => ?_⟩
  · obtain rfl := List.mem_singleton.mp siteMem
    rfl
  · cases kind
  · cases pin

def blogSource : Source blogTenant := ⟨blogDatabase, 0, blog_valid, List.mem_singleton.mpr rfl⟩

def blogCache : Cache Text RouteValue := blogDatabase.collectRoutesForOrg 0 blogTenant.orgId

private theorem blog_restricts : (Request.setSiteAccess blogAccess).transact blogConfig blogTenant 0
    blogDatabase = .ok (accessChanged blogDatabase blogTenant blogAccess .orgOnly,
      [.putRoute blogHost (blogRoute [])]) :=
  rfl

def blogGated : Source blogTenant where
  db := accessChanged blogDatabase blogTenant blogAccess .orgOnly
  now := 0
  valid := transact_valid blog_valid
    (show (Request.setSiteAccess blogAccess).Undisturbing blogTenant blogDatabase from trivial) blog_restricts
  listed := List.mem_singleton.mpr rfl

def blogPut : Write Text RouteValue := ⟨blogHost, some (blogRoute [])⟩

/-- Restricting the blog, and then writing its host. -/
private theorem blog_run : Relation.ReflTransGen (Step (Commits blogConfig blogTenant) true)
    ⟨blogSource, blogCache, []⟩ ⟨blogGated, blogCache.apply blogPut, [.writes []]⟩ := by
  have done : Commits blogConfig blogTenant blogSource
      (.writes ([EdgeWrite.putRoute blogHost (blogRoute [])].map EdgeWrite.toWrite)) blogGated :=
    .request (show (Request.setSiteAccess blogAccess).Undisturbing blogTenant blogDatabase from trivial)
      blog_restricts rfl
  have commit : Step (Commits blogConfig blogTenant) true ⟨blogSource, blogCache, []⟩
      ⟨blogGated, blogCache, [] ++ [.writes [blogPut]]⟩ := .commit done
  have write : Step (Commits blogConfig blogTenant) true
      ⟨blogGated, blogCache, [] ++ .writes (blogPut :: []) :: []⟩
      ⟨blogGated, blogCache.apply blogPut, [] ++ .writes [] :: []⟩ :=
    .write fun _ _ mem => absurd mem List.not_mem_nil
  exact .tail (.single commit) write

def blogOpen : RouteValue := { blogRoute "free".toList with accessMode := .public }

private theorem blog_publishes : (Request.publish ['s'] ['v']).transact blogConfig blogTenant 0
    blogDatabase = .ok (blogDatabase, [.putRoute blogHost blogOpen]) :=
  rfl

def blogReopened : Cache Text RouteValue := (blogCache.apply blogPut).apply ⟨blogHost, some blogOpen⟩

/-- The route of a publish arrives after that of a later restriction. -/
private theorem left_public : Relation.ReflTransGen (Step (Commits blogConfig blogTenant) false)
    ⟨blogSource, blogCache, []⟩ ⟨blogGated, blogReopened, [.writes [], .writes []]⟩ := by
  have publish : Commits blogConfig blogTenant blogSource
      (.writes ([EdgeWrite.putRoute blogHost blogOpen].map EdgeWrite.toWrite)) blogSource :=
    .request (show (Request.publish ['s'] ['v']).Undisturbing blogTenant blogDatabase from trivial)
      blog_publishes rfl
  have restrict : Commits blogConfig blogTenant blogSource
      (.writes ([EdgeWrite.putRoute blogHost (blogRoute [])].map EdgeWrite.toWrite)) blogGated :=
    .request (show (Request.setSiteAccess blogAccess).Undisturbing blogTenant blogDatabase from trivial)
      blog_restricts rfl
  have first : Step (Commits blogConfig blogTenant) false ⟨blogSource, blogCache, []⟩
      ⟨blogSource, blogCache, [] ++ [.writes [⟨blogHost, some blogOpen⟩]]⟩ := .commit publish
  have second : Step (Commits blogConfig blogTenant) false
      ⟨blogSource, blogCache, [.writes [⟨blogHost, some blogOpen⟩]]⟩
      ⟨blogGated, blogCache, [.writes [⟨blogHost, some blogOpen⟩]] ++ [.writes [blogPut]]⟩ :=
    .commit restrict
  have third : Step (Commits blogConfig blogTenant) false
      ⟨blogGated, blogCache, [.writes [⟨blogHost, some blogOpen⟩]] ++ .writes (blogPut :: []) :: []⟩
      ⟨blogGated, blogCache.apply blogPut, [.writes [⟨blogHost, some blogOpen⟩]] ++ .writes [] :: []⟩ :=
    .write (by decide)
  have fourth : Step (Commits blogConfig blogTenant) false
      ⟨blogGated, blogCache.apply blogPut, [] ++ .writes (⟨blogHost, some blogOpen⟩ :: []) :: [.writes []]⟩
      ⟨blogGated, blogReopened, [] ++ .writes [] :: [.writes []]⟩ :=
    .write (by decide)
  exact .tail (.tail (.tail (.single first) second) third) fourth

/-! A domain whose site is not live, registered over the host of a site that is,
leaves the host's route as it was. -/

def takenDatabase : Database :=
  { blogDatabase with
    sites := ⟨[⟨['s'], ['o'], ['b'], .public, some ['v']⟩, ⟨['x'], ['o'], ['n'], .public, none⟩], by decide⟩
    domains := ⟨[⟨['d'], ['o'], ['x'], blogHost, .pending, .pending, none⟩], by decide⟩ }

private theorem taken_silently : ∃ changed,
    (Request.getDomainStatus ['d'] .verified .issued).transact blogConfig blogTenant 0 takenDatabase =
        .ok (changed, []) ∧
      takenDatabase.served 0 ['o'] blogHost = some blogOpen ∧ changed.served 0 ['o'] blogHost = none :=
  ⟨_, rfl, rfl, rfl⟩

/-! A preview's route outlives it. -/

def blogPreviewHost : Text := previewHostForSite blogConfig.contentDomain ['v'] ['a'] ['b']

private theorem preview_outlived : ∃ changed route,
    (Request.createPreview ['s'] ['v'] 1000000000).transact blogConfig blogTenant 0 blogDatabase =
        .ok (changed, [.putRoute blogPreviewHost route]) ∧
      changed.served 2000000000 ['o'] blogPreviewHost = none :=
  ⟨_, _, rfl, rfl⟩

end Dropway.Api
