import Dropway.Api.Sharing
import Dropway.Proofs.Effects

/-! While external sharing is off, nothing of the org is open to outsiders, whatever
transactions ran before: unless one of them opened what a reconcile no longer had to
close. -/

namespace Dropway.Api
open Lib Lib.Outcome Lib.ReadCommitted Database
open Edge (AccessMode)

variable {config : Config} {quota : Text → Nat → Bool} {t : Tenant} {db : Database}

/-- What is open to outsiders. -/
inductive Opening where
  | site (id : Text)
  | policy (siteId : Text)
  | grant (key : Text × Text)

def Opened (t : Tenant) (db : Database) : Opening → Prop
  | .site id => ∃ site, db.getSite id t.orgId = some site ∧ site.accessMode = .public
  | .policy siteId =>
    ∃ policy, db.getSiteAccessPolicy siteId t.orgId = some policy ∧ policy.mode = .public
  | .grant key =>
    ∃ entry, db.allowlist.get? key = some entry ∧ entry.orgId = t.orgId ∧ entry.isExternal = true

def Update.Opens : Update → Opening → Prop
  | .accessMode siteId mode, .site id => siteId = id ∧ mode = .public
  | .policy row, .policy siteId => row.siteId = siteId ∧ row.mode = .public
  | .grant entry, .grant key => entry.key = key ∧ entry.isExternal = true
  | .site row, .site id => row.id = id ∧ row.accessMode = .public
  | _, _ => False

def Update.Closes : Update → Opening → Prop
  | .accessMode siteId mode, .site id => siteId = id ∧ mode ≠ .public
  | .policy row, .policy siteId => row.siteId = siteId ∧ row.mode ≠ .public
  | .grant entry, .grant key => entry.key = key ∧ entry.isExternal = false
  | .revokeExternal key, .grant other => key = other
  | _, _ => False

/-! Single updates. -/

theorem getSite_withSite (db : Database) (site : Site) (id orgId : Text) :
    (db.withSite site).getSite id orgId =
      if site.id = id then ((db.sites.get? id).or (some site)).filter fun site => site.orgId = orgId
      else db.getSite id orgId := by
  simp only [getSite, withSite, Table.get?_upsert]
  by_cases same : site.id = id
  · rw [if_pos same, if_pos same]
    cases db.sites.get? id <;> rfl
  · rw [if_neg same, if_neg same]

theorem getSiteAccessPolicy_withPolicy_ne (db : Database) {policy : AccessPolicy} {siteId : Text}
    (orgId : Text) (other : policy.siteId ≠ siteId) :
    (db.withPolicy policy).getSiteAccessPolicy siteId orgId = db.getSiteAccessPolicy siteId orgId := by
  simp only [getSiteAccessPolicy, withPolicy, Table.get?_upsert, if_neg other]

theorem mode_withPolicy (policy : AccessPolicy) {found : AccessPolicy} {orgId : Text}
    (read : (db.withPolicy policy).getSiteAccessPolicy policy.siteId orgId = some found) :
    found.mode = policy.mode := by
  simp only [getSiteAccessPolicy, withPolicy, Table.get?_upsert, if_pos, Option.filter_eq_some_iff,
    Option.some.injEq] at read
  obtain ⟨rfl, -⟩ := read
  cases db.policies.get? policy.siteId <;> rfl

/-- What is open after an update was so before, or the update opens it. -/
theorem opened_apply {update : Update} {opening : Opening} (opened : Opened t (update.apply t db) opening) :
    Opened t db opening ∧ ¬ update.Closes opening ∨ update.Opens opening := by
  cases opening with
  | site siteId =>
    obtain ⟨site, found, mode⟩ := opened
    cases update with
    | accessMode target changed =>
      simp only [Update.apply, getSite_withAccessMode, Option.map_eq_some_iff] at found
      obtain ⟨before, beforeFound, rfl⟩ := found
      by_cases same : siteId = target
      · rw [if_pos same] at mode
        exact .inr ⟨same.symm, mode⟩
      · rw [if_neg same] at mode
        exact .inl ⟨⟨before, beforeFound, mode⟩, fun closes => same closes.1.symm⟩
    | site row =>
      simp only [Update.apply, getSite_withSite] at found
      by_cases same : row.id = siteId
      · rw [if_pos same] at found
        cases before : db.sites.get? siteId with
        | none =>
          rw [before, Option.none_or, Option.filter_eq_some_iff] at found
          cases found.1
          exact .inr ⟨same, mode⟩
        | some old =>
          rw [before, Option.some_or] at found
          exact .inl ⟨⟨site, by rw [getSite, before, found], mode⟩, id⟩
      · rw [if_neg same] at found
        exact .inl ⟨⟨site, found, mode⟩, id⟩
    | _ => exact .inl ⟨⟨site, found, mode⟩, id⟩
  | policy siteId =>
    obtain ⟨policy, found, mode⟩ := opened
    cases update with
    | policy row =>
      by_cases same : row.siteId = siteId
      · subst same
        exact .inr ⟨rfl, (mode_withPolicy row found).symm.trans mode⟩
      · simp only [Update.apply, getSiteAccessPolicy_withPolicy_ne db t.orgId same] at found
        exact .inl ⟨⟨policy, found, mode⟩, fun closes => same closes.1⟩
    | _ => exact .inl ⟨⟨policy, found, mode⟩, id⟩
  | grant key =>
    obtain ⟨entry, found, org, external⟩ := opened
    cases update with
    | grant row =>
      simp only [Update.apply, withAllowlistEntry, Table.get?_upsert] at found
      by_cases same : row.key = key
      · rw [if_pos same] at found
        refine .inr ⟨same, ?_⟩
        cases before : db.allowlist.get? key with
        | none =>
          rw [before, Option.elim_none] at found
          cases found
          exact external
        | some old =>
          rw [before, Option.elim_some] at found
          cases found
          exact external
      · rw [if_neg same] at found
        exact .inl ⟨⟨entry, found, org, external⟩, fun closes => same closes.1⟩
    | revokeExternal gone =>
      simp only [Update.apply, deleteExternalAllowlistEntry, Table.get?_delete,
        Option.filter_eq_some_iff] at found
      refine .inl ⟨⟨entry, found.1, org, external⟩, fun closes => ?_⟩
      have keyed : entry.key = key := Table.get?_key found.1
      have same : gone = key := closes
      simp [keyed, same, org, external] at found
    | _ => exact .inl ⟨⟨entry, found, org, external⟩, id⟩

/-- What an update does not close stays open. -/
theorem opened_kept {update : Update} {opening : Opening} (opened : Opened t db opening)
    (closes : ¬ update.Closes opening) (opens : ¬ update.Opens opening) :
    Opened t (update.apply t db) opening := by
  cases opening with
  | site siteId =>
    obtain ⟨site, found, mode⟩ := opened
    cases update with
    | accessMode target changed =>
      have other : siteId ≠ target := fun same => by
        by_cases isPublic : changed = .public
        · exact opens ⟨same.symm, isPublic⟩
        · exact closes ⟨same.symm, isPublic⟩
      refine ⟨site, ?_, mode⟩
      simp only [Update.apply, getSite_withAccessMode, found, Option.map_some, if_neg other]
    | site row =>
      refine ⟨site, ?_, mode⟩
      simp only [Update.apply, getSite_withSite]
      by_cases same : row.id = siteId
      · rw [if_pos same]
        obtain ⟨present, -⟩ := Option.filter_eq_some_iff.mp found
        rw [getSite, present] at found
        rw [present, Option.some_or, found]
      · rw [if_neg same, found]
    | _ => exact ⟨site, found, mode⟩
  | policy siteId =>
    obtain ⟨policy, found, mode⟩ := opened
    cases update with
    | policy row =>
      have other : row.siteId ≠ siteId := fun same => by
        by_cases isPublic : row.mode = .public
        · exact opens ⟨same, isPublic⟩
        · exact closes ⟨same, isPublic⟩
      refine ⟨policy, ?_, mode⟩
      simp only [Update.apply, getSiteAccessPolicy_withPolicy_ne db t.orgId other, found]
    | _ => exact ⟨policy, found, mode⟩
  | grant key =>
    obtain ⟨entry, found, org, external⟩ := opened
    cases update with
    | grant row =>
      have other : row.key ≠ key := fun same => by
        cases isExternal : row.isExternal with
        | true => exact opens ⟨same, isExternal⟩
        | false => exact closes ⟨same, isExternal⟩
      refine ⟨entry, ?_, org, external⟩
      simp only [Update.apply, withAllowlistEntry, Table.get?_upsert, if_neg other, found]
    | revokeExternal gone =>
      refine ⟨entry, ?_, org, external⟩
      have keyed : entry.key = key := Table.get?_key found
      have other : key ≠ gone := fun same => closes same.symm
      simp [Update.apply, deleteExternalAllowlistEntry, Table.get?_delete, found, keyed, other]
    | _ => exact ⟨entry, found, org, external⟩

/-- A new site leaves open what was. -/
theorem opened_withSite {row : Site} {opening : Opening} (opened : Opened t db opening) :
    Opened t (db.withSite row) opening := by
  by_cases opens : (Update.site row).Opens opening
  · cases opening with
    | site siteId =>
      obtain ⟨site, found, mode⟩ := opened
      refine ⟨site, ?_, mode⟩
      obtain ⟨present, -⟩ := Option.filter_eq_some_iff.mp found
      rw [getSite, present] at found
      rw [getSite_withSite, if_pos opens.1, present, Option.some_or, found]
    | policy siteId => exact opened
    | grant key => exact opened
  · have closes : ¬ (Update.site row).Closes opening := by
      cases opening <;> exact id
    exact opened_kept opened closes opens

/-! Whole transactions. -/

abbrev applyAll (t : Tenant) (updates : List Update) (db : Database) : Database :=
  updates.foldl (fun db update => update.apply t db) db

theorem opened_applyAll {updates : List Update} {opening : Opening}
    (opened : Opened t (applyAll t updates db) opening) :
    (Opened t db opening ∧ ∀ update ∈ updates, ¬ update.Closes opening) ∨
      ∃ update ∈ updates, update.Opens opening := by
  induction updates generalizing db with
  | nil => exact .inl ⟨opened, fun _ mem => absurd mem List.not_mem_nil⟩
  | cons update rest ih =>
    rcases ih opened with ⟨still, closes⟩ | ⟨later, mem, opens⟩
    · rcases opened_apply still with ⟨before, kept⟩ | opens
      · exact .inl ⟨before, List.forall_mem_cons.mpr ⟨kept, closes⟩⟩
      · exact .inr ⟨update, List.mem_cons_self, opens⟩
    · exact .inr ⟨later, List.mem_cons_of_mem _ mem, opens⟩

theorem opened_kept_all {updates : List Update} {opening : Opening} (opened : Opened t db opening)
    (closes : ∀ update ∈ updates, ¬ update.Closes opening)
    (opens : ∀ update ∈ updates, ¬ update.Opens opening) :
    Opened t (applyAll t updates db) opening := by
  induction updates generalizing db with
  | nil => exact opened
  | cons update rest ih =>
    rw [List.forall_mem_cons] at closes opens
    exact ih (opened_kept opened closes.1 opens.1) closes.2 opens.2

theorem allows_withFlag (db : Database) (orgId : Text) (enabled : Bool) :
    (db.setAllowExternalSharing orgId enabled).allowsExternalSharing orgId =
      ((db.orgMeta.get? orgId).isSome && enabled) := by
  simp only [allowsExternalSharing, Database.setAllowExternalSharing, Table.get?_update]
  cases found : db.orgMeta.get? orgId with
  | none => rfl
  | some org =>
    have keyed : org.id = orgId := Table.get?_key found
    simp [keyed]

theorem allows_enabled (allows : db.allowsExternalSharing t.orgId = true) :
    (db.setAllowExternalSharing t.orgId true).allowsExternalSharing t.orgId = true := by
  rw [allows_withFlag, Bool.and_true]
  unfold allowsExternalSharing at allows
  cases found : db.orgMeta.get? t.orgId with
  | none => simp [found] at allows
  | some org => rfl

/-- Only the policy's own update changes it. -/
theorem allows_applyAll {updates : List Update}
    (unflagged : ∀ enabled, .allowExternalSharing enabled ∉ updates) :
    (applyAll t updates db).allowsExternalSharing t.orgId = db.allowsExternalSharing t.orgId := by
  induction updates generalizing db with
  | nil => rfl
  | cons update rest ih =>
    refine (ih fun enabled mem => unflagged enabled (List.mem_cons_of_mem _ mem)).trans ?_
    cases update with
    | allowExternalSharing enabled => exact absurd List.mem_cons_self (unflagged enabled)
    | _ => rfl

theorem owner_applyAll {updates : List Update} {siteId : Text}
    (owner : (db.getSite siteId t.orgId).isSome) :
    ((applyAll t updates db).getSite siteId t.orgId).isSome := by
  induction updates generalizing db with
  | nil => exact owner
  | cons update rest ih =>
    apply ih
    cases update with
    | accessMode target mode =>
      simp only [Update.apply, getSite_withAccessMode, Option.isSome_map]
      exact owner
    | site row =>
      simp only [Update.apply, getSite_withSite]
      by_cases same : row.id = siteId
      · rw [if_pos same]
        obtain ⟨site, found⟩ := Option.isSome_iff_exists.mp owner
        obtain ⟨present, -⟩ := Option.filter_eq_some_iff.mp found
        rw [getSite, present] at found
        rw [present, Option.some_or, found]
        rfl
      · rwa [if_neg same]
    | _ => exact owner

/-! What transactions keep. -/

/-- What a reconcile has still to close. Before it lists anything that is all there
is. -/
def Position.Covers : Position → Opening → Prop
  | .downgrade sites, .site id => id ∈ sites.map Site.id
  | .downgrade sites, .policy siteId => siteId ∈ sites.map Site.id
  | .getSiteAccessPolicy _ rest, .site id => id ∈ rest.map Site.id
  | .getSiteAccessPolicy site rest, .policy siteId => siteId = site.id ∨ siteId ∈ rest.map Site.id
  | .mirrorPolicy _ rest, .site id => id ∈ rest.map Site.id
  | .mirrorPolicy site rest, .policy siteId => siteId = site.id ∨ siteId ∈ rest.map Site.id
  | .listExternalEntries, .site _ => False
  | .listExternalEntries, .policy _ => False
  | .deleteExternalEntries keys, .grant key => key ∈ keys
  | .deleteExternalEntries _, _ => False
  | .done, _ => False
  | _, _ => True

/-- The transaction has turned external sharing off. -/
def Disabling (pending : List Update) : Prop := .allowExternalSharing false ∈ pending

/-- What another transaction has opened and not committed, a reconcile has still to
close. -/
def Covered (session other : Session Update Position) : Prop :=
  Disabling session.pending → ∀ update ∈ other.pending, ∀ opening, update.Opens opening →
    session.position.Covers opening

inductive Position.Creating : Position → Prop
  | defaultVisibility (p : CreateSiteParams) (host : Text) : Creating (.defaultVisibility p host)
  | lockOrgSiteQuota (p : CreateSiteParams) (host : Text) (mode : String) :
    Creating (.lockOrgSiteQuota p host mode)
  | getPlanTier (p : CreateSiteParams) (host : Text) (mode : String) : Creating (.getPlanTier p host mode)
  | countSites (p : CreateSiteParams) (host : Text) (mode : String) (planTier : Text) :
    Creating (.countSites p host mode planTier)
  | insertSite (p : CreateSiteParams) (host : Text) (mode : String) : Creating (.insertSite p host mode)
  | insertHostRoute (p : CreateSiteParams) (host : Text) : Creating (.insertHostRoute p host)
  | incSiteCount : Creating .incSiteCount
  | done : Creating .done

def Update.Creates : Update → Prop
  | .site _ | .host _ _ | .siteQuota | .siteCount => True
  | _ => False

inductive Position.Reconciling : Position → Prop
  | downgrade (sites : List Site) : Reconciling (.downgrade sites)
  | getSiteAccessPolicy (site : Site) (rest : List Site) : Reconciling (.getSiteAccessPolicy site rest)
  | mirrorPolicy (site : Site) (rest : List Site) : Reconciling (.mirrorPolicy site rest)
  | listExternalEntries : Reconciling .listExternalEntries
  | deleteExternalEntries (keys : List (Text × Text)) : Reconciling (.deleteExternalEntries keys)
  | done : Reconciling .done

/-- What a transaction has updated by the time it is at a position. -/
inductive Shape (t : Tenant) (db : Database) : Position → List Update → Prop
  | start {position : Position} (initial : position.Initial) : Shape t db position []
  | setSiteAccessMode {p : SetAccessParams} {mode : AccessMode} {site : Site}
      (owner : (db.getSite p.siteId t.orgId).isSome) :
    Shape t db (.setSiteAccessMode p mode site) []
  | upsertSiteAccessPolicy {p : SetAccessParams} {mode : AccessMode} {site : Site}
      (owner : (db.getSite p.siteId t.orgId).isSome) :
    Shape t db (.upsertSiteAccessPolicy p mode site) [.accessMode p.siteId mode]
  | accessRoutes {p : SetAccessParams} {mode : AccessMode} {site : Site}
      (owner : (db.getSite p.siteId t.orgId).isSome) :
    Shape t db (.accessRoutes p mode site) [.accessMode p.siteId mode, .policy (p.policy t mode)]
  | accessChanged {p : SetAccessParams} {mode : AccessMode}
      (owner : (db.getSite p.siteId t.orgId).isSome) :
    Shape t db .done [.accessMode p.siteId mode, .policy (p.policy t mode)]
  | upsertAllowlistEntry {p : AddAllowlistEntryParams} : Shape t db (.upsertAllowlistEntry p) []
  | granted {entry : AllowlistEntry} : Shape t db .done [.grant entry]
  | creating {position : Position} {pending : List Update} (phase : position.Creating)
      (creates : ∀ update ∈ pending, update.Creates) :
    Shape t db position pending
  | enabled : Shape t db .done [.allowExternalSharing true]
  | listPublicSites : Shape t db .listPublicSites [.allowExternalSharing false]
  | reconciling {position : Position} {pending : List Update} (phase : position.Reconciling) (disabled : Disabling pending)
      (closing : ∀ update ∈ pending, ∀ opening, ¬ update.Opens opening) : Shape t db position pending

/-- A transaction opens something only while the policy allows it, and a reconcile
has closed or will close what is open. -/
structure SessionOk (t : Tenant) (db : Database) (session : Session Update Position) : Prop where
  shape : Shape t db session.position session.pending
  opens : ∀ update ∈ session.pending, ∀ opening, update.Opens opening →
    db.allowsExternalSharing t.orgId = true
  covers : Disabling session.pending → ∀ opening, Opened t db opening →
    session.position.Covers opening ∨ ∃ update ∈ session.pending, update.Closes opening

/-- Nothing is open where the policy is off, and a public policy is a public site's. -/
structure StoreOk (t : Tenant) (db : Database) : Prop where
  closed : db.allowsExternalSharing t.orgId = false → ∀ opening, ¬ Opened t db opening
  synced : ∀ siteId, Opened t db (.policy siteId) → Opened t db (.site siteId)

variable {session : Session Update Position} {position : Position} {update : Option Update}

private theorem creates_unflagged {pending : List Update} (creates : ∀ update ∈ pending, update.Creates)
    (enabled : Bool) : .allowExternalSharing enabled ∉ pending :=
  fun mem => creates _ mem

/-- A transaction either leaves the policy alone, or is one that changes it. -/
theorem Shape.flag {pending : List Update} (shape : Shape t db position pending) :
    (∀ enabled, .allowExternalSharing enabled ∉ pending) ∨ pending = [.allowExternalSharing true] ∨
      Disabling pending ∧ ∀ update ∈ pending, ∀ opening, ¬ update.Opens opening := by
  cases shape with
  | creating phase creates => exact .inl (creates_unflagged creates)
  | enabled => exact .inr (.inl rfl)
  | listPublicSites => exact .inr (.inr ⟨List.mem_singleton.mpr rfl, by simp [Update.Opens]⟩)
  | reconciling phase disabled closing => exact .inr (.inr ⟨disabled, closing⟩)
  | _ => exact .inl (by simp)

/-- The triggers. -/
theorem setSiteAccessMode_allows {siteId : Text} {changed : Database}
    (ran : db.setSiteAccessMode siteId .public t.orgId = .ok changed)
    (owner : (db.getSite siteId t.orgId).isSome) : db.allowsExternalSharing t.orgId = true := by
  unfold setSiteAccessMode at ran
  split at ran
  · cases ran
  · rename_i allowed
    simpa [owner] using allowed

theorem upsertSiteAccessPolicy_allows {policy : AccessPolicy} {changed : Database}
    (ran : db.upsertSiteAccessPolicy policy = .ok changed) (mode : policy.mode = .public) :
    db.allowsExternalSharing policy.orgId = true := by
  unfold upsertSiteAccessPolicy at ran
  split at ran
  · cases ran
  · rename_i allowed
    simpa [mode] using allowed

theorem upsertAllowlistEntry_allows {entry : AllowlistEntry} {changed : Database}
    (ran : db.upsertAllowlistEntry entry = .ok changed) (external : entry.isExternal = true) :
    db.allowsExternalSharing entry.orgId = true := by
  unfold upsertAllowlistEntry at ran
  split at ran
  · cases ran
  · rename_i allowed
    simpa [external] using allowed

theorem createSite_allows {site : Site} {changed : Database} (ran : db.createSite site = .ok changed)
    (mode : site.accessMode = .public) : db.allowsExternalSharing site.orgId = true := by
  unfold createSite at ran
  split at ran
  · cases ran
  · rename_i allowed
    simpa [mode] using allowed

/-- A transaction that leaves the policy alone has no reconcile to cover. -/
private theorem SessionOk.guarded (ok : SessionOk t db session)
    (shape : Shape t db position (session.pending ++ update.toList))
    (unflagged : ∀ enabled, .allowExternalSharing enabled ∉ session.pending ++ update.toList)
    (opens : ∀ made, update = some made → ∀ opening, made.Opens opening →
      db.allowsExternalSharing t.orgId = true) :
    SessionOk t db ⟨position, session.pending ++ update.toList⟩ := by
  refine ⟨shape, fun made mem opening opened => ?_, fun disabling => absurd disabling (unflagged false)⟩
  rcases List.mem_append.mp mem with before | now
  · exact ok.opens made before opening opened
  · exact opens made (Option.mem_toList.mp now) opening opened

/-- What a reconcile has not closed yet is open in what its next statement reads. -/
private theorem opened_seen {pending more : List Update} {opening : Opening}
    (closing : ∀ update ∈ pending, ∀ opening, ¬ update.Opens opening) (opened : Opened t db opening) :
    (∃ made ∈ pending ++ more, made.Closes opening) ∨ Opened t (applyAll t pending db) opening := by
  by_cases closed : ∃ made ∈ pending, made.Closes opening
  · obtain ⟨made, mem, closes⟩ := closed
    exact .inl ⟨made, List.mem_append_left _ mem, closes⟩
  · refine .inr (opened_kept_all opened (fun made mem closes => closed ⟨made, mem, closes⟩) ?_)
    exact fun made mem => closing made mem opening

/-- A reconcile that no longer covers what it did has closed it. -/
private theorem covers_next {pending more : List Update} {next : Position}
    (covers : ∀ opening, Opened t db opening →
      position.Covers opening ∨ ∃ made ∈ pending, made.Closes opening)
    (step : ∀ opening, Opened t db opening → position.Covers opening →
      next.Covers opening ∨ ∃ made ∈ pending ++ more, made.Closes opening) :
    ∀ opening, Opened t db opening →
      next.Covers opening ∨ ∃ made ∈ pending ++ more, made.Closes opening := by
  intro opening opened
  rcases covers opening opened with covered | ⟨made, mem, closes⟩
  · exact step opening opened covered
  · exact .inr ⟨made, List.mem_append_left _ mem, closes⟩

private theorem reconciling_next {pending : List Update} (phase : position.Reconciling)
    (closing : ∀ update ∈ pending, ∀ opening, ¬ update.Opens opening)
    (covers : ∀ opening, Opened t db opening →
      position.Covers opening ∨ ∃ made ∈ pending, made.Closes opening) {next : Position}
    (ran : position.next config quota t (applyAll t pending db) = .ok (update, next)) :
    next.Reconciling ∧ (∀ made, update = some made → ∀ opening, ¬ made.Opens opening) ∧
      ∀ opening, Opened t db opening →
        next.Covers opening ∨ ∃ made ∈ pending ++ update.toList, made.Closes opening := by
  cases phase with
  | downgrade sites =>
    cases sites with
    | nil =>
      cases ran
      refine ⟨.listExternalEntries, by simp, covers_next covers fun opening _ covered => ?_⟩
      cases opening with
      | grant key => exact .inl trivial
      | _ => cases covered
    | cons site rest =>
      simp only [Position.next, bind_ok, mapError_ok, pure_ok, Prod.mk.injEq] at ran
      obtain ⟨_, -, rfl, rfl⟩ := ran
      refine ⟨.getSiteAccessPolicy site rest, ?_, covers_next covers fun opening _ covered => ?_⟩
      · intro made same opening opens
        cases same
        cases opening with
        | site siteId => cases opens.2
        | _ => cases opens
      · cases opening with
        | site siteId =>
          rcases List.mem_cons.mp covered with rfl | later
          · exact .inr ⟨.accessMode site.id .orgOnly, by simp, rfl, by decide⟩
          · exact .inl later
        | policy siteId => exact .inl (List.mem_cons.mp covered)
        | grant key => exact .inl trivial
  | getSiteAccessPolicy site rest =>
    by_cases mirrored : ((applyAll t pending db).getSiteAccessPolicy site.id t.orgId).isSome
    · simp only [Position.next, if_pos mirrored, Except.ok.injEq, Prod.mk.injEq] at ran
      obtain ⟨rfl, rfl⟩ := ran
      refine ⟨.mirrorPolicy site rest, by simp, covers_next covers fun opening _ covered => .inl ?_⟩
      cases opening <;> exact covered
    · simp only [Position.next, if_neg mirrored, Except.ok.injEq, Prod.mk.injEq] at ran
      obtain ⟨rfl, rfl⟩ := ran
      refine ⟨.downgrade rest, by simp, covers_next covers fun opening opened covered => ?_⟩
      cases opening with
      | site siteId => exact .inl covered
      | policy siteId =>
        rcases covered with rfl | later
        · -- Without a policy row nothing is open here.
          rcases opened_seen closing opened with closed | ⟨policy, found, -⟩
          · exact .inr closed
          · exact absurd (by rw [found]; rfl) mirrored
        · exact .inl later
      | grant key => exact .inl trivial
  | mirrorPolicy site rest =>
    simp only [Position.next, bind_ok, mapError_ok, pure_ok, Prod.mk.injEq] at ran
    obtain ⟨_, -, rfl, rfl⟩ := ran
    refine ⟨.downgrade rest, ?_, covers_next covers fun opening _ covered => ?_⟩
    · intro made same opening opens
      cases same
      cases opening with
      | policy siteId => cases opens.2
      | _ => cases opens
    · cases opening with
      | site siteId => exact .inl covered
      | policy siteId =>
        rcases covered with rfl | later
        · exact .inr ⟨.policy (orgOnlyPolicy t site.id), by simp, rfl, fun same => by cases same⟩
        · exact .inl later
      | grant key => exact .inl trivial
  | listExternalEntries =>
    cases ran
    refine ⟨.deleteExternalEntries _, by simp, covers_next covers fun opening opened covered => ?_⟩
    cases opening with
    | grant key =>
      rcases opened_seen closing opened with closed | ⟨entry, found, org, external⟩
      · exact .inr closed
      · obtain ⟨mem, rfl⟩ := Table.get?_eq_some.mp found
        refine .inl (List.mem_map.mpr ⟨entry, Table.mem_filter.mpr ⟨mem, ?_⟩, rfl⟩)
        simp [org, external]
    | _ => cases covered
  | deleteExternalEntries keys =>
    cases keys with
    | nil =>
      cases ran
      refine ⟨.done, by simp, covers_next covers fun opening _ covered => ?_⟩
      cases opening with
      | grant key => cases covered
      | _ => cases covered
    | cons key rest =>
      cases ran
      refine ⟨.deleteExternalEntries rest, ?_, covers_next covers fun opening _ covered => ?_⟩
      · intro made same opening opens
        cases same
        cases opening <;> cases opens
      · cases opening with
        | grant other =>
          rcases List.mem_cons.mp covered with rfl | later
          · exact .inr ⟨.revokeExternal other, by simp, rfl⟩
          · exact .inl later
        | _ => cases covered
  | done =>
    cases ran
    refine ⟨.done, by simp, covers_next covers fun opening _ covered => ?_⟩
    cases opening <;> cases covered

private theorem creating_next {pending : List Update} (phase : position.Creating)
    (creates : ∀ update ∈ pending, update.Creates) {next : Position}
    (ran : position.next config quota t (applyAll t pending db) = .ok (update, next)) :
    next.Creating ∧ (∀ made, update = some made → made.Creates ∧ ∀ opening, made.Opens opening →
      db.allowsExternalSharing t.orgId = true) := by
  cases phase with
  | defaultVisibility p host =>
    simp only [Position.next] at ran
    split at ran
    · cases ran
      exact ⟨.lockOrgSiteQuota _ _ _, by simp⟩
    · simp only [bind_ok, orFail_ok, pure_ok, Prod.mk.injEq] at ran
      obtain ⟨_, -, rfl, rfl⟩ := ran
      exact ⟨.lockOrgSiteQuota _ _ _, by simp⟩
  | lockOrgSiteQuota p host mode =>
    cases ran
    refine ⟨.getPlanTier _ _ _, fun made same => ?_⟩
    cases same
    exact ⟨trivial, fun opening opens => by cases opening <;> cases opens⟩
  | getPlanTier p host mode =>
    cases ran
    exact ⟨.countSites _ _ _ _, by simp⟩
  | countSites p host mode planTier =>
    simp only [Position.next, bind_ok, require_ok, pure_ok, exists_const, Prod.mk.injEq] at ran
    obtain ⟨-, rfl, rfl⟩ := ran
    exact ⟨.insertSite _ _ _, by simp⟩
  | insertSite p host mode =>
    simp only [Position.next, bind_ok, orFail_ok, mapError_ok, pure_ok, Prod.mk.injEq] at ran
    obtain ⟨mode, -, _, created, rfl, rfl⟩ := ran
    refine ⟨.insertHostRoute _ _, fun made same => ?_⟩
    cases same
    refine ⟨trivial, fun opening opens => ?_⟩
    cases opening with
    | site siteId =>
      have allows := createSite_allows created opens.2
      rwa [CreateSiteParams.site, allows_applyAll (creates_unflagged creates)] at allows
    | _ => cases opens
  | insertHostRoute p host =>
    simp only [Position.next, bind_ok, mapError_ok, pure_ok, Prod.mk.injEq] at ran
    obtain ⟨_, -, rfl, rfl⟩ := ran
    refine ⟨.incSiteCount, fun made same => ?_⟩
    cases same
    exact ⟨trivial, fun opening opens => by cases opening <;> cases opens⟩
  | incSiteCount =>
    cases ran
    refine ⟨.done, fun made same => ?_⟩
    cases same
    exact ⟨trivial, fun opening opens => by cases opening <;> cases opens⟩
  | done =>
    cases ran
    exact ⟨.done, by simp⟩

theorem SessionOk.statement (store : StoreOk t db) (ok : SessionOk t db session)
    (ran : session.position.next config quota t (applyAll t session.pending db) = .ok (update, position)) :
    SessionOk t db ⟨position, session.pending ++ update.toList⟩ := by
  obtain ⟨current, pending⟩ := session
  have shape := ok.shape
  cases shape with
  | start initial =>
    cases initial with
    | setSiteAccess p =>
      simp only [Position.next, bind_ok, orFail_ok, pure_ok, Prod.mk.injEq] at ran
      obtain ⟨mode, -, site, owner, rfl, rfl⟩ := ran
      have present : (db.getSite p.siteId t.orgId).isSome := by
        rw [show db.getSite p.siteId t.orgId = some site from owner]
        rfl
      exact ok.guarded (.setSiteAccessMode present) (by simp) (by simp)
    | addAllowlistEntry p =>
      simp only [Position.next, bind_ok, orFail_ok, pure_ok, Prod.mk.injEq] at ran
      obtain ⟨_, -, rfl, rfl⟩ := ran
      exact ok.guarded .upsertAllowlistEntry (by simp) (by simp)
    | createSite p =>
      simp only [Position.next, bind_ok, pure_ok, Prod.mk.injEq] at ran
      obtain ⟨_, -, rfl, rfl⟩ := ran
      exact ok.guarded (.creating (.defaultVisibility _ _) (by simp)) (by simp) (by simp)
    | setAllowExternalSharing enabled =>
      cases ran
      cases enabled with
      | true =>
        refine ⟨.enabled, fun made mem opening opens => ?_, fun disabling => ?_⟩
        · obtain rfl := List.mem_singleton.mp mem
          cases opening <;> cases opens
        · cases List.mem_singleton.mp disabling
      | false =>
        refine ⟨.listPublicSites, fun made mem opening opens => ?_, fun _ opening _ => .inl ?_⟩
        · obtain rfl := List.mem_singleton.mp mem
          cases opening <;> cases opens
        · cases opening <;> exact trivial
  | @setSiteAccessMode p mode site owner =>
    simp only [Position.next, bind_ok, mapError_ok, pure_ok, Prod.mk.injEq] at ran
    obtain ⟨_, moded, rfl, rfl⟩ := ran
    refine ok.guarded (.upsertSiteAccessPolicy owner) (by simp) fun made same opening opens => ?_
    cases same
    cases opening with
    | site siteId =>
      obtain ⟨rfl, rfl⟩ := opens
      exact setSiteAccessMode_allows moded owner
    | _ => cases opens
  | @upsertSiteAccessPolicy p mode site owner =>
    simp only [Position.next, bind_ok, mapError_ok, pure_ok, Prod.mk.injEq] at ran
    obtain ⟨_, written, rfl, rfl⟩ := ran
    refine ok.guarded (.accessRoutes owner) (by simp) fun made same opening opens => ?_
    cases same
    cases opening with
    | policy siteId => exact upsertSiteAccessPolicy_allows written opens.2
    | _ => cases opens
  | accessRoutes owner =>
    simp only [Position.next, bind_ok, pure_ok, Prod.mk.injEq] at ran
    obtain ⟨_, -, rfl, rfl⟩ := ran
    exact ok.guarded (.accessChanged owner) (by simp) (by simp)
  | accessChanged owner =>
    cases ran
    exact ok.guarded (.accessChanged owner) (by simp) (by simp)
  | @upsertAllowlistEntry p =>
    simp only [Position.next, bind_ok, mapError_ok, pure_ok, Prod.mk.injEq] at ran
    obtain ⟨_, written, rfl, rfl⟩ := ran
    refine ok.guarded .granted (by simp) fun made same opening opens => ?_
    cases same
    cases opening with
    | grant key => exact upsertAllowlistEntry_allows written opens.2
    | _ => cases opens
  | granted =>
    cases ran
    exact ok.guarded .granted (by simp) (by simp)
  | creating phase creates =>
    obtain ⟨nextPhase, made⟩ := creating_next phase creates ran
    have all : ∀ other ∈ pending ++ update.toList, other.Creates := fun other mem => by
      rcases List.mem_append.mp mem with before | now
      · exact creates other before
      · exact (made other (Option.mem_toList.mp now)).1
    exact ok.guarded (.creating nextPhase all) (creates_unflagged all) fun other same =>
      (made other same).2
  | enabled =>
    cases ran
    rw [Option.toList_none, List.append_nil]
    exact ok
  | listPublicSites =>
    cases ran
    rw [Option.toList_none, List.append_nil]
    have closing : ∀ update ∈ [Update.allowExternalSharing false], ∀ opening, ¬ update.Opens opening := by
      simp [Update.Opens]
    refine ⟨.reconciling (.downgrade _) (List.mem_singleton.mpr rfl) closing, ok.opens,
      fun _ opening opened => ?_⟩
    have listed : ∀ siteId, Opened t db (.site siteId) →
        siteId ∈ ((db.setAllowExternalSharing t.orgId false).listPublicSitesForOrg t.orgId).map Site.id := by
      rintro siteId ⟨site, found, mode⟩
      obtain ⟨mem, rfl, org⟩ := getSite_eq_some.mp found
      refine List.mem_map.mpr ⟨site, Table.mem_filter.mpr ⟨mem, ?_⟩, rfl⟩
      simp [mode, org]
    cases opening with
    | site siteId => exact .inl (listed siteId opened)
    | policy siteId => exact .inl (listed siteId (store.synced siteId opened))
    | grant key => exact .inl trivial
  | reconciling phase disabled closing =>
    obtain ⟨nextPhase, made, covers⟩ := reconciling_next phase closing (ok.covers disabled) ran
    have all : ∀ other ∈ pending ++ update.toList, ∀ opening, ¬ other.Opens opening := fun other mem => by
      rcases List.mem_append.mp mem with before | now
      · exact closing other before
      · exact made other (Option.mem_toList.mp now)
    exact ⟨.reconciling nextPhase (List.mem_append_left _ disabled) all,
      fun other mem opening opens => absurd opens (all other mem opening), fun _ => covers⟩

/-! Commits. -/

private theorem synced_unchanged {updates : List Update} (store : StoreOk t db)
    (policies : ∀ update ∈ updates, ∀ siteId, ¬ update.Opens (.policy siteId))
    (sites : ∀ siteId, Opened t db (.site siteId) → Opened t (applyAll t updates db) (.site siteId))
    (siteId : Text) (opened : Opened t (applyAll t updates db) (.policy siteId)) :
    Opened t (applyAll t updates db) (.site siteId) := by
  rcases opened_applyAll opened with ⟨before, -⟩ | ⟨update, mem, opens⟩
  · exact sites siteId (store.synced siteId before)
  · exact absurd opens (policies update mem siteId)

/-- A site's policy follows its access. -/
private theorem synced_accessChanged {p : SetAccessParams} {mode : AccessMode} (store : StoreOk t db)
    (owner : (db.getSite p.siteId t.orgId).isSome) (siteId : Text)
    (opened : Opened t (applyAll t [.accessMode p.siteId mode, .policy (p.policy t mode)] db)
      (.policy siteId)) :
    Opened t (applyAll t [.accessMode p.siteId mode, .policy (p.policy t mode)] db) (.site siteId) := by
  by_cases same : p.siteId = siteId
  · subst same
    obtain ⟨policy, found, isPublic⟩ := opened
    have changed : mode = .public := (mode_withPolicy (p.policy t mode) found).symm.trans isPublic
    obtain ⟨site, here⟩ := Option.isSome_iff_exists.mp owner
    refine ⟨{ site with accessMode := mode }, ?_, changed⟩
    exact (getSite_withAccessMode db p.siteId mode t.orgId p.siteId).trans (by
      rw [here, Option.map_some, if_pos rfl])
  · rcases opened_applyAll opened with ⟨before, -⟩ | ⟨update, mem, opens⟩
    · refine opened_kept_all (store.synced siteId before) ?_ ?_
      all_goals
        intro update mem touches
        simp only [List.mem_cons, List.not_mem_nil, or_false] at mem
        rcases mem with rfl | rfl
        · exact same touches.1
        · cases touches
    · simp only [List.mem_cons, List.not_mem_nil, or_false] at mem
      rcases mem with rfl | rfl
      · cases opens
      · exact absurd opens.1 same

private theorem sites_created {updates : List Update} (creates : ∀ update ∈ updates, update.Creates)
    {opening : Opening} (opened : Opened t db opening) : Opened t (applyAll t updates db) opening := by
  induction updates generalizing db with
  | nil => exact opened
  | cons update rest ih =>
    rw [List.forall_mem_cons] at creates
    apply ih creates.2
    cases update with
    | site row => exact opened_withSite opened
    | host name siteId => cases opening <;> exact opened
    | siteQuota => exact opened
    | siteCount => exact opened
    | _ => exact creates.1.elim

theorem StoreOk.commit (store : StoreOk t db) (ok : SessionOk t db session)
    (done : session.position = .done) : StoreOk t (applyAll t session.pending db) := by
  obtain ⟨current, pending⟩ := session
  simp only at done
  subst done
  have unflagged_closed : (∀ enabled, .allowExternalSharing enabled ∉ pending) →
      (applyAll t pending db).allowsExternalSharing t.orgId = false →
        ∀ opening, ¬ Opened t (applyAll t pending db) opening := by
    intro unflagged off opening opened
    rw [allows_applyAll unflagged] at off
    rcases opened_applyAll opened with ⟨before, -⟩ | ⟨update, mem, opens⟩
    · exact store.closed off opening before
    · rw [ok.opens update mem opening opens] at off
      cases off
  have shape := ok.shape
  cases shape with
  | start initial => cases initial
  | accessChanged owner => exact ⟨unflagged_closed (by simp), synced_accessChanged store owner⟩
  | @granted entry =>
    refine ⟨unflagged_closed (by simp), synced_unchanged store ?_ fun siteId opened => opened⟩
    intro update mem siteId opens
    obtain rfl := List.mem_singleton.mp mem
    cases opens
  | creating phase creates =>
    refine ⟨unflagged_closed (creates_unflagged creates), synced_unchanged store ?_ fun siteId =>
      sites_created creates⟩
    intro update mem siteId opens
    have created := creates update mem
    cases update with
    | policy row => cases created
    | _ => cases opens
  | enabled =>
    refine ⟨fun off opening opened => ?_, synced_unchanged store ?_ fun siteId opened => opened⟩
    · rcases opened_applyAll opened with ⟨before, -⟩ | ⟨update, mem, opens⟩
      · cases allows : db.allowsExternalSharing t.orgId with
        | false => exact store.closed allows opening before
        | true =>
          have still : (applyAll t [.allowExternalSharing true] db).allowsExternalSharing t.orgId = true :=
            allows_enabled allows
          rw [still] at off
          cases off
      · obtain rfl := List.mem_singleton.mp mem
        cases opening <;> cases opens
    · intro update mem siteId opens
      obtain rfl := List.mem_singleton.mp mem
      cases opens
  | reconciling phase disabled closing =>
    -- All that was open has been closed.
    have closed : ∀ opening, ¬ Opened t (applyAll t pending db) opening := by
      intro opening opened
      rcases opened_applyAll opened with ⟨before, kept⟩ | ⟨update, mem, opens⟩
      · rcases ok.covers disabled opening before with covered | ⟨update, mem, closes⟩
        · cases opening <;> cases covered
        · exact kept update mem closes
      · exact closing update mem opening opens
    exact ⟨fun _ => closed, fun siteId opened => absurd opened (closed _)⟩

private theorem Shape.stable {pending updates : List Update} (shape : Shape t db position pending) :
    Shape t (applyAll t updates db) position pending := by
  cases shape with
  | start initial => exact .start initial
  | setSiteAccessMode owner => exact .setSiteAccessMode (owner_applyAll owner)
  | upsertSiteAccessPolicy owner => exact .upsertSiteAccessPolicy (owner_applyAll owner)
  | accessRoutes owner => exact .accessRoutes (owner_applyAll owner)
  | accessChanged owner => exact .accessChanged (owner_applyAll owner)
  | upsertAllowlistEntry => exact .upsertAllowlistEntry
  | granted => exact .granted
  | creating phase creates => exact .creating phase creates
  | enabled => exact .enabled
  | listPublicSites => exact .listPublicSites
  | reconciling phase disabled closing => exact .reconciling phase disabled closing

theorem SessionOk.stable {other : Session Update Position} (ok : SessionOk t db session)
    (otherOk : SessionOk t db other) (done : other.position = .done) (apart : Covered session other)
    (apartOther : Covered other session) : SessionOk t (applyAll t other.pending db) session := by
  refine ⟨ok.shape.stable, fun update mem opening opens => ?_, fun disabling opening opened => ?_⟩
  · have before := ok.opens update mem opening opens
    rcases otherOk.shape.flag with unflagged | enabled | ⟨disabling, -⟩
    · rwa [allows_applyAll unflagged]
    · rw [enabled]
      exact allows_enabled before
    · have covered := apartOther disabling update mem opening opens
      rw [done] at covered
      cases opening <;> cases covered
  · rcases opened_applyAll opened with ⟨before, -⟩ | ⟨update, mem, opens⟩
    · exact ok.covers disabling opening before
    · exact .inl (apart disabling update mem opening opens)

theorem sharing_discipline : (sharing config quota t).Discipline (StoreOk t) (SessionOk t) Covered where
  start _ initial := ⟨.start initial, fun _ mem => absurd mem List.not_mem_nil,
    fun disabling => absurd disabling List.not_mem_nil⟩
  statement store ok ran := ok.statement store ran
  commit store ok done := store.commit ok done
  stable _ ok otherOk done apart apartOther := ok.stable otherOk done apart apartOther

/-- No site and no access policy of the org is public, and no allowlist entry external. -/
structure Internal (t : Tenant) (db : Database) : Prop where
  sites : ∀ site ∈ db.sites.rows, site.orgId = t.orgId → site.accessMode ≠ .public
  policies : ∀ policy ∈ db.policies.rows, policy.orgId = t.orgId → policy.mode ≠ .public
  entries : ∀ entry ∈ db.allowlist.rows, entry.orgId = t.orgId → entry.isExternal = false

private theorem StoreOk.internal (store : StoreOk t db) (off : db.allowsExternalSharing t.orgId = false) :
    Internal t db := by
  have closed := store.closed off
  refine ⟨fun site mem org mode => ?_, fun policy mem org mode => ?_, fun entry mem org => ?_⟩
  · exact closed (.site site.id) ⟨site, getSite_eq_some.mpr ⟨mem, rfl, org⟩, mode⟩
  · refine closed (.policy policy.siteId) ⟨policy, ?_, mode⟩
    exact Option.filter_eq_some_iff.mpr ⟨Table.mem_iff_get?.mp mem, by simpa using org⟩
  · by_contra external
    exact closed (.grant entry.key) ⟨entry, Table.mem_iff_get?.mp mem, org, by simpa using external⟩

def teamTenant : Tenant := ⟨['o'], ['u']⟩

def teamConfig : Config := ⟨['c', 'o', 'm']⟩

def unlimited (_planTier : Text) (_sites : Nat) : Bool := true

def teamSite : Site := ⟨['s'], ['o'], ['b'], .orgOnly, none⟩

def teamDatabase : Database where
  organizations := .singleton ⟨['o'], ['a']⟩
  orgMeta := .singleton ⟨['o'], "free".toList, true, "org_only"⟩
  sites := .singleton teamSite
  siteVersions := .empty
  policies := .empty
  allowlist := .empty
  hostRoutes := .empty
  chatLogs := .empty
  domains := .empty

def teamAccess : SetAccessParams := ⟨['s'], "public", [], none, false⟩

abbrev teamSharing := sharing teamConfig unlimited teamTenant

private theorem team_ok : StoreOk teamTenant teamDatabase where
  closed off := by cases off
  synced := by
    rintro siteId ⟨policy, found, -⟩
    cases found

/-- The access change, and the transaction that turns external sharing off. -/
def teamState (db : Database) (access disable : Option (Session Update Position)) :
    State Database Update Position :=
  ⟨db, fun i => if i = 0 then access else if i = 1 then disable else none⟩

variable {access disable : Option (Session Update Position)}

private theorem teamState_access (next : Option (Session Update Position)) :
    (teamState db access disable).withSession 0 next = teamState db next disable := by
  simp only [teamState, State.withSession, State.mk.injEq, true_and]
  funext i
  by_cases here : i = 0 <;> simp [here]

private theorem teamState_disable (next : Option (Session Update Position)) :
    (teamState db access disable).withSession 1 next = teamState db access next := by
  simp only [teamState, State.withSession, State.mk.injEq, true_and]
  funext i
  by_cases here : i = 1 <;> simp [here]

private theorem access_statement {pending : List Update} (update : Option Update)
    (ran : teamSharing.next session.position (teamSharing.view db session) = .ok (update, position))
    (unlocked : ∀ other, disable = some other →
      ∀ key ∈ update.toList.flatMap Update.locks, key ∉ teamSharing.locked other)
    (made : session.pending ++ update.toList = pending) :
    teamSharing.Step (teamState db (some session) disable)
      (teamState db (some ⟨position, pending⟩) disable) := by
  subst made
  have step : teamSharing.Step (teamState db (some session) disable) _ := .statement
    (show (teamState db (some session) disable).sessions 0 = some session from rfl) ran
    fun j other apart running => by
      by_cases second : j = 1
      · subst second
        exact unlocked other running
      · simp [teamState, apart, second] at running
  rwa [teamState_access] at step

private theorem disable_statement {pending : List Update} (update : Option Update)
    (ran : teamSharing.next session.position (teamSharing.view db session) = .ok (update, position))
    (unlocked : ∀ other, access = some other →
      ∀ key ∈ update.toList.flatMap Update.locks, key ∉ teamSharing.locked other)
    (made : session.pending ++ update.toList = pending) :
    teamSharing.Step (teamState db access (some session))
      (teamState db access (some ⟨position, pending⟩)) := by
  subst made
  have step : teamSharing.Step (teamState db access (some session)) _ := .statement
    (show (teamState db access (some session)).sessions 1 = some session from rfl) ran
    fun j other apart running => by
      by_cases first : j = 0
      · subst first
        exact unlocked other running
      · simp [teamState, apart, first] at running
  rwa [teamState_disable] at step

private theorem access_start (p : SetAccessParams) :
    teamSharing.Step (teamState db none disable) (teamState db (some ⟨.setSiteAccess p, []⟩) disable) := by
  have step : teamSharing.Step (teamState db none disable) _ := .start
    (show (teamState db none disable).sessions 0 = none from rfl) (Position.Initial.setSiteAccess p)
  rwa [teamState_access] at step

private theorem disable_start : teamSharing.Step (teamState db access none)
    (teamState db access (some ⟨.setAllowExternalSharing false, []⟩)) := by
  have step : teamSharing.Step (teamState db access none) _ := .start
    (show (teamState db access none).sessions 1 = none from rfl)
    (Position.Initial.setAllowExternalSharing false)
  rwa [teamState_disable] at step

private theorem access_commit {pending : List Update} :
    teamSharing.Step (teamState db (some ⟨.done, pending⟩) disable)
      (teamState (applyAll teamTenant pending db) none disable) := by
  have step : teamSharing.Step (teamState db (some ⟨.done, pending⟩) disable) _ := .commit
    (show (teamState db (some ⟨.done, pending⟩) disable).sessions 0 = some ⟨.done, pending⟩ from rfl) rfl
  rw [teamState_access] at step
  exact step

private theorem disable_commit {pending : List Update} :
    teamSharing.Step (teamState db access (some ⟨.done, pending⟩))
      (teamState (applyAll teamTenant pending db) access none) := by
  have step : teamSharing.Step (teamState db access (some ⟨.done, pending⟩)) _ := .commit
    (show (teamState db access (some ⟨.done, pending⟩)).sessions 1 = some ⟨.done, pending⟩ from rfl) rfl
  rw [teamState_disable] at step
  exact step

def teamOpened : List Update := [.accessMode ['s'] .public, .policy (teamAccess.policy teamTenant .public)]

def teamFlag : List Update := [.allowExternalSharing false]

private theorem unlocked_none {keys : List RowKey} (other : Session Update Position)
    (same : none = some other) : ∀ key ∈ keys, key ∉ teamSharing.locked other := by
  cases same

/-- The site is opened, up to its commit. -/
private theorem team_opens : Relation.ReflTransGen teamSharing.Step (teamState teamDatabase none none)
    (teamState teamDatabase (some ⟨.accessRoutes teamAccess .public teamSite, teamOpened⟩) none) := by
  have found : teamSharing.Step (teamState teamDatabase (some ⟨.setSiteAccess teamAccess, []⟩) none)
      (teamState teamDatabase (some ⟨.setSiteAccessMode teamAccess .public teamSite, []⟩) none) :=
    access_statement none rfl unlocked_none rfl
  have moded : teamSharing.Step
      (teamState teamDatabase (some ⟨.setSiteAccessMode teamAccess .public teamSite, []⟩) none)
      (teamState teamDatabase (some ⟨.upsertSiteAccessPolicy teamAccess .public teamSite,
        [.accessMode ['s'] .public]⟩) none) :=
    access_statement (some (.accessMode ['s'] .public)) rfl unlocked_none rfl
  have written : teamSharing.Step
      (teamState teamDatabase (some ⟨.upsertSiteAccessPolicy teamAccess .public teamSite,
        [.accessMode ['s'] .public]⟩) none)
      (teamState teamDatabase (some ⟨.accessRoutes teamAccess .public teamSite, teamOpened⟩) none) :=
    access_statement (some (.policy (teamAccess.policy teamTenant .public))) rfl unlocked_none rfl
  exact .tail (.tail (.tail (.single (access_start teamAccess)) found) moded) written

/-- A reconcile that finds nothing to close. -/
private theorem team_disables {P : State Database Update Position → Prop}
    (all : ∀ db disable, P (teamState db access disable))
    (unlocked : ∀ other, access = some other → ∀ key ∈ [RowKey.org], key ∉ teamSharing.locked other) :
    Relation.ReflTransGen (fun before after => teamSharing.Step before after ∧ P after)
      (teamState teamDatabase access none)
      (teamState (applyAll teamTenant teamFlag teamDatabase) access none) := by
  have flag : teamSharing.Step (teamState teamDatabase access (some ⟨.setAllowExternalSharing false, []⟩))
      (teamState teamDatabase access (some ⟨.listPublicSites, teamFlag⟩)) :=
    disable_statement (some (.allowExternalSharing false)) rfl unlocked rfl
  have list : teamSharing.Step (teamState teamDatabase access (some ⟨.listPublicSites, teamFlag⟩))
      (teamState teamDatabase access (some ⟨.downgrade [], teamFlag⟩)) :=
    disable_statement none rfl (by simp) rfl
  have downgrade : teamSharing.Step (teamState teamDatabase access (some ⟨.downgrade [], teamFlag⟩))
      (teamState teamDatabase access (some ⟨.listExternalEntries, teamFlag⟩)) :=
    disable_statement none rfl (by simp) rfl
  have entries : teamSharing.Step (teamState teamDatabase access (some ⟨.listExternalEntries, teamFlag⟩))
      (teamState teamDatabase access (some ⟨.deleteExternalEntries [], teamFlag⟩)) :=
    disable_statement none rfl (by simp) rfl
  have delete : teamSharing.Step (teamState teamDatabase access (some ⟨.deleteExternalEntries [], teamFlag⟩))
      (teamState teamDatabase access (some ⟨.done, teamFlag⟩)) :=
    disable_statement none rfl (by simp) rfl
  refine .head ⟨disable_start, all _ _⟩ (.head ⟨flag, all _ _⟩ (.head ⟨list, all _ _⟩ ?_))
  refine .head ⟨downgrade, all _ _⟩ (.head ⟨entries, all _ _⟩ (.head ⟨delete, all _ _⟩ ?_))
  exact .single ⟨disable_commit, all _ _⟩

private theorem team_closes : Relation.ReflTransGen teamSharing.Step
    (teamState (applyAll teamTenant teamFlag teamDatabase)
      (some ⟨.accessRoutes teamAccess .public teamSite, teamOpened⟩) none)
    (teamState (applyAll teamTenant teamOpened (applyAll teamTenant teamFlag teamDatabase)) none none) := by
  have routes : teamSharing.Step (teamState (applyAll teamTenant teamFlag teamDatabase)
        (some ⟨.accessRoutes teamAccess .public teamSite, teamOpened⟩) none)
      (teamState (applyAll teamTenant teamFlag teamDatabase) (some ⟨.done, teamOpened⟩) none) :=
    access_statement none rfl unlocked_none rfl
  exact .tail (.single routes) access_commit

end Dropway.Api
