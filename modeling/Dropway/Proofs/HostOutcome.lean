import Dropway.Proofs.RouteContract
import Dropway.Proofs.Served
import Dropway.Serve.Resolver

/-! What the two serving planes make of a host: the Go server asks the database,
the Worker reads the route value that a rebuild collects. -/

namespace Dropway.Serve
open Lib
open Api (Database Instant Timestamptz HostRoute Site AccessPolicy rfc3339 routeExpiry earliestExpiry
  lookup_collectRoutesForOrg)
open Edge (AccessMode)
open Projection (ascii)

inductive Outcome where
  | noRoute
  | expired
  | served (orgId siteId versionId : Text) (accessMode : AccessMode)
  deriving DecidableEq

def goOutcome (db : Database) (now : Instant) (host : Text) : Outcome :=
  match resolve db host with
  | none => .noRoute
  | some route =>
    if isRouteExpired route.routeValue now then .expired
    else .served route.orgId route.siteId route.versionId route.accessMode

/-- The value as PutRoute is given it. -/
def projected (value : Api.RouteValue) : Projection.RouteValue where
  orgId := Utf8.encode value.orgId
  siteId := Utf8.encode value.siteId
  versionId := Utf8.encode value.versionId
  accessMode := ascii value.accessMode.text
  schemaVersion := value.schemaVersion
  expiresAt := Utf8.encode value.expiresAt
  planTier := Utf8.encode value.planTier
  chatId := Utf8.encode value.chatId

/-- The Worker's clock counts milliseconds. -/
def workerOutcome (dateParse : String → Option Int) (value : Option Api.RouteValue) (now : Instant) :
    Outcome :=
  match value.bind fun value => (jsonParse (projected value).marshal).bind
      (Edge.parseRouteValue dateParse) with
  | none => .noRoute
  | some route =>
    if Edge.isRouteExpired dateParse route (now / 1000000) then .expired
    else .served route.orgId.text route.siteId.text route.versionId.text route.accessMode

/-- The columns of type `uuid` hold UUIDs. -/
structure Typed (db : Database) : Prop where
  sites : ∀ site ∈ db.sites.rows, Edge.isUuid site.id ∧ Edge.isUuid site.orgId ∧
    ∀ versionId ∈ site.currentVersionId, Edge.isUuid versionId
  hostRoutes : ∀ row ∈ db.hostRoutes.rows, ∀ versionId ∈ row.versionId, Edge.isUuid versionId
  chatLogs : ∀ log ∈ db.chatLogs.rows, Edge.isUuid log.id

/-- `Date.parse` reads the timestamps that Go reads, as the same instants, and no
other text that Go writes for one. -/
def ReadsDates (dateParse : String → Option Int) : Prop :=
  ∀ seconds : Int, dateParse (String.ofList (Rfc3339.format seconds)) =
    (Rfc3339.parse (Rfc3339.format seconds)).map fun nanos => nanos / 1000000

/-- The text of the deadline can be read back: its year has four digits. -/
def Legible (deadline : Timestamptz) : Prop := (Rfc3339.parse (rfc3339 deadline.time)).isSome

instance : DecidablePred Legible := fun _ => inferInstanceAs (Decidable (_ = true))

/-- The whole second of the deadline has come. -/
def Reached (now : Instant) (deadline : Timestamptz) : Prop :=
  deadline.time / 1000000000 * 1000000000 ≤ now

instance (now : Instant) : DecidablePred (Reached now) := fun _ => inferInstanceAs (Decidable (_ ≤ _))

/-- A deadline that cannot be read is taken as past. -/
def Lapsed (now : Instant) (deadline : Timestamptz) : Prop := Legible deadline → Reached now deadline

section Deadlines

variable {dateParse : String → Option Int} {deadline : Timestamptz} {now : Instant}

theorem rfc3339_ne_nil (time : Instant) : rfc3339 time ≠ [] := by
  simp [rfc3339, Rfc3339.format]

theorem parse_rfc3339 (legible : Legible deadline) :
    Rfc3339.parse (rfc3339 deadline.time) = some (deadline.time / 1000000000 * 1000000000) := by
  obtain ⟨nanos, read⟩ := Option.isSome_iff_exists.mp legible
  rw [read, Rfc3339.parse_format read]

theorem parse_illegible (illegible : ¬ Legible deadline) : Rfc3339.parse (rfc3339 deadline.time) = none := by
  rw [Legible, Option.not_isSome_iff_eq_none] at illegible
  exact illegible

/-- The Go server's test of a deadline. -/
theorem isRouteExpired_deadline {v : Api.RouteValue} (text : v.expiresAt = rfc3339 deadline.time) :
    isRouteExpired v now = true ↔ Lapsed now deadline := by
  rw [isRouteExpired, text, if_neg (rfc3339_ne_nil _), Lapsed]
  by_cases legible : Legible deadline
  · rw [parse_rfc3339 legible]
    simp only [decide_eq_true_eq]
    exact ⟨fun past _ => past, fun lapsed => lapsed legible⟩
  · rw [parse_illegible legible]
    exact ⟨fun _ readable => absurd readable legible, fun _ => rfl⟩

theorem dateParse_legible (dates : ReadsDates dateParse) (legible : Legible deadline) :
    dateParse (String.ofList (rfc3339 deadline.time)) =
      some (deadline.time / 1000000000 * 1000000000 / 1000000) := by
  have same := dates (deadline.time / 1000000000)
  have read := parse_rfc3339 legible
  rw [rfc3339] at read ⊢
  rw [same, read, Option.map_some]

theorem dateParse_illegible (dates : ReadsDates dateParse) (illegible : ¬ Legible deadline) :
    dateParse (String.ofList (rfc3339 deadline.time)) = none := by
  have same := dates (deadline.time / 1000000000)
  have unread := parse_illegible illegible
  rw [rfc3339] at unread ⊢
  rw [same, unread, Option.map_none]

end Deadlines

section Worker

variable {dateParse : String → Option Int} {value : Api.RouteValue} {now : Instant}

/-- The ids that the Worker insists on. -/
structure Identified (value : Api.RouteValue) : Prop where
  orgId : Edge.isUuid value.orgId
  siteId : Edge.isUuid value.siteId
  versionId : Edge.isUuid value.versionId
  chatId : value.chatId = [] ∨ Edge.isUuid value.chatId
  schemaVersion : value.schemaVersion = Api.schemaVersion

theorem projected_range (known : value.schemaVersion = Api.schemaVersion) :
    1 ≤ (projected value).schemaVersion ∧ (projected value).schemaVersion ≤ 4 := by
  simp only [projected, known, Api.schemaVersion]
  omega

private theorem encode_eq_nil {text : Text} : Utf8.encode text = [] ↔ text = [] :=
  ⟨fun same => Utf8.encode_injective same, fun same => by rw [same]; rfl⟩

theorem projected_conforms (ids : Identified value)
    (dated : value.expiresAt = [] ∨ (dateParse (String.ofList value.expiresAt)).isSome) :
    (projected value).Conforms dateParse where
  orgId := ⟨⟨_, ids.orgId⟩, rfl⟩
  siteId := ⟨⟨_, ids.siteId⟩, rfl⟩
  versionId := ⟨⟨_, ids.versionId⟩, rfl⟩
  expiresAt := dated.imp encode_eq_nil.mpr fun dated => ⟨_, rfl, dated⟩
  planTier := Utf8.valid_encode _
  chatId := ids.chatId.imp encode_eq_nil.mpr fun id => ⟨⟨_, id⟩, rfl⟩

private theorem text_injective {one two : AccessMode} (same : ascii one.text = ascii two.text) :
    one = two := by
  have text : one.text = two.text := String.toList_inj.mp (Utf8.encode_injective same)
  cases one <;> cases two <;> first | rfl | exact absurd text (by decide)

private theorem isRouteExpired_worker {route : Edge.RouteValue} {expiresAt : Text} {clock : Int}
    (same : (route.expiresAt.map String.toList).getD [] = expiresAt) :
    Edge.isRouteExpired dateParse route clock = true ↔
      expiresAt ≠ [] ∧ ∀ exp, dateParse (String.ofList expiresAt) = some exp → exp ≤ clock := by
  subst same
  rw [Edge.isRouteExpired]
  cases route.expiresAt with
  | none => simp
  | some text =>
    simp only [Option.map_some, Option.getD_some, String.ofList_toList]
    by_cases blank : text = ""
    · simp [blank]
    · rw [if_neg blank]
      have written : text.toList ≠ [] := fun empty => blank (String.toList_inj.mp empty)
      cases dateParse text with
      | none => simp [written]
      | some exp => simp [written]

/-- The Worker serves what the value says. -/
theorem workerOutcome_read (ids : Identified value)
    (dated : value.expiresAt = [] ∨ (dateParse (String.ofList value.expiresAt)).isSome) :
    workerOutcome dateParse (some value) now =
      if value.expiresAt ≠ [] ∧ ∀ exp, dateParse (String.ofList value.expiresAt) = some exp →
          exp ≤ now / 1000000 then .expired
      else .served value.orgId value.siteId value.versionId value.accessMode := by
  have known : ∃ mode : AccessMode, (projected value).accessMode = ascii mode.text :=
    ⟨value.accessMode, rfl⟩
  obtain ⟨json, route, parsed, read, same⟩ :=
    (Projection.worker_reads_iff known (projected_range ids.schemaVersion)).mpr
      (projected_conforms ids dated)
  have org : route.orgId.text = value.orgId := Utf8.encode_injective same.orgId
  have site : route.siteId.text = value.siteId := Utf8.encode_injective same.siteId
  have version : route.versionId.text = value.versionId := Utf8.encode_injective same.versionId
  have mode : route.accessMode = value.accessMode := text_injective same.accessMode
  have past : Edge.isRouteExpired dateParse route (now / 1000000) = true ↔ value.expiresAt ≠ [] ∧
      ∀ exp, dateParse (String.ofList value.expiresAt) = some exp → exp ≤ now / 1000000 :=
    isRouteExpired_worker (Utf8.encode_injective same.expiresAt)
  have accepted : ((some value).bind fun value => (jsonParse (projected value).marshal).bind
      (Edge.parseRouteValue dateParse)) = some route := by
    rw [Option.bind_some, parsed, Option.bind_some, read]
  rw [workerOutcome, accepted]
  simp only [past, org, site, version, mode]

/-- A value whose expiry is no date is no route to the Worker. -/
theorem workerOutcome_unread (known : value.schemaVersion = Api.schemaVersion)
    (dated : value.expiresAt ≠ []) (unread : dateParse (String.ofList value.expiresAt) = none) :
    workerOutcome dateParse (some value) now = .noRoute := by
  have refused : (jsonParse (projected value).marshal).bind (Edge.parseRouteValue dateParse) = none := by
    apply Option.eq_none_iff_forall_ne_some.mpr
    intro route accepted
    obtain ⟨json, parsed, read⟩ := Option.bind_eq_some_iff.mp accepted
    rcases Projection.worker_dated (projected_range known) parsed read with blank | read
    · exact dated (encode_eq_nil.mp blank)
    · simp only [projected, Utf8.runeText_encode] at read
      rw [unread] at read
      cases read
  rw [workerOutcome, Option.bind_some, refused]

/-- A value without an expiry is served. -/
theorem workerOutcome_open (ids : Identified value) (blank : value.expiresAt = []) :
    workerOutcome dateParse (some value) now =
      .served value.orgId value.siteId value.versionId value.accessMode := by
  rw [workerOutcome_read ids (.inl blank), if_neg fun past => past.1 blank]

/-- Whole seconds compare alike in milliseconds. -/
private theorem milliseconds_le (time now : Int) :
    time / 1000000000 * 1000000000 / 1000000 ≤ now / 1000000 ↔ time / 1000000000 * 1000000000 ≤ now := by
  omega

/-- The Worker's test of a deadline that it can read. -/
theorem workerOutcome_legible {deadline : Timestamptz} (ids : Identified value)
    (dates : ReadsDates dateParse) (text : value.expiresAt = rfc3339 deadline.time)
    (legible : Legible deadline) : workerOutcome dateParse (some value) now =
      if Reached now deadline then .expired
      else .served value.orgId value.siteId value.versionId value.accessMode := by
  have read := dateParse_legible dates legible
  have written : value.expiresAt ≠ [] := text ▸ rfc3339_ne_nil _
  rw [workerOutcome_read ids (.inr (by rw [text, read]; rfl))]
  have clock : deadline.time / 1000000000 * 1000000000 / 1000000 ≤ now / 1000000 ↔
      Reached now deadline := milliseconds_le _ _
  have past : (rfc3339 deadline.time ≠ [] ∧
      ∀ exp, dateParse (String.ofList (rfc3339 deadline.time)) = some exp → exp ≤ now / 1000000) ↔
      Reached now deadline := by
    rw [read]
    simp only [Option.some.injEq, forall_eq', clock]
    exact ⟨fun past => past.2, fun past => ⟨rfc3339_ne_nil _, past⟩⟩
  rw [text]
  simp only [past]

theorem workerOutcome_illegible {deadline : Timestamptz} (known : value.schemaVersion = Api.schemaVersion)
    (dates : ReadsDates dateParse) (text : value.expiresAt = rfc3339 deadline.time)
    (illegible : ¬ Legible deadline) : workerOutcome dateParse (some value) now = .noRoute :=
  workerOutcome_unread known (text ▸ rfc3339_ne_nil _) (text ▸ dateParse_illegible dates illegible)

end Worker

/-! ### The condition -/

def workerHost (dateParse : String → Option Int) (db : Database) (now : Instant) (orgId host : Text) :
    Outcome :=
  workerOutcome dateParse ((db.collectRoutesForOrg now orgId).lookup host) now

/-- The host is a preview whose deadline has passed. -/
def PreviewOver (db : Database) (now : Instant) (host : Text) : Prop :=
  ∃ row deadline, db.hostRoutes.get? host = some row ∧ row.kind = .preview ∧
    row.expiresAt = some deadline ∧ deadline.time ≤ now

/-- The same outcome, or for a preview that is over no route beside an expired one. -/
def Agreeing (ended : Prop) (one two : Outcome) : Prop :=
  one = two ∨ ended ∧ (one = .noRoute ∧ two = .expired ∨ one = .expired ∧ two = .noRoute)

def policyDeadline (db : Database) (site : Site) : Option Timestamptz :=
  (db.getSiteAccessPolicy site.id site.orgId).bind (·.expiresAt)

/-- The edge is given the deadline: the site is public, and the text can be read. -/
def Given (site : Site) (deadline : Timestamptz) : Prop :=
  site.accessMode = .public ∧ Legible deadline

/-- A host of the live version pins no other one, and a policy deadline that has
lapsed is given to the edge. -/
structure LiveFits (db : Database) (now : Instant) (row : HostRoute) (site : Site) : Prop where
  published : site.currentVersionId.isSome
  heeded : ∀ policy ∈ policyDeadline db site, Lapsed now policy → Given site policy
  own : (∀ policy ∈ policyDeadline db site, ¬ Lapsed now policy) →
    row.versionId = none ∨ row.versionId = site.currentVersionId

/-- A preview pins a version, one of its deadlines can be read, and a policy deadline
that lapses before its own is given to the edge. -/
structure PreviewFits (db : Database) (now : Instant) (row : HostRoute) (site : Site)
    (deadline : Timestamptz) : Prop where
  pinned : row.versionId.isSome
  legible : Legible deadline ∨
    ∃ policy ∈ policyDeadline db site, policy.time < deadline.time ∧ Given site policy
  heeded : ∀ policy ∈ policyDeadline db site, policy.time < deadline.time → Lapsed now policy →
    Given site policy ∨ Reached now deadline

def RowFits (db : Database) (now : Instant) (row : HostRoute) (site : Site) : Prop :=
  site.orgId = row.orgId ∧
    if row.kind = .preview then
      ∃ deadline, row.expiresAt = some deadline ∧ PreviewFits db now row site deadline
    else LiveFits db now row site

/-- What a host's rows have to be for both planes to take it alike. -/
def Fits (db : Database) (now : Instant) (host : Text) : Prop :=
  PreviewOver db now host ∨ ∀ row, db.hostRoutes.get? host = some row →
    ∀ site, db.sites.get? row.siteId = some site →
      row.versionId.or site.currentVersionId = none ∨ RowFits db now row site

section Hosts

variable {dateParse : String → Option Int} {db : Database} {now : Instant} {orgId host versionId : Text}
  {row : HostRoute} {site : Site}

/-- The deadline that the Go server goes by. -/
def chosenDeadline (preview policy : Option Timestamptz) : Option Timestamptz :=
  match preview, policy with
  | preview, none => preview
  | none, policy => policy
  | some deadline, some policy => if policy.time < deadline.time then some policy else some deadline

def previewDeadline (row : HostRoute) : Option Timestamptz :=
  if row.kind = .preview then row.expiresAt else none

theorem resolve_eq (found : db.hostRoutes.get? host = some row)
    (owner : db.sites.get? row.siteId = some site) :
    resolve db host = (row.versionId.or site.currentVersionId).map fun versionId =>
      { orgId := site.orgId, siteId := site.id, versionId, accessMode := site.accessMode
        expiresAt := (chosenDeadline (previewDeadline row) (policyDeadline db site)).map
          Timestamptz.time } := by
  simp only [resolve, Database.resolveHost, found, owner, Option.bind_eq_bind, Option.bind_some, Option.pure_def]
  cases row.versionId.or site.currentVersionId with
  | none => rfl
  | some versionId =>
    rw [Option.bind_some, Option.map_some]
    congr 2
    simp only [previewDeadline, policyDeadline]
    generalize (db.getSiteAccessPolicy site.id site.orgId).bind (·.expiresAt) = policy
    generalize (if row.kind = .preview then row.expiresAt else none) = preview
    cases policy with
    | none => rfl
    | some policy =>
      cases preview with
      | none => rfl
      | some deadline =>
        simp only [chosenDeadline, earlier, Option.map_some]
        split <;> rfl

theorem resolve_unowned (found : db.hostRoutes.get? host = some row)
    (unowned : db.sites.get? row.siteId = none) : resolve db host = none := by
  simp only [resolve, Database.resolveHost, found, unowned, Option.bind_eq_bind, Option.bind_some, Option.bind_none]

theorem resolve_unknown (unknown : db.hostRoutes.get? host = none) : resolve db host = none := by
  simp only [resolve, Database.resolveHost, unknown, Option.bind_eq_bind, Option.bind_none]

/-- The Go server takes a host with a version as expired where its deadline has lapsed. -/
theorem goOutcome_expired (found : db.hostRoutes.get? host = some row)
    (owner : db.sites.get? row.siteId = some site)
    (version : row.versionId.or site.currentVersionId = some versionId) {deadline : Timestamptz}
    (chosen : chosenDeadline (previewDeadline row) (policyDeadline db site) = some deadline)
    (lapsed : Lapsed now deadline) : goOutcome db now host = .expired := by
  have test : isRouteExpired (Route.routeValue
      ⟨site.orgId, site.id, versionId, site.accessMode, some deadline.time⟩) now = true :=
    (isRouteExpired_deadline rfl).mpr lapsed
  simp only [goOutcome, resolve_eq found owner, version, chosen, Option.map_some, test, if_true]

theorem goOutcome_served (found : db.hostRoutes.get? host = some row)
    (owner : db.sites.get? row.siteId = some site)
    (version : row.versionId.or site.currentVersionId = some versionId)
    (running : ∀ deadline ∈ chosenDeadline (previewDeadline row) (policyDeadline db site),
      ¬ Lapsed now deadline) :
    goOutcome db now host = .served site.orgId site.id versionId site.accessMode := by
  rw [goOutcome, resolve_eq found owner, version, Option.map_some]
  cases chosen : chosenDeadline (previewDeadline row) (policyDeadline db site) with
  | none => simp [Route.routeValue, isRouteExpired]
  | some deadline =>
    have test : ¬ isRouteExpired (Route.routeValue
        ⟨site.orgId, site.id, versionId, site.accessMode, some deadline.time⟩) now = true :=
      fun past => running deadline chosen ((isRouteExpired_deadline rfl).mp past)
    simp only [Option.map_some, if_neg test]

theorem goOutcome_bare (found : db.hostRoutes.get? host = some row)
    (owner : db.sites.get? row.siteId = some site)
    (bare : row.versionId.or site.currentVersionId = none) : goOutcome db now host = .noRoute := by
  rw [goOutcome, resolve_eq found owner, bare, Option.map_none]

/-- A host with a version is somewhere, or was. -/
theorem goOutcome_ne_noRoute (found : db.hostRoutes.get? host = some row)
    (owner : db.sites.get? row.siteId = some site)
    (version : row.versionId.or site.currentVersionId = some versionId) :
    goOutcome db now host ≠ .noRoute := by
  by_cases running : ∀ deadline ∈ chosenDeadline (previewDeadline row) (policyDeadline db site),
      ¬ Lapsed now deadline
  · rw [goOutcome_served found owner version running]
    exact fun same => by cases same
  · simp only [not_forall, not_not] at running
    obtain ⟨deadline, chosen, lapsed⟩ := running
    rw [goOutcome_expired found owner version chosen lapsed]
    exact fun same => by cases same

/-! ### The value a rebuild collects -/

private theorem getHostRoute_own (found : db.hostRoutes.get? host = some row) (owned : row.orgId = orgId) :
    db.getHostRoute host orgId = some row := by
  rw [Database.getHostRoute, found, Option.filter_some, if_pos (decide_eq_true owned)]

theorem collected_eq (found : db.hostRoutes.get? host = some row)
    (owner : db.sites.get? row.siteId = some site) (belongs : site.orgId = row.orgId)
    (owned : row.orgId = orgId) :
    (db.collectRoutesForOrg now orgId).lookup host = db.routeOf now orgId row site := by
  have sited : db.getSite row.siteId orgId = some site := by
    rw [Database.getSite, owner, Option.filter_some, if_pos (decide_eq_true (belongs.trans owned))]
  rw [lookup_collectRoutesForOrg, Database.served, getHostRoute_own found owned, Option.bind_some, sited,
    Option.bind_some]

theorem collected_foreign (found : db.hostRoutes.get? host = some row)
    (foreign : ∀ site, db.sites.get? row.siteId = some site → site.orgId ≠ row.orgId)
    (owned : row.orgId = orgId) : (db.collectRoutesForOrg now orgId).lookup host = none := by
  have unsited : db.getSite row.siteId orgId = none := by
    rw [Database.getSite, Option.filter_eq_none_iff]
    intro site owner
    rw [decide_eq_true_eq]
    exact fun same => foreign site owner (same.trans owned.symm)
  rw [lookup_collectRoutesForOrg, Database.served, getHostRoute_own found owned, Option.bind_some, unsited,
    Option.bind_none]

theorem collected_unknown (unknown : db.hostRoutes.get? host = none) :
    (db.collectRoutesForOrg now orgId).lookup host = none := by
  rw [lookup_collectRoutesForOrg, Database.served, Database.getHostRoute, unknown, Option.filter_none,
    Option.bind_none]

theorem siteExpiry_eq (same : site.orgId = orgId) :
    db.siteExpiry site.id orgId site.accessMode =
      if site.accessMode = .public then ((policyDeadline db site).map fun policy =>
        rfc3339 policy.time).getD [] else [] := by
  subst same
  rw [Database.siteExpiry, policyDeadline]
  cases db.getSiteAccessPolicy site.id site.orgId with
  | none =>
    simp
  | some policy =>
    simp only [routeExpiry, Option.bind_some]
    by_cases «public» : site.accessMode = .public
    · rw [if_neg (not_not.mpr «public»), if_pos «public»]
      cases policy.expiresAt <;> rfl
    · rw [if_pos «public», if_neg «public»]

private theorem chatId_identified (typed : Typed db) (orgId siteId : Text) :
    db.chatIdForSite orgId siteId = [] ∨ Edge.isUuid (db.chatIdForSite orgId siteId) := by
  rw [Database.chatIdForSite]
  cases found : db.getChatLogBySite siteId orgId with
  | none => exact .inl rfl
  | some log =>
    simp only
    split
    · exact .inr (typed.chatLogs log (List.mem_of_find?_eq_some found))
    · exact .inl rfl

theorem liveRoute_identified (typed : Typed db) (mem : site ∈ db.sites.rows)
    (live : site.currentVersionId = some versionId) : Identified (db.liveRoute orgId site versionId) where
  orgId := (typed.sites site mem).2.1
  siteId := (typed.sites site mem).1
  versionId := (typed.sites site mem).2.2 versionId live
  chatId := chatId_identified typed orgId site.id
  schemaVersion := rfl

theorem previewRoute_identified (typed : Typed db) (mem : site ∈ db.sites.rows)
    (listed : row ∈ db.hostRoutes.rows) (owner : row.siteId = site.id)
    (pinned : row.versionId = some versionId) (deadline : Instant) :
    Identified (db.previewRoute orgId row site versionId deadline) where
  orgId := (typed.sites site mem).2.1
  siteId := by
    change Edge.isUuid row.siteId = true
    rw [owner]
    exact (typed.sites site mem).1
  versionId := typed.hostRoutes row listed versionId pinned
  chatId := .inl rfl
  schemaVersion := rfl

/-! ### Hosts of the live version -/

/-- The Worker goes by a policy deadline that it is given, and by no other. -/
theorem liveRoute_expiresAt (same : site.orgId = orgId) :
    (db.liveRoute orgId site versionId).expiresAt =
      if site.accessMode = .public then ((policyDeadline db site).map fun policy =>
        rfc3339 policy.time).getD [] else [] :=
  siteExpiry_eq same

private theorem workerLive_open (typed : Typed db) (mem : site ∈ db.sites.rows) (same : site.orgId = orgId)
    (live : site.currentVersionId = some versionId)
    (ungiven : site.accessMode ≠ .public ∨ policyDeadline db site = none) :
    workerOutcome dateParse (some (db.liveRoute orgId site versionId)) now =
      .served site.orgId site.id versionId site.accessMode := by
  have blank : (db.liveRoute orgId site versionId).expiresAt = [] := by
    rw [liveRoute_expiresAt same]
    rcases ungiven with gated | none
    · rw [if_neg gated]
    · rw [none]
      simp
  exact workerOutcome_open (liveRoute_identified typed mem live) blank

private theorem liveRoute_given (versionId : Text) (same : site.orgId = orgId) {policy : Timestamptz}
    (deadline : policyDeadline db site = some policy) («public» : site.accessMode = .public) :
    (db.liveRoute orgId site versionId).expiresAt = rfc3339 policy.time := by
  rw [liveRoute_expiresAt same, if_pos «public», deadline, Option.map_some, Option.getD_some]

/-- The Worker serves a live host as long as the deadline it is given, if any, has not come. -/
private theorem workerLive_running (typed : Typed db) (dates : ReadsDates dateParse)
    (mem : site ∈ db.sites.rows) (same : site.orgId = orgId)
    (live : site.currentVersionId = some versionId)
    (running : ∀ policy ∈ policyDeadline db site, ¬ Lapsed now policy) :
    workerOutcome dateParse (some (db.liveRoute orgId site versionId)) now =
      .served site.orgId site.id versionId site.accessMode := by
  by_cases ungiven : site.accessMode ≠ .public ∨ policyDeadline db site = none
  · exact workerLive_open typed mem same live ungiven
  · obtain ⟨«public», some⟩ := not_or.mp ungiven
    obtain ⟨policy, deadline⟩ := Option.ne_none_iff_exists'.mp some
    obtain ⟨legible, coming⟩ := Classical.not_imp.mp (running policy deadline)
    have text := liveRoute_given versionId same deadline (not_not.mp «public»)
    rw [workerOutcome_legible (liveRoute_identified typed mem live) dates text legible, if_neg coming]
    rfl

private theorem workerLive_lapsed (typed : Typed db) (dates : ReadsDates dateParse)
    (mem : site ∈ db.sites.rows) (same : site.orgId = orgId)
    (live : site.currentVersionId = some versionId) {policy : Timestamptz}
    (deadline : policyDeadline db site = some policy) (lapsed : Lapsed now policy) :
    workerOutcome dateParse (some (db.liveRoute orgId site versionId)) now = .expired ↔
      Given site policy := by
  by_cases «public» : site.accessMode = .public
  · have text := liveRoute_given versionId same deadline «public»
    by_cases legible : Legible policy
    · rw [workerOutcome_legible (liveRoute_identified typed mem live) dates text legible,
        if_pos (lapsed legible)]
      exact ⟨fun _ => ⟨«public», legible⟩, fun _ => rfl⟩
    · rw [workerOutcome_illegible rfl dates text legible]
      exact ⟨fun same => (by cases same), fun given => absurd given.2 legible⟩
  · rw [workerLive_open typed mem same live (.inl «public»)]
    exact ⟨fun same => (by cases same), fun given => absurd given.1 «public»⟩

theorem live_alike_iff (typed : Typed db) (dates : ReadsDates dateParse)
    (found : db.hostRoutes.get? host = some row) (owner : db.sites.get? row.siteId = some site)
    (same : site.orgId = orgId) (kind : row.kind ≠ .preview)
    (live : site.currentVersionId = some versionId) :
    goOutcome db now host = workerOutcome dateParse (some (db.liveRoute orgId site versionId)) now ↔
      LiveFits db now row site := by
  have mem := (Table.get?_eq_some.mp owner).1
  have chosen : chosenDeadline (previewDeadline row) (policyDeadline db site) = policyDeadline db site := by
    rw [previewDeadline, if_neg kind]
    cases policyDeadline db site <;> rfl
  obtain ⟨shown, version, own⟩ : ∃ shown, row.versionId.or site.currentVersionId = some shown ∧
      (shown = versionId ↔ row.versionId = none ∨ row.versionId = site.currentVersionId) := by
    rw [live]
    cases row.versionId with
    | none => exact ⟨versionId, rfl, by simp⟩
    | some pinned => exact ⟨pinned, rfl, by simp⟩
  by_cases running : ∀ policy ∈ policyDeadline db site, ¬ Lapsed now policy
  · rw [goOutcome_served found owner version (chosen.symm ▸ running),
      workerLive_running typed dates mem same live running]
    simp only [Outcome.served.injEq, true_and, and_true, own]
    refine ⟨fun own => ⟨by rw [live]; rfl, fun policy deadline lapsed => ?_, fun _ => own⟩,
      fun fits => fits.own running⟩
    exact absurd lapsed (running policy deadline)
  · simp only [not_forall, not_not] at running
    obtain ⟨policy, deadline, lapsed⟩ := running
    rw [goOutcome_expired found owner version (chosen.trans deadline) lapsed, eq_comm,
      workerLive_lapsed typed dates mem same live deadline lapsed]
    refine ⟨fun given => ⟨by rw [live]; rfl, fun other listed _ => ?_, fun none => ?_⟩,
      fun fits => fits.heeded policy deadline lapsed⟩
    · rw [deadline] at listed
      cases listed
      exact given
    · exact absurd lapsed (none policy deadline)

/-! ### Previews -/

section Previews

variable {deadline policy : Timestamptz}

private theorem whole_le (time : Int) : time / 1000000000 * 1000000000 ≤ time := by omega

private theorem same_second {policy deadline : Int} (after : ¬ policy < deadline)
    (whole : policy / 1000000000 * 1000000000 < deadline) :
    policy / 1000000000 = deadline / 1000000000 := by
  omega

private theorem second_le {policy deadline now : Int} (before : policy < deadline)
    (reached : deadline / 1000000000 * 1000000000 ≤ now) : policy / 1000000000 * 1000000000 ≤ now := by
  omega

private theorem reached_of_le (past : deadline.time ≤ now) : Reached now deadline :=
  le_trans (whole_le deadline.time) past

theorem earliestExpiry_given (same : site.orgId = orgId) (listed : policyDeadline db site = some policy)
    (before : policy.time < deadline.time) (given : Given site policy) :
    earliestExpiry (db.siteExpiry site.id orgId site.accessMode) deadline.time = rfc3339 policy.time := by
  rw [siteExpiry_eq same, if_pos given.1, listed, Option.map_some, Option.getD_some, earliestExpiry,
    if_neg (rfc3339_ne_nil _), parse_rfc3339 given.2]
  simp only
  rw [if_pos (lt_of_le_of_lt (whole_le policy.time) before)]

theorem earliestExpiry_own (same : site.orgId = orgId)
    (ungiven : ∀ policy ∈ policyDeadline db site, policy.time < deadline.time → ¬ Given site policy) :
    earliestExpiry (db.siteExpiry site.id orgId site.accessMode) deadline.time =
      rfc3339 deadline.time := by
  rw [siteExpiry_eq same]
  by_cases «public» : site.accessMode = .public
  · rw [if_pos «public»]
    cases listed : policyDeadline db site with
    | none => rfl
    | some policy =>
      rw [Option.map_some, Option.getD_some, earliestExpiry, if_neg (rfc3339_ne_nil _)]
      by_cases legible : Legible policy
      · have after : ¬ policy.time < deadline.time :=
          fun before => ungiven policy listed before ⟨«public», legible⟩
        rw [parse_rfc3339 legible]
        simp only
        split
        · rename_i whole
          rw [rfc3339, rfc3339, same_second after whole]
        · rfl
      · rw [parse_illegible legible]
  · rw [if_neg «public»]
    rfl

/-- The Worker's outcome for a preview is that of the one deadline it is given. -/
private theorem workerPreview_eq (typed : Typed db) (dates : ReadsDates dateParse)
    (listed : row ∈ db.hostRoutes.rows) (mem : site ∈ db.sites.rows) (owner : row.siteId = site.id)
    (pinned : row.versionId = some versionId) {given : Timestamptz}
    (text : (db.previewRoute orgId row site versionId deadline.time).expiresAt = rfc3339 given.time) :
    workerOutcome dateParse (some (db.previewRoute orgId row site versionId deadline.time)) now =
      if Legible given then
        if Reached now given then .expired else .served site.orgId site.id versionId site.accessMode
      else .noRoute := by
  have ids : Identified (db.previewRoute orgId row site versionId deadline.time) :=
    previewRoute_identified typed mem listed owner pinned deadline.time
  by_cases legible : Legible given
  · rw [workerOutcome_legible ids dates text legible, if_pos legible, ← owner]
    rfl
  · rw [workerOutcome_illegible rfl dates text legible, if_neg legible]

/-- The Go server's outcome for a preview is that of the earlier deadline. -/
private theorem goPreview_eq (found : db.hostRoutes.get? host = some row)
    (owner : db.sites.get? row.siteId = some site) (pinned : row.versionId = some versionId)
    (chosen : chosenDeadline (previewDeadline row) (policyDeadline db site) = some deadline) :
    goOutcome db now host = if Legible deadline → Reached now deadline then .expired
      else .served site.orgId site.id versionId site.accessMode := by
  have version : row.versionId.or site.currentVersionId = some versionId := by rw [pinned]; rfl
  by_cases lapsed : Lapsed now deadline
  · rw [goOutcome_expired found owner version chosen lapsed]
    exact (if_pos lapsed).symm
  · have running : ∀ other ∈ chosenDeadline (previewDeadline row) (policyDeadline db site),
        ¬ Lapsed now other := by
      intro other listed
      rw [chosen] at listed
      cases listed
      exact lapsed
    rw [goOutcome_served found owner version running]
    exact (if_neg lapsed).symm

theorem preview_alike_iff (typed : Typed db) (dates : ReadsDates dateParse)
    (found : db.hostRoutes.get? host = some row) (owner : db.sites.get? row.siteId = some site)
    (same : site.orgId = orgId) (kind : row.kind = .preview) (expires : row.expiresAt = some deadline)
    (pinned : row.versionId = some versionId) :
    goOutcome db now host =
        workerOutcome dateParse (some (db.previewRoute orgId row site versionId deadline.time)) now ↔
      PreviewFits db now row site deadline := by
  obtain ⟨mem, own⟩ := Table.get?_eq_some.mp owner
  have listed := (Table.get?_eq_some.mp found).1
  have preview : previewDeadline row = some deadline := by rw [previewDeadline, if_pos kind, expires]
  have value : (db.previewRoute orgId row site versionId deadline.time).expiresAt =
      earliestExpiry (db.siteExpiry site.id orgId site.accessMode) deadline.time := by
    rw [own]
    rfl
  have isPinned : row.versionId.isSome := by rw [pinned]; rfl
  by_cases first : ∀ policy ∈ policyDeadline db site, ¬ policy.time < deadline.time
  · -- The preview's own deadline decides on both sides.
    have chosen : chosenDeadline (previewDeadline row) (policyDeadline db site) = some deadline := by
      rw [preview]
      cases listed : policyDeadline db site with
      | none => rfl
      | some policy => exact if_neg (first policy listed)
    have text := value.trans (earliestExpiry_own same fun policy listed before =>
      absurd before (first policy listed))
    rw [goPreview_eq found owner pinned chosen, workerPreview_eq typed dates listed mem own.symm pinned text]
    by_cases legible : Legible deadline
    · simp only [legible, true_imp_iff, if_true, true_iff]
      exact ⟨isPinned, .inl legible, fun policy listed before => absurd before (first policy listed)⟩
    · simp only [legible, false_imp_iff, if_true, if_false, reduceCtorEq, false_iff]
      intro fits
      rcases fits.legible with readable | ⟨policy, listed, before, -⟩
      · exact legible readable
      · exact first policy listed before
  · simp only [not_forall, not_not] at first
    obtain ⟨policy, policyListed, before⟩ := first
    have chosen : chosenDeadline (previewDeadline row) (policyDeadline db site) = some policy := by
      rw [preview, policyListed]
      exact if_pos before
    have only : ∀ other ∈ policyDeadline db site, other = policy := by
      intro other otherListed
      rw [policyListed] at otherListed
      cases otherListed
      rfl
    rw [goPreview_eq found owner pinned chosen]
    by_cases given : Given site policy
    · have text := value.trans (earliestExpiry_given same policyListed before given)
      rw [workerPreview_eq typed dates listed mem own.symm pinned text]
      simp only [given.2, true_imp_iff, if_true, true_iff]
      refine ⟨isPinned, .inr ⟨policy, policyListed, before, given⟩, fun other otherListed _ _ => ?_⟩
      rw [only other otherListed]
      exact .inl given
    · have text := value.trans (earliestExpiry_own same fun other otherListed _ => by
        rwa [only other otherListed])
      rw [workerPreview_eq typed dates listed mem own.symm pinned text]
      by_cases legible : Legible deadline
      · rw [if_pos legible]
        by_cases lapsed : Legible policy → Reached now policy
        · rw [if_pos lapsed]
          by_cases reached : Reached now deadline
          · rw [if_pos reached]
            exact ⟨fun _ => ⟨isPinned, .inl legible, fun _ _ _ _ => .inr reached⟩, fun _ => rfl⟩
          · rw [if_neg reached]
            refine ⟨fun same => (by cases same), fun fits => ?_⟩
            rcases fits.heeded policy policyListed before lapsed with readable | late
            · exact absurd readable given
            · exact absurd late reached
        · have coming : ¬ Reached now deadline := fun reached =>
            lapsed fun _ => second_le before reached
          rw [if_neg lapsed, if_neg coming]
          refine ⟨fun _ => ⟨isPinned, .inl legible, fun other otherListed _ late => ?_⟩, fun _ => rfl⟩
          rw [only other otherListed] at late
          exact absurd late lapsed
      · rw [if_neg legible]
        constructor
        · split
          · exact fun same => by cases same
          · exact fun same => by cases same
        · intro fits
          rcases fits.legible with readable | ⟨other, otherListed, -, readable⟩
          · exact absurd readable legible
          · rw [only other otherListed] at readable
            exact absurd readable given

/-- A rebuild leaves out a preview that is over. -/
private theorem collected_over (owned : ∀ row, db.hostRoutes.get? host = some row → row.orgId = orgId)
    (ended : PreviewOver db now host) : (db.collectRoutesForOrg now orgId).lookup host = none := by
  obtain ⟨row, deadline, found, kind, expires, past⟩ := ended
  by_cases belongs : ∀ site, db.sites.get? row.siteId = some site → site.orgId ≠ row.orgId
  · exact collected_foreign found belongs (owned row found)
  · simp only [not_forall, not_not] at belongs
    obtain ⟨site, owner, same⟩ := belongs
    have dead : Database.livePreview now orgId row = false := by
      rw [Database.livePreview, expires, Option.any_some, decide_eq_false (not_lt.mpr past), Bool.and_false]
    rw [collected_eq found owner same (owned row found), Database.routeOf, if_pos kind, dead]
    rfl

/-- A preview that is over is gone on both planes. -/
theorem ended_alike (owned : ∀ row, db.hostRoutes.get? host = some row → row.orgId = orgId)
    (ended : PreviewOver db now host) :
    Agreeing (PreviewOver db now host) (goOutcome db now host) (workerHost dateParse db now orgId host) := by
  have gone : workerHost dateParse db now orgId host = .noRoute := by
    rw [workerHost, collected_over owned ended]
    rfl
  rw [gone]
  obtain ⟨row, deadline, found, kind, expires, past⟩ := id ended
  cases owner : db.sites.get? row.siteId with
  | none =>
    rw [goOutcome, resolve_unowned found owner]
    exact .inl rfl
  | some site =>
    cases version : row.versionId.or site.currentVersionId with
    | none => exact .inl (goOutcome_bare found owner version)
    | some shown =>
      obtain ⟨chosen, chosenEq, early⟩ : ∃ chosen, chosenDeadline (previewDeadline row)
          (policyDeadline db site) = some chosen ∧ chosen.time ≤ deadline.time := by
        rw [previewDeadline, if_pos kind, expires]
        cases policyDeadline db site with
        | none => exact ⟨deadline, rfl, le_refl _⟩
        | some policy =>
          by_cases before : policy.time < deadline.time
          · exact ⟨policy, if_pos before, le_of_lt before⟩
          · exact ⟨deadline, if_neg before, le_refl _⟩
      have lapsed : Lapsed now chosen := fun _ => reached_of_le (le_trans early past)
      exact .inr ⟨ended, .inr ⟨goOutcome_expired found owner version chosenEq lapsed, rfl⟩⟩

end Previews

/-! ### Any host -/

theorem agreeing_iff_eq {ended : Prop} {one two : Outcome} (current : ¬ ended) :
    Agreeing ended one two ↔ one = two :=
  ⟨fun alike => alike.resolve_right fun excused => current excused.1, .inl⟩

private theorem workerHost_none (gone : (db.collectRoutesForOrg now orgId).lookup host = none) :
    workerHost dateParse db now orgId host = .noRoute := by
  rw [workerHost, gone]
  rfl

private theorem foreign_of (owner : db.sites.get? row.siteId = some site)
    (apart : site.orgId ≠ row.orgId) (other : Site) (otherOwner : db.sites.get? row.siteId = some other) :
    other.orgId ≠ row.orgId := by
  rw [owner] at otherOwner
  cases otherOwner
  exact apart

/-- A host that shows no version is no route on either plane. -/
private theorem collected_bare (found : db.hostRoutes.get? host = some row)
    (owner : db.sites.get? row.siteId = some site) (owned : row.orgId = orgId)
    (bare : row.versionId.or site.currentVersionId = none) :
    (db.collectRoutesForOrg now orgId).lookup host = none := by
  obtain ⟨unpinned, unpublished⟩ := Option.or_eq_none_iff.mp bare
  by_cases belongs : site.orgId = row.orgId
  · rw [collected_eq found owner belongs owned, Database.routeOf, unpublished, Option.map_none,
      Database.livePreview, unpinned]
    simp
  · exact collected_foreign found (foreign_of owner belongs) owned

private theorem preview_row_alike (typed : Typed db) (dates : ReadsDates dateParse)
    (found : db.hostRoutes.get? host = some row) (owner : db.sites.get? row.siteId = some site)
    (same : site.orgId = orgId) (owned : row.orgId = orgId) (kind : row.kind = .preview)
    (current : ¬ PreviewOver db now host) (somewhere : goOutcome db now host ≠ .noRoute)
    (collected : (db.collectRoutesForOrg now orgId).lookup host = db.routeOf now orgId row site) :
    goOutcome db now host = workerHost dateParse db now orgId host ↔
      ∃ deadline, row.expiresAt = some deadline ∧ PreviewFits db now row site deadline := by
  rw [Database.routeOf, if_pos kind] at collected
  cases expires : row.expiresAt with
  | none =>
    rw [Database.livePreview, expires, Option.any_none, Bool.and_false] at collected
    rw [workerHost_none collected]
    constructor
    · intro gone
      exact absurd gone somewhere
    · rintro ⟨deadline, unset, fits⟩
      cases unset
  | some deadline =>
    simp only [Option.some.injEq, exists_eq_left']
    cases pinned : row.versionId with
    | none =>
      rw [Database.livePreview, pinned, Option.isSome_none, Bool.and_false, Bool.false_and] at collected
      rw [workerHost_none collected]
      refine ⟨fun gone => absurd gone somewhere, fun fits => ?_⟩
      have isPinned := fits.pinned
      rw [pinned] at isPinned
      cases isPinned
    | some versionId =>
      have coming : now < deadline.time :=
        lt_of_not_ge fun past => current ⟨row, deadline, found, kind, expires, past⟩
      have lives : Database.livePreview now orgId row = true := by
        simp [Database.livePreview, expires, pinned, kind, owned, coming]
      rw [lives, if_pos rfl, Database.previewEntry, pinned, expires] at collected
      rw [workerHost, collected]
      exact preview_alike_iff typed dates found owner same kind expires pinned

/-- The two planes agree about a host exactly where its rows fit. -/
theorem outcomes_alike_iff (typed : Typed db) (dates : ReadsDates dateParse)
    (owned : ∀ row, db.hostRoutes.get? host = some row → row.orgId = orgId) :
    Agreeing (PreviewOver db now host) (goOutcome db now host) (workerHost dateParse db now orgId host) ↔
      Fits db now host := by
  by_cases ended : PreviewOver db now host
  · exact ⟨fun _ => .inl ended, fun _ => ended_alike owned ended⟩
  rw [agreeing_iff_eq ended, Fits, or_iff_right ended]
  cases found : db.hostRoutes.get? host with
  | none =>
    rw [workerHost_none (collected_unknown found), goOutcome, resolve_unknown found]
    exact ⟨fun _ row unknown => (by cases unknown), fun _ => rfl⟩
  | some row =>
    simp only [Option.some.injEq, forall_eq']
    have own := owned row found
    cases owner : db.sites.get? row.siteId with
    | none =>
      rw [workerHost_none (collected_foreign found (by simp [owner]) own), goOutcome,
        resolve_unowned found owner]
      exact ⟨fun _ site unknown => (by cases unknown), fun _ => rfl⟩
    | some site =>
      simp only [Option.some.injEq, forall_eq']
      cases version : row.versionId.or site.currentVersionId with
      | none =>
        rw [workerHost_none (collected_bare found owner own version), goOutcome_bare found owner version]
        exact ⟨fun _ => .inl rfl, fun _ => rfl⟩
      | some shown =>
        have somewhere : goOutcome db now host ≠ .noRoute := goOutcome_ne_noRoute found owner version
        rw [or_iff_right (by simp), RowFits]
        by_cases belongs : site.orgId = row.orgId
        · rw [and_iff_right belongs]
          have collected : (db.collectRoutesForOrg now orgId).lookup host = db.routeOf now orgId row site :=
            collected_eq found owner belongs own
          by_cases kind : row.kind = .preview
          · rw [if_pos kind]
            exact preview_row_alike typed dates found owner (belongs.trans own) own kind ended somewhere
              collected
          · rw [if_neg kind]
            rw [Database.routeOf, if_neg kind] at collected
            cases live : site.currentVersionId with
            | none =>
              rw [live] at collected
              rw [workerHost_none collected]
              refine ⟨fun same => absurd same somewhere, fun fits => ?_⟩
              have published := fits.published
              rw [live] at published
              cases published
            | some versionId =>
              rw [live, Option.map_some] at collected
              rw [workerHost, collected]
              exact live_alike_iff typed dates found owner (belongs.trans own) kind live
        · rw [workerHost_none (collected_foreign found (foreign_of owner belongs) own)]
          exact ⟨fun same => absurd same somewhere, fun fits => absurd fits.1 belongs⟩

end Hosts

/-! ### A password site whose policy has a deadline -/

def gatedHost : Text := "a".toList

def gatedOrg : Text := "11111111-1111-1111-1111-111111111111".toList

def gatedSite : Site where
  id := "22222222-2222-2222-2222-222222222222".toList
  orgId := gatedOrg
  slug := "a".toList
  accessMode := .password
  currentVersionId := some "33333333-3333-3333-3333-333333333333".toList

def gatedRow : HostRoute := ⟨gatedHost, gatedOrg, gatedSite.id, .canonical, none, none⟩

/-- Its policy expires at the epoch. -/
def gatedDatabase : Database where
  organizations := .empty
  orgMeta := .empty
  sites := .singleton gatedSite
  siteVersions := .empty
  policies := .singleton ⟨gatedSite.id, gatedOrg, .password, none, some ⟨0⟩, false⟩
  allowlist := .empty
  hostRoutes := .singleton gatedRow
  chatLogs := .empty
  domains := .empty

theorem gated_typed : Typed gatedDatabase where
  sites site mem := by
    obtain rfl := List.mem_singleton.mp mem
    refine ⟨by decide, by decide, fun versionId live => ?_⟩
    cases live
    decide
  hostRoutes row mem versionId pinned := by
    obtain rfl := List.mem_singleton.mp mem
    cases pinned
  chatLogs log mem := absurd mem List.not_mem_nil

theorem timestamp_reads : ReadsDates Projection.timestamp := by
  intro seconds
  rw [Projection.timestamp, String.toList_ofList]

private theorem gated_found : gatedDatabase.hostRoutes.get? gatedHost = some gatedRow := rfl

theorem gated_owned (row : HostRoute) (found : gatedDatabase.hostRoutes.get? gatedHost = some row) :
    row.orgId = gatedOrg := by
  rw [gated_found] at found
  cases found
  rfl

/-- The Go server takes the site as expired, the Worker serves it. -/
theorem gated_deadline_disagrees :
    Typed gatedDatabase ∧ ReadsDates Projection.timestamp ∧
      (∀ row, gatedDatabase.hostRoutes.get? gatedHost = some row → row.orgId = gatedOrg) ∧
      ¬ Agreeing (PreviewOver gatedDatabase 0 gatedHost) (goOutcome gatedDatabase 0 gatedHost)
        (workerHost Projection.timestamp gatedDatabase 0 gatedOrg gatedHost) := by
  refine ⟨gated_typed, timestamp_reads, gated_owned, fun alike => ?_⟩
  have current : ¬ PreviewOver gatedDatabase 0 gatedHost := by
    rintro ⟨row, -, found, kind, -⟩
    rw [gated_found] at found
    cases found
    cases kind
  have same := (agreeing_iff_eq current).mp alike
  have collected : (gatedDatabase.collectRoutesForOrg 0 gatedOrg).lookup gatedHost =
      some (gatedDatabase.liveRoute gatedOrg gatedSite "33333333-3333-3333-3333-333333333333".toList) :=
    collected_eq gated_found rfl rfl rfl
  rw [workerHost, collected] at same
  have fits : LiveFits gatedDatabase 0 gatedRow gatedSite :=
    (live_alike_iff gated_typed timestamp_reads gated_found rfl rfl (by decide) rfl).mp same
  have lapsed : Lapsed 0 ⟨0⟩ := fun _ => by decide
  have «public» : gatedSite.accessMode = .public := (fits.heeded ⟨0⟩ rfl lapsed).1
  cases «public»

/-- The planes agree about this host exactly where its rows fit. -/
theorem outcomes_alike_iff_gated :
    Agreeing (PreviewOver gatedDatabase 0 gatedHost) (goOutcome gatedDatabase 0 gatedHost)
        (workerHost Projection.timestamp gatedDatabase 0 gatedOrg gatedHost) ↔
      Fits gatedDatabase 0 gatedHost :=
  outcomes_alike_iff gated_typed timestamp_reads gated_owned

end Dropway.Serve
