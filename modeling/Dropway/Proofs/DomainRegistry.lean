import Dropway.Api.Domains
import Dropway.Proofs.Transactions

/-! The registry rows of custom domains. They follow the domains' statuses as long
as no poll takes back a status that has registered a host, and no operation on a
domain touches a host of the platform. -/

namespace Dropway.Api
open Lib Lib.Outcome

def Domain.Live (domain : Domain) : Prop := domain.verifyStatus = .verified ∧ domain.tlsStatus = .issued

instance (domain : Domain) : Decidable domain.Live := inferInstanceAs (Decidable (_ ∧ _))

namespace DomainRegistry

variable (config : Config) (allows : Text → Bool) (t : Tenant)

/-- The host lies below the content domain. -/
def Under (host : Text) : Prop := ('.' :: config.contentDomain) <:+ host

/-- The registry has a custom host of the org for a site. -/
def Registered (db : Database) (host siteId : Text) : Prop :=
  ∃ row ∈ db.getHostRoute host t.orgId, row.kind = .custom ∧ row.siteId = siteId

/-- The org has a domain for a site whose recorded statuses are verified and issued. -/
def Recorded (db : Database) (host siteId : Text) : Prop :=
  ∃ domain ∈ db.domains.rows,
    domain.hostname = host ∧ domain.orgId = t.orgId ∧ domain.siteId = siteId ∧ domain.Live

def Follows (db : Database) : Prop := ∀ host siteId, Registered t db host siteId ↔ Recorded t db host siteId

/-- What the rows of an org look like: the platform's hosts lie below its domain and
the custom ones elsewhere, each for one domain. -/
structure Sound (db : Database) : Prop where
  platform : ∀ host, ∀ row ∈ db.getHostRoute host t.orgId, row.kind ≠ .custom → Under config host
  outside : ∀ domain ∈ db.domains.rows, domain.orgId = t.orgId → ¬ Under config domain.hostname
  distinct : ∀ domain ∈ db.domains.rows, ∀ other ∈ db.domains.rows, domain.hostname = other.hostname → domain = other
  unpinned : ∀ host, ∀ row ∈ db.getHostRoute host t.orgId, row.kind = .custom → row.versionId = none

/-- A poll takes back the status of a domain that is registered. -/
def TakesBack (db : Database) : DomainCall → Prop
  | .poll id verify tls =>
    (∃ domain ∈ db.getDomain id t.orgId, domain.Live) ∧ ¬ (verify = .verified ∧ tls = .issued)
  | _ => False

def OnDomain : DomainCall → Prop
  | .deleteSite _ => False
  | _ => True

/-- Every canonical and every preview row is still there, as it was. -/
def KeepsPlatform (db after : Database) : Prop :=
  ∀ row ∈ db.hostRoutes.rows, row.kind ≠ .custom → row ∈ after.hostRoutes.rows

/-! ### What a call can do -/

inductive Effect (db : Database) : DomainCall → Database → Prop
  | unchanged {call : DomainCall} (idle : ¬ TakesBack t db call) : Effect db call db
  | reserved {request : AddDomainRequest} {created : Option Text} {domain : Domain}
      (own : domain.orgId = t.orgId) (pending : ¬ domain.Live) (outside : ¬ Under config domain.hostname)
      (new : ∀ row ∈ db.domains.rows, row.id ≠ domain.id ∧ row.hostname ≠ domain.hostname) :
      Effect db (.add request created domain.id) { db with domains := db.domains.upsert domain id }
  | recorded {id : Text} {verify : VerifyStatus} {tls : TLSStatus} (down : ¬ (verify = .verified ∧ tls = .issued)) :
      Effect db (.poll id verify tls) (db.updateDomainStatus id verify tls t.orgId)
  | registered {domain : Domain} {id : Text} (found : db.getDomain id t.orgId = some domain)
      (own : ∀ row, db.hostRoutes.get? domain.hostname = some row → row.orgId = t.orgId) :
      Effect db (.poll id .verified .issued)
        ((db.updateDomainStatus id .verified .issued t.orgId).withCustomHost domain.hostname t.orgId domain.siteId)
  | removed {domain : Domain} {id : Text} (found : db.getDomain id t.orgId = some domain) :
      Effect db (.delete id) ((db.deleteDomain id t.orgId).deleteHostRoute domain.hostname t.orgId)
  | siteGone (id : Text) : Effect db (.deleteSite id) (db.deleteSite id)

variable {config allows t} {db after : Database}

theorem normalized_outside {hostname : Text} (accepted : looksLikeHostname config.contentDomain hostname = true) :
    ¬ Under config (normalizeHostname hostname) := by
  intro under
  obtain ⟨front, whole⟩ := under
  have inside : ('.' :: config.contentDomain) <:+: RuneCase.lowered (Text.trimSpace hostname) :=
    ⟨front, [], by rw [List.append_nil, whole]; rfl⟩
  have lower := RuneCase.lowered_infix inside
  have same : RuneCase.lowered config.contentDomain = config.contentDomain := (List.cons.inj lower).2
  have below : ('.' :: RuneCase.lowered config.contentDomain) <:+ normalizeHostname hostname := by
    rw [same]
    exact ⟨front, whole⟩
  dsimp only [looksLikeHostname] at accepted
  split_ifs at accepted with empty dotless malformed address own
  exact own (.inr below)

private theorem insertDomain_ok {domain : Domain} (inserted : db.insertDomain domain = .ok after) :
    (∀ row ∈ db.domains.rows, row.id ≠ domain.id ∧ row.hostname ≠ domain.hostname) ∧
      after = { db with domains := db.domains.upsert domain id } := by
  unfold Database.insertDomain at inserted
  split_ifs at inserted with taken
  refine ⟨fun row mem => ?_, (Except.ok.inj inserted).symm⟩
  simp only [List.any_eq_true, decide_eq_true_eq, not_exists, not_and, not_or] at taken
  exact taken row mem

private theorem addDomain_effect (request : AddDomainRequest) (created : Option Text) (id : Text) :
    Effect config t db (.add request created id) (committed db (addDomain config allows t request created id db)) := by
  cases answer : addDomain config allows t request created id db with
  | error => exact .unchanged not_false
  | ok result =>
    unfold addDomain at answer
    obtain ⟨-, -, answer⟩ := bind_ok.mp answer
    obtain ⟨_, accepted, answer⟩ := bind_ok.mp answer
    obtain ⟨-, -, answer⟩ := bind_ok.mp answer
    obtain ⟨cfHostnameId, -, answer⟩ := bind_ok.mp answer
    unfold createDomain at answer
    obtain ⟨-, -, answer⟩ := bind_ok.mp answer
    obtain ⟨-, -, answer⟩ := bind_ok.mp answer
    obtain ⟨after, inserted, answer⟩ := bind_ok.mp answer
    cases answer
    obtain ⟨new, rfl⟩ := insertDomain_ok (mapError_ok.mp inserted)
    refine Effect.reserved rfl (fun live => (by cases live.1)) ?_ new
    -- The hostname is normalised once more before it is stored.
    exact normalized_outside (require_ok.mp accepted)

private theorem poll_effect (id : Text) (verify : VerifyStatus) (tls : TLSStatus) :
    Effect config t db (.poll id verify tls) (committed db (updateDomainStatus t id verify tls db)) := by
  cases answer : updateDomainStatus t id verify tls db with
  | error =>
    refine .unchanged ?_
    intro back
    obtain ⟨⟨domain, found, -⟩, down⟩ := back
    simp only [updateDomainStatus, Option.mem_def.mp found, if_neg down] at answer
    cases answer
  | ok result =>
    by_cases up : verify = .verified ∧ tls = .issued
    · obtain ⟨rfl, rfl⟩ := up
      obtain ⟨domain, -, found, -, own, written, -⟩ := updateDomainStatus_ok answer
      rw [committed, written]
      exact .registered found own
    · obtain ⟨written, -⟩ := updateDomainStatus_pending up answer
      rw [committed, written]
      exact .recorded up

private theorem delete_effect (id : Text) :
    Effect config t db (.delete id) (committed db (deleteDomain t id db)) := by
  cases answer : deleteDomain t id db with
  | error => exact .unchanged not_false
  | ok result =>
    unfold deleteDomain at answer
    obtain ⟨domain, found, answer⟩ := bind_ok.mp answer
    cases answer
    exact .removed (orFail_ok.mp found)

private theorem deleteSite_effect (id : Text) :
    Effect config t db (.deleteSite id) (committed db (deleteSite t id db)) := by
  cases answer : deleteSite t id db with
  | error => exact .unchanged not_false
  | ok result =>
    obtain ⟨-, -, gone, -⟩ := deleteSite_ok answer
    rw [committed, gone]
    exact .siteGone id

theorem run_effect (call : DomainCall) : Effect config t db call (call.run config allows t db) := by
  cases call with
  | add request created id => exact addDomain_effect request created id
  | poll id verify tls => exact poll_effect id verify tls
  | delete id => exact delete_effect id
  | deleteSite id => exact deleteSite_effect id

/-- The handler's poll records what the provider's answer maps to, or nothing. -/
theorem getDomainStatus_run (id : Text) (answer : Option StatusResult) :
    committed db (getDomainStatus t id answer db) = db ∨ ∃ status ∈ answer,
      committed db (getDomainStatus t id answer db) =
        (DomainCall.poll id (mapDomainStatus status).1 (mapDomainStatus status).2).run config allows t db := by
  cases ran : getDomainStatus t id answer db with
  | error => exact .inl rfl
  | ok result =>
    unfold getDomainStatus at ran
    obtain ⟨domain, -, ran⟩ := bind_ok.mp ran
    by_cases unnamed : domain.cfHostnameId.getD [] = []
    · rw [if_pos unnamed] at ran
      cases ran
      exact .inl rfl
    · rw [if_neg unnamed] at ran
      obtain ⟨status, answered, ran⟩ := bind_ok.mp ran
      obtain ⟨polled, updated, ran⟩ := bind_ok.mp ran
      cases ran
      refine .inr ⟨status, orFail_ok.mp answered, ?_⟩
      rw [DomainCall.run, mapError_ok.mp updated]
      rfl

/-! ### The rows after a call -/

theorem getDomain_eq_some {id orgId : Text} {domain : Domain} :
    db.getDomain id orgId = some domain ↔ domain ∈ db.domains.rows ∧ domain.id = id ∧ domain.orgId = orgId := by
  unfold Database.getDomain
  rw [Option.filter_eq_some_iff, Table.get?_eq_some, decide_eq_true_eq, and_assoc]

private theorem mem_recorded {id : Text} {verify : VerifyStatus} {tls : TLSStatus} {domain : Domain} :
    domain ∈ (db.updateDomainStatus id verify tls t.orgId).domains.rows ↔
      domain ∈ db.domains.rows ∧ ¬ (domain.id = id ∧ domain.orgId = t.orgId) ∨
      ∃ old, db.getDomain id t.orgId = some old ∧ domain = { old with verifyStatus := verify, tlsStatus := tls } := by
  unfold Database.updateDomainStatus
  rw [Table.mem_update]
  simp only [decide_eq_true_eq]
  constructor
  · intro changed
    obtain ⟨old, mem, same⟩ := changed
    by_cases chosen : old.id = id ∧ old.orgId = t.orgId
    · rw [if_pos chosen] at same
      exact .inr ⟨old, getDomain_eq_some.mpr ⟨mem, chosen⟩, same.symm⟩
    · rw [if_neg chosen] at same
      exact .inl ⟨same ▸ mem, same ▸ chosen⟩
  · intro row
    rcases row with ⟨mem, other⟩ | ⟨old, found, rfl⟩
    · exact ⟨domain, mem, if_neg other⟩
    · obtain ⟨mem, chosen⟩ := getDomain_eq_some.mp found
      exact ⟨old, mem, if_pos chosen⟩

private theorem mem_reserved {domain row : Domain} (new : ∀ row ∈ db.domains.rows, row.id ≠ domain.id) :
    row ∈ (db.domains.upsert domain id).rows ↔ row ∈ db.domains.rows ∨ row = domain := by
  have free : db.domains.get? domain.id = none := Table.get?_eq_none.mpr new
  have before : row ∈ db.domains.rows ↔ db.domains.get? row.id = some row := Table.mem_iff_get?
  rw [Table.mem_iff_get?, Table.get?_upsert, before]
  by_cases same : domain.id = row.id
  · rw [if_pos same, ← same, free, Option.elim_none]
    constructor
    · intro given
      exact .inr (Option.some.inj given).symm
    · intro given
      rcases given with absent | rfl
      · cases absent
      · rfl
  · rw [if_neg same]
    refine ⟨.inl, fun given => given.resolve_right ?_⟩
    rintro rfl
    exact same rfl

private theorem removed_host (id hostname host : Text) :
    ((db.deleteDomain id t.orgId).deleteHostRoute hostname t.orgId).getHostRoute host t.orgId =
      if host = hostname then none else db.getHostRoute host t.orgId := by
  have row := getHostRoute_deleteWhere (db.deleteDomain id t.orgId)
    (fun route => decide (route.host = hostname ∧ route.orgId = t.orgId)) host t.orgId
  refine row.trans ?_
  change (db.getHostRoute host t.orgId).filter _ = _
  cases found : db.getHostRoute host t.orgId with
  | none => rw [Option.filter_none, ite_self]
  | some route =>
    obtain ⟨-, keyed, org⟩ := getHostRoute_eq_some.mp found
    simp only [Option.filter_some, keyed, org, and_true, Bool.not_eq_true', decide_eq_false_iff_not, ite_not]

private theorem siteGone_host (id host : Text) : (db.deleteSite id).getHostRoute host t.orgId =
    (db.getHostRoute host t.orgId).filter fun row => !(decide (row.siteId = id) || db.pinsVersionOf id row) :=
  getHostRoute_deleteWhere db _ host t.orgId

/-! ### What every call keeps -/

/-- Every domain afterwards was one before, under the same name. -/
private theorem domains_kept (sound : Sound config t db) (change : Domain → Domain)
    (name : ∀ row, (change row).hostname = row.hostname) (org : ∀ row, (change row).orgId = row.orgId)
    (made : ∀ row ∈ after.domains.rows, ∃ old ∈ db.domains.rows, change old = row) :
    (∀ row ∈ after.domains.rows, row.orgId = t.orgId → ¬ Under config row.hostname) ∧
      ∀ row ∈ after.domains.rows, ∀ other ∈ after.domains.rows, row.hostname = other.hostname → row = other := by
  constructor
  · intro row mem own
    obtain ⟨old, was, rfl⟩ := made row mem
    rw [name]
    exact sound.outside old was (org old ▸ own)
  · intro row mem other mem' same
    obtain ⟨old, was, rfl⟩ := made row mem
    obtain ⟨old', was', rfl⟩ := made other mem'
    rw [name, name] at same
    rw [sound.distinct old was old' was' same]

/-- Every host afterwards was one before, as it was. -/
private theorem hosts_kept (sound : Sound config t db)
    (made : ∀ host row, after.getHostRoute host t.orgId = some row → db.getHostRoute host t.orgId = some row) :
    (∀ host, ∀ row ∈ after.getHostRoute host t.orgId, row.kind ≠ .custom → Under config host) ∧
      ∀ host, ∀ row ∈ after.getHostRoute host t.orgId, row.kind = .custom → row.versionId = none :=
  ⟨fun host row here => sound.platform host row (made host row here),
    fun host row here => sound.unpinned host row (made host row here)⟩

private theorem sound_of (hosts : (∀ host, ∀ row ∈ after.getHostRoute host t.orgId, row.kind ≠ .custom → Under config host) ∧
      ∀ host, ∀ row ∈ after.getHostRoute host t.orgId, row.kind = .custom → row.versionId = none)
    (domains : (∀ row ∈ after.domains.rows, row.orgId = t.orgId → ¬ Under config row.hostname) ∧
      ∀ row ∈ after.domains.rows, ∀ other ∈ after.domains.rows, row.hostname = other.hostname → row = other) :
    Sound config t after :=
  ⟨hosts.1, domains.1, domains.2, hosts.2⟩

private theorem reserved_domains (sound : Sound config t db) {domain : Domain} (own : domain.orgId = t.orgId)
    (outside : ¬ Under config domain.hostname)
    (new : ∀ row ∈ db.domains.rows, row.id ≠ domain.id ∧ row.hostname ≠ domain.hostname) :
    (∀ row ∈ (db.domains.upsert domain id).rows, row.orgId = t.orgId → ¬ Under config row.hostname) ∧
      ∀ row ∈ (db.domains.upsert domain id).rows, ∀ other ∈ (db.domains.upsert domain id).rows,
        row.hostname = other.hostname → row = other := by
  have rows (row : Domain) : row ∈ (db.domains.upsert domain id).rows ↔ row ∈ db.domains.rows ∨ row = domain :=
    mem_reserved fun row mem => (new row mem).1
  constructor
  · intro row mem org
    rcases (rows row).mp mem with old | rfl
    · exact sound.outside row old org
    · exact outside
  · intro row mem other mem' same
    rcases (rows row).mp mem with old | rfl
    · rcases (rows other).mp mem' with old' | rfl
      · exact sound.distinct row old other old' same
      · exact absurd same (new row old).2
    · rcases (rows other).mp mem' with old' | rfl
      · exact absurd same.symm (new other old').2
      · rfl

private theorem recorded_domains (sound : Sound config t db) (id : Text) (verify : VerifyStatus) (tls : TLSStatus) :
    (∀ row ∈ (db.updateDomainStatus id verify tls t.orgId).domains.rows,
        row.orgId = t.orgId → ¬ Under config row.hostname) ∧
      ∀ row ∈ (db.updateDomainStatus id verify tls t.orgId).domains.rows,
        ∀ other ∈ (db.updateDomainStatus id verify tls t.orgId).domains.rows,
          row.hostname = other.hostname → row = other := by
  apply domains_kept sound fun row =>
    if row.id = id ∧ row.orgId = t.orgId then { row with verifyStatus := verify, tlsStatus := tls } else row
  · intro row
    split <;> rfl
  · intro row
    split <;> rfl
  · intro row mem
    rcases mem_recorded.mp mem with ⟨old, other⟩ | ⟨old, found, rfl⟩
    · exact ⟨row, old, if_neg other⟩
    · obtain ⟨was, chosen⟩ := getDomain_eq_some.mp found
      exact ⟨old, was, if_pos chosen⟩

private theorem registered_row (db : Database) {hostname : Text} (siteId : Text)
    (own : ∀ row, db.hostRoutes.get? hostname = some row → row.orgId = t.orgId) :
    (db.withCustomHost hostname t.orgId siteId).getHostRoute hostname t.orgId =
      some ((db.getHostRoute hostname t.orgId).elim ⟨hostname, t.orgId, siteId, .custom, none, none⟩
        fun route => { route with siteId := siteId, kind := .custom }) := by
  simp only [Database.getHostRoute, Database.withCustomHost, Table.get?_upsert, if_pos]
  cases found : db.hostRoutes.get? hostname with
  | none => rw [Option.elim_none, Option.filter_none, Option.elim_none, Option.filter_some, decide_eq_true rfl, if_pos rfl]
  | some row =>
    have org := own row found
    simp only [Option.elim_some, Option.filter_some, org, decide_true, if_true]

private theorem registered_hosts (sound : Sound config t db) {hostname siteId : Text}
    (own : ∀ row, db.hostRoutes.get? hostname = some row → row.orgId = t.orgId) (outside : ¬ Under config hostname) :
    (∀ host, ∀ row ∈ (db.withCustomHost hostname t.orgId siteId).getHostRoute host t.orgId,
        row.kind ≠ .custom → Under config host) ∧
      ∀ host, ∀ row ∈ (db.withCustomHost hostname t.orgId siteId).getHostRoute host t.orgId,
        row.kind = .custom → row.versionId = none := by
  have written := registered_row db siteId own
  constructor
  · intro host row here platform
    by_cases same : hostname = host
    · subst same
      rw [written] at here
      cases here
      cases found : db.getHostRoute hostname t.orgId <;> rw [found] at platform <;> exact absurd rfl platform
    · rw [getHostRoute_withCustomHost_ne db t.orgId siteId same] at here
      exact sound.platform host row here platform
  · intro host row here isCustom
    by_cases same : hostname = host
    · subst same
      rw [written] at here
      cases here
      cases found : db.getHostRoute hostname t.orgId with
      | none => rfl
      | some old =>
        -- A host of the platform is no domain's name, so the old row was a custom one.
        have custom : old.kind = .custom := by
          by_contra platform
          exact outside (sound.platform hostname old found platform)
        exact sound.unpinned hostname old found custom
    · rw [getHostRoute_withCustomHost_ne db t.orgId siteId same] at here
      exact sound.unpinned host row here isCustom

/-- Every call keeps the rows as they should be. -/
theorem Effect.sound {call : DomainCall} (effect : Effect config t db call after) (sound : Sound config t db) :
    Sound config t after := by
  have same : ∀ host row, db.getHostRoute host t.orgId = some row → db.getHostRoute host t.orgId = some row :=
    fun _ _ here => here
  cases effect with
  | unchanged => exact sound
  | reserved own pending outside new => exact sound_of (hosts_kept sound same) (reserved_domains sound own outside new)
  | recorded down => exact sound_of (hosts_kept sound same) (recorded_domains sound _ _ _)
  | @registered domain id found own =>
    obtain ⟨mem, -, org⟩ := getDomain_eq_some.mp found
    have recorded := recorded_domains sound id .verified .issued
    have first : Sound config t (db.updateDomainStatus id .verified .issued t.orgId) :=
      sound_of (hosts_kept sound same) recorded
    exact sound_of (registered_hosts first own (sound.outside domain mem org)) recorded
  | removed found =>
    apply sound_of
    · apply hosts_kept sound
      intro host row here
      rw [removed_host] at here
      split_ifs at here
      exact here
    · apply domains_kept sound id (fun _ => rfl) (fun _ => rfl)
      intro row mem
      exact ⟨row, (Table.mem_delete.mp mem).1, rfl⟩
  | siteGone id =>
    apply sound_of
    · apply hosts_kept sound
      intro host row here
      rw [siteGone_host] at here
      exact (Option.filter_eq_some_iff.mp here).1
    · apply domains_kept sound (fun row => row) (fun _ => rfl) (fun _ => rfl)
      intro row mem
      exact ⟨row, (Table.mem_delete.mp mem).1, rfl⟩

/-! ### The registry against the recorded statuses -/

private theorem recorded_down {id : Text} {verify : VerifyStatus} {tls : TLSStatus}
    (down : ¬ (verify = .verified ∧ tls = .issued)) (host siteId : Text) :
    Recorded t (db.updateDomainStatus id verify tls t.orgId) host siteId ↔
      ∃ domain ∈ db.domains.rows, domain.hostname = host ∧ domain.orgId = t.orgId ∧ domain.siteId = siteId ∧
        domain.Live ∧ domain.id ≠ id := by
  constructor
  · intro recorded
    obtain ⟨domain, mem, name, org, site, live⟩ := recorded
    rcases mem_recorded.mp mem with ⟨old, other⟩ | ⟨old, -, rfl⟩
    · exact ⟨domain, old, name, org, site, live, fun same => other ⟨same, org⟩⟩
    · exact absurd live down
  · intro recorded
    obtain ⟨domain, mem, name, org, site, live, other⟩ := recorded
    exact ⟨domain, mem_recorded.mpr (.inl ⟨mem, fun chosen => other chosen.1⟩), name, org, site, live⟩

private theorem down_follows {id : Text} {verify : VerifyStatus} {tls : TLSStatus}
    (down : ¬ (verify = .verified ∧ tls = .issued)) (sound : Sound config t db) (follows : Follows t db) :
    Follows t (db.updateDomainStatus id verify tls t.orgId) ↔ ¬ TakesBack t db (.poll id verify tls) := by
  constructor
  · intro still back
    obtain ⟨⟨domain, found, live⟩, -⟩ := back
    obtain ⟨mem, same, org⟩ := getDomain_eq_some.mp found
    -- Its host is registered before and after the poll.
    have registered : Registered t db domain.hostname domain.siteId :=
      (follows _ _).mpr ⟨domain, mem, rfl, org, rfl, live⟩
    have recorded := (recorded_down down _ _).mp ((still _ _).mp registered)
    obtain ⟨other, mem', name, -, -, -, apart⟩ := recorded
    exact apart (sound.distinct other mem' domain mem name ▸ same)
  · intro idle host siteId
    refine (follows host siteId).trans ((recorded_down down host siteId).trans ?_).symm
    constructor
    · intro recorded
      obtain ⟨domain, mem, name, org, site, live, -⟩ := recorded
      exact ⟨domain, mem, name, org, site, live⟩
    · intro recorded
      obtain ⟨domain, mem, name, org, site, live⟩ := recorded
      refine ⟨domain, mem, name, org, site, live, ?_⟩
      intro same
      exact idle ⟨⟨domain, getDomain_eq_some.mpr ⟨mem, same, org⟩, live⟩, down⟩

private theorem registered_follows {domain : Domain} {id : Text} (found : db.getDomain id t.orgId = some domain)
    (own : ∀ row, db.hostRoutes.get? domain.hostname = some row → row.orgId = t.orgId)
    (sound : Sound config t db) (follows : Follows t db) :
    Follows t ((db.updateDomainStatus id .verified .issued t.orgId).withCustomHost domain.hostname t.orgId
      domain.siteId) := by
  obtain ⟨mem, same, org⟩ := getDomain_eq_some.mp found
  intro host siteId
  change (∃ row ∈ (Database.withCustomHost _ _ _ _).getHostRoute _ _, _) ↔
    ∃ row ∈ (db.updateDomainStatus id .verified .issued t.orgId).domains.rows, _
  by_cases here : domain.hostname = host
  · subst here
    rw [registered_row (db.updateDomainStatus id .verified .issued t.orgId) domain.siteId own]
    have only : Recorded t (db.updateDomainStatus id .verified .issued t.orgId) domain.hostname siteId ↔
        domain.siteId = siteId := by
      constructor
      · intro recorded
        obtain ⟨row, mem', name, -, site, -⟩ := recorded
        rcases mem_recorded.mp mem' with ⟨old, other⟩ | ⟨old, found', rfl⟩
        · rw [sound.distinct row old domain mem name] at other
          exact absurd ⟨same, org⟩ other
        · rw [found] at found'
          cases found'
          exact site
      · intro site
        exact ⟨_, mem_recorded.mpr (.inr ⟨domain, found, rfl⟩), rfl, org, site, rfl, rfl⟩
    refine Iff.trans ?_ only.symm
    cases (db.updateDomainStatus id .verified .issued t.orgId).getHostRoute domain.hostname t.orgId <;> simp
  · rw [getHostRoute_withCustomHost_ne _ _ _ here]
    refine (follows host siteId).trans ?_
    constructor
    · intro recorded
      obtain ⟨row, mem', name, org', site, live⟩ := recorded
      refine ⟨row, mem_recorded.mpr (.inl ⟨mem', ?_⟩), name, org', site, live⟩
      intro chosen
      have equal : db.getDomain id t.orgId = some row := getDomain_eq_some.mpr ⟨mem', chosen⟩
      rw [found] at equal
      cases equal
      exact here name
    · intro recorded
      obtain ⟨row, mem', name, org', site, live⟩ := recorded
      rcases mem_recorded.mp mem' with ⟨old, -⟩ | ⟨old, found', rfl⟩
      · exact ⟨row, old, name, org', site, live⟩
      · rw [found] at found'
        cases found'
        exact absurd name here

private theorem removed_follows {domain : Domain} {id : Text} (found : db.getDomain id t.orgId = some domain)
    (sound : Sound config t db) (follows : Follows t db) :
    Follows t ((db.deleteDomain id t.orgId).deleteHostRoute domain.hostname t.orgId) := by
  obtain ⟨mem, same, org⟩ := getDomain_eq_some.mp found
  intro host siteId
  unfold Registered
  rw [removed_host]
  have rows (row : Domain) : row ∈ ((db.deleteDomain id t.orgId).deleteHostRoute domain.hostname t.orgId).domains.rows ↔
      row ∈ db.domains.rows ∧ ¬ (row.id = id ∧ row.orgId = t.orgId) := by
    refine Table.mem_delete.trans ?_
    rw [decide_eq_false_iff_not]
  by_cases here : host = domain.hostname
  · subst here
    rw [if_pos rfl]
    refine iff_of_false (fun registered => by obtain ⟨row, absent, -⟩ := registered; cases absent) ?_
    intro recorded
    obtain ⟨row, mem', name, -⟩ := recorded
    obtain ⟨old, other⟩ := (rows row).mp mem'
    rw [sound.distinct row old domain mem name] at other
    exact other ⟨same, org⟩
  · rw [if_neg here]
    refine (follows host siteId).trans ?_
    constructor
    · intro recorded
      obtain ⟨row, mem', name, org', site, live⟩ := recorded
      refine ⟨row, (rows row).mpr ⟨mem', ?_⟩, name, org', site, live⟩
      intro chosen
      have equal : db.getDomain id t.orgId = some row := getDomain_eq_some.mpr ⟨mem', chosen⟩
      rw [found] at equal
      cases equal
      exact here name.symm
    · intro recorded
      obtain ⟨row, mem', name, org', site, live⟩ := recorded
      exact ⟨row, ((rows row).mp mem').1, name, org', site, live⟩

private theorem siteGone_follows (id : Text) (sound : Sound config t db) (follows : Follows t db) :
    Follows t (db.deleteSite id) := by
  intro host siteId
  have hosts : Registered t (db.deleteSite id) host siteId ↔ Registered t db host siteId ∧ siteId ≠ id := by
    unfold Registered
    rw [siteGone_host]
    constructor
    · intro registered
      obtain ⟨row, here, custom, site⟩ := registered
      obtain ⟨was, kept⟩ := Option.filter_eq_some_iff.mp here
      refine ⟨⟨row, was, custom, site⟩, ?_⟩
      rintro rfl
      rw [decide_eq_true site, Bool.true_or] at kept
      cases kept
    · intro registered
      obtain ⟨⟨row, was, custom, site⟩, other⟩ := registered
      refine ⟨row, Option.filter_eq_some_iff.mpr ⟨was, ?_⟩, custom, site⟩
      have pin := sound.unpinned host row was custom
      rw [Database.pinsVersionOf, pin, decide_eq_false (site ▸ other)]
      rfl
  have domains : Recorded t (db.deleteSite id) host siteId ↔ Recorded t db host siteId ∧ siteId ≠ id := by
    have rows (row : Domain) : row ∈ (db.deleteSite id).domains.rows ↔ row ∈ db.domains.rows ∧ row.siteId ≠ id := by
      refine Table.mem_delete.trans ?_
      rw [decide_eq_false_iff_not]
    constructor
    · intro recorded
      obtain ⟨row, mem, name, org, site, live⟩ := recorded
      obtain ⟨old, other⟩ := (rows row).mp mem
      exact ⟨⟨row, old, name, org, site, live⟩, site ▸ other⟩
    · intro recorded
      obtain ⟨⟨row, mem, name, org, site, live⟩, other⟩ := recorded
      exact ⟨row, (rows row).mpr ⟨mem, site ▸ other⟩, name, org, site, live⟩
  rw [hosts, domains, follows host siteId]

private theorem reserved_follows {domain : Domain} (pending : ¬ domain.Live)
    (new : ∀ row ∈ db.domains.rows, row.id ≠ domain.id ∧ row.hostname ≠ domain.hostname) (follows : Follows t db) :
    Follows t { db with domains := db.domains.upsert domain id } := by
  have rows (row : Domain) : row ∈ (db.domains.upsert domain id).rows ↔ row ∈ db.domains.rows ∨ row = domain :=
    mem_reserved fun row mem => (new row mem).1
  intro host siteId
  refine (follows host siteId).trans ?_
  constructor
  · intro recorded
    obtain ⟨row, mem, rest⟩ := recorded
    exact ⟨row, (rows row).mpr (.inl mem), rest⟩
  · intro recorded
    obtain ⟨row, mem, name, org, site, live⟩ := recorded
    rcases (rows row).mp mem with old | rfl
    · exact ⟨row, old, name, org, site, live⟩
    · exact absurd live pending

/-- One call: the registry follows, unless a poll takes a live status back. -/
theorem Effect.follows {call : DomainCall} (effect : Effect config t db call after) (sound : Sound config t db)
    (follows : Follows t db) : Follows t after ↔ ¬ TakesBack t db call := by
  cases effect with
  | unchanged idle => exact iff_of_true follows idle
  | reserved own pending outside new => exact iff_of_true (reserved_follows pending new follows) not_false
  | recorded down => exact down_follows down sound follows
  | registered found own => exact iff_of_true (registered_follows found own sound follows) fun back => back.2 ⟨rfl, rfl⟩
  | removed found => exact iff_of_true (removed_follows found sound follows) not_false
  | siteGone id => exact iff_of_true (siteGone_follows id sound follows) not_false

/-- A name outside the content domain is no host of the platform, in any org's hands. -/
private theorem custom_of_outside (sound : Sound config t db) {row : HostRoute} (mem : row ∈ db.hostRoutes.rows)
    (own : row.orgId = t.orgId) (outside : ¬ Under config row.host) : row.kind = .custom := by
  by_contra platform
  exact outside (sound.platform row.host row (getHostRoute_eq_some.mpr ⟨mem, rfl, own⟩) platform)

theorem Effect.keepsPlatform {call : DomainCall} (effect : Effect config t db call after) (sound : Sound config t db)
    (onDomain : OnDomain call) : KeepsPlatform db after := by
  intro row mem platform
  cases effect with
  | unchanged | reserved | recorded => exact mem
  | @registered domain id found own =>
    obtain ⟨mem', -, org⟩ := getDomain_eq_some.mp found
    refine Table.mem_iff_get?.mpr ((Table.get?_upsert _).trans ?_)
    rw [if_neg]
    · exact Table.mem_iff_get?.mp mem
    · intro same
      have name : domain.hostname = row.host := same
      have outside := sound.outside domain mem' org
      rw [name] at own outside
      exact platform (custom_of_outside sound mem (own row (Table.mem_iff_get?.mp mem)) outside)
  | @removed domain id found =>
    obtain ⟨mem', -, org⟩ := getDomain_eq_some.mp found
    refine Table.mem_delete.mpr ⟨mem, decide_eq_false ?_⟩
    intro gone
    have outside := sound.outside domain mem' org
    rw [← gone.1] at outside
    exact platform (custom_of_outside sound mem gone.2 outside)
  | siteGone => exact onDomain.elim

/-! ### Runs -/

theorem sound_after (sound : Sound config t db) (calls : List DomainCall) :
    Sound config t (afterCalls config allows t db calls) := by
  induction calls generalizing db with
  | nil => exact sound
  | cons call rest ih => exact ih ((run_effect call).sound sound)

theorem afterCalls_concat (calls : List DomainCall) (call : DomainCall) :
    afterCalls config allows t db (calls ++ [call]) = call.run config allows t (afterCalls config allows t db calls) := by
  unfold afterCalls
  rw [List.foldl_append]
  rfl

variable {calls : List DomainCall}

/-- The registry follows the recorded statuses in every state of a run exactly if no
poll of the run takes back a live status. -/
theorem registry_follows (sound : Sound config t db) (follows : Follows t db) :
    ((∀ done, done <+: calls → Follows t (afterCalls config allows t db done)) ↔
      ∀ done call, done ++ [call] <+: calls → ¬ TakesBack t (afterCalls config allows t db done) call) ∧
    ∀ done call, done ++ [call] <+: calls → OnDomain call →
      KeepsPlatform (afterCalls config allows t db done) (afterCalls config allows t db (done ++ [call])) := by
  have step (done : List DomainCall) (call : DomainCall) :
      Effect config t (afterCalls config allows t db done) call (afterCalls config allows t db (done ++ [call])) := by
    rw [afterCalls_concat]
    exact run_effect call
  have before {done : List DomainCall} {call : DomainCall} (inside : done ++ [call] <+: calls) : done <+: calls :=
    (List.prefix_append done [call]).trans inside
  refine ⟨⟨?_, ?_⟩, ?_⟩
  · intro always done call inside
    exact ((step done call).follows (sound_after sound done) (always done (before inside))).mp (always _ inside)
  · intro never done
    induction done using List.reverseRecOn with
    | nil => exact fun _ => follows
    | append_singleton done call ih =>
      intro inside
      exact ((step done call).follows (sound_after sound done) (ih (before inside))).mpr (never done call inside)
  · intro done call _ onDomain
    exact (step done call).keepsPlatform (sound_after sound done) onDomain

/-! A site with its own host, and a domain for it. -/

def shopConfig : Config := ⟨"c.d".toList⟩
def shopTenant : Tenant := ⟨['o'], ['u']⟩

def shopDatabase : Database where
  organizations := .empty
  orgMeta := .empty
  sites := .singleton ⟨['s'], ['o'], ['b'], .public, none⟩
  siteVersions := .empty
  policies := .empty
  allowlist := .empty
  hostRoutes := .singleton ⟨hostForSite "c.d".toList ['a'] ['b'], ['o'], ['s'], .canonical, none, none⟩
  chatLogs := .empty
  domains := .empty

def addShop : DomainCall := .add ⟨['s'], "x.y".toList⟩ (some ['h']) ['d']

theorem shop_sound : Sound shopConfig shopTenant shopDatabase where
  platform host row here _ := by
    obtain ⟨mem, rfl, -⟩ := getHostRoute_eq_some.mp here
    rw [List.mem_singleton.mp mem]
    exact ⟨"a--b".toList, rfl⟩
  outside domain mem := (by cases mem)
  distinct domain mem := (by cases mem)
  unpinned host row here custom := by
    obtain ⟨mem, -, -⟩ := getHostRoute_eq_some.mp here
    rw [List.mem_singleton.mp mem] at custom
    cases custom

theorem shop_follows : Follows shopTenant shopDatabase := by
  intro host siteId
  refine iff_of_false ?_ ?_
  · intro registered
    obtain ⟨row, here, custom, -⟩ := registered
    obtain ⟨mem, -, -⟩ := getHostRoute_eq_some.mp here
    rw [List.mem_singleton.mp mem] at custom
    cases custom
  · intro recorded
    obtain ⟨domain, mem, -⟩ := recorded
    cases mem

theorem verified_run_follows :
    Follows shopTenant (afterCalls shopConfig (fun _ => true) shopTenant shopDatabase
      [addShop, .poll ['d'] .verified .issued]) := by
  refine (registry_follows shop_sound shop_follows).1.mpr ?_ _ (List.prefix_refl _)
  intro done call inside back
  have mem : call ∈ [addShop, .poll ['d'] .verified .issued] :=
    inside.subset (List.mem_append_right _ (List.mem_singleton_self _))
  rcases List.mem_pair.mp mem with rfl | rfl
  · exact back
  · exact back.2 ⟨rfl, rfl⟩

/-- The certificate is issued, the host registered, and then the provider reports a
failure: the host stays. -/
theorem failed_domain_registered :
    Sound shopConfig shopTenant shopDatabase ∧ Follows shopTenant shopDatabase ∧
    ¬ Follows shopTenant (afterCalls shopConfig (fun _ => true) shopTenant shopDatabase
      [addShop, .poll ['d'] .verified .issued, .poll ['d'] .failed .failed]) := by
  refine ⟨shop_sound, shop_follows, ?_⟩
  intro follows
  have rows : (afterCalls shopConfig (fun _ => true) shopTenant shopDatabase
      [addShop, .poll ['d'] .verified .issued, .poll ['d'] .failed .failed]).domains.rows =
      [⟨['d'], ['o'], ['s'], "x.y".toList, .failed, .failed, some ['h']⟩] := by decide +kernel
  have host : (afterCalls shopConfig (fun _ => true) shopTenant shopDatabase
      [addShop, .poll ['d'] .verified .issued, .poll ['d'] .failed .failed]).getHostRoute "x.y".toList ['o'] =
      some ⟨"x.y".toList, ['o'], ['s'], .custom, none, none⟩ := by decide +kernel
  obtain ⟨domain, mem, -, -, -, live⟩ := (follows "x.y".toList ['s']).mp ⟨_, host, rfl, rfl⟩
  rw [rows] at mem
  rw [List.mem_singleton.mp mem] at live
  cases live.1

end DomainRegistry
end Dropway.Api
