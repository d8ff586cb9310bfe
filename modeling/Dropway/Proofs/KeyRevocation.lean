import Dropway.Api.ApiKeys

/-! How long a key that should not be let through any more still is. The API asks the
database on every request; an MCP server remembers what the API told it, so it is late by
the time to live of its map, on top of the time that one answer may take. -/

namespace Dropway.Api
open Lib
open ReadCommitted (Session State)

variable {config : KeyConfig} {store after : KeyStore} {input : KeyInput} {request later : KeyRequest}
  {effect : Effect KeyChange KeyLock} {session other : Session KeyChange KeyRequest}

/-! ### Steps -/

/-- What a request has written so far. -/
def KeyRequest.written : KeyRequest → List KeyChange
  | .auditCreate _ row _ => [.insert row]
  | .commitCreate t row _ => [.insert row, .audit (auditOf t .create row)]
  | .auditRevoke t row revokedAt => [.revoke row.id revokedAt t.userId]
  | .commitRevoke t row revokedAt => [.revoke row.id revokedAt t.userId, .audit (auditOf t .revoke row)]
  | _ => []

/-- What a request that presents a key can do next. -/
inductive Admits (config : KeyConfig) (store : KeyStore) : KeyRequest → Effect KeyChange KeyLock → KeyRequest → Prop
  | cached {n : Nat} {secret : Bytes} {tenant : Tenant}
      (fresh : (store.caches n).fresh (config.hash secret) store.now = some tenant) :
      Admits config store (.authenticate (.mcp n) secret) (.read []) (.accepted ⟨.mcp n, secret, store.now⟩ tenant store.now)
  | asks {presented : Presented} {secret : Bytes} :
      Admits config store (.authenticate presented secret) (.read []) (.resolve ⟨presented, secret, store.now⟩)
  | resolves {call : KeyCall} {p : APIKeyPrincipal} (found : store.resolveAPIKey (config.hash call.secret) = some p) :
      Admits config store (.resolve call) (.read []) (.liveness call p)
  | lives {call : KeyCall} {p : APIKeyPrincipal} (live : p.live store.now = true) :
      Admits config store (.liveness call p) (.read []) (.memberRole call p)
  | member {call : KeyCall} {p : APIKeyPrincipal} (role : store.liveRole config p.orgId p.createdBy ≠ none)
      (direct : call.presented = .api) :
      Admits config store (.memberRole call p) (.read []) (.accepted call ⟨p.orgId, p.createdBy⟩ store.now)
  | answers {call : KeyCall} {p : APIKeyPrincipal} (role : store.liveRole config p.orgId p.createdBy ≠ none) :
      Admits config store (.memberRole call p) (.read []) (.answered call ⟨p.orgId, p.createdBy⟩)
  | hears {call : KeyCall} {tenant : Tenant} : Admits config store (.answered call tenant) (.read []) (.keep call tenant)
  | keeps {call : KeyCall} {tenant : Tenant} {n : Nat} (asked : call.presented = .mcp n) :
      Admits config store (.keep call tenant) (.outside (.cache n (config.hash call.secret) tenant))
        (.accepted call tenant store.now)
  | rejects {request : KeyRequest} {call : KeyCall} (idle : request.written = []) :
      Admits config store request (.read []) (.rejected call)

private theorem admit_cases (stepped : request.letIn config input store = some (effect, later)) :
    Admits config store request effect later := by
  cases request with
  | authenticate presented secret =>
    cases presented with
    | api =>
      cases stepped
      exact .asks
    | mcp n =>
      simp only [KeyRequest.letIn] at stepped
      split at stepped
      · cases stepped
        exact .rejects rfl
      split at stepped
      · cases stepped
        exact .cached ‹_›
      · cases stepped
        exact .asks
  | resolve call =>
    simp only [KeyRequest.letIn] at stepped
    split at stepped
    · cases stepped
      exact .rejects rfl
    split at stepped
    · cases stepped
      exact .resolves ‹_›
    · cases stepped
      exact .rejects rfl
  | liveness call p =>
    simp only [KeyRequest.letIn] at stepped
    split at stepped
    · cases stepped
      exact .rejects rfl
    · rename_i passes
      cases stepped
      have live := (not_or.mp passes).2
      rw [Bool.not_eq_true', Bool.not_eq_false] at live
      exact .lives live
  | memberRole call p =>
    simp only [KeyRequest.letIn] at stepped
    split at stepped
    · cases stepped
      exact .rejects rfl
    · rename_i passes
      have role := (not_or.mp passes).2
      split at stepped
      · cases stepped
        exact .member role ‹_›
      · cases stepped
        exact .answers role
  | answered call tenant =>
    simp only [KeyRequest.letIn] at stepped
    split at stepped
    · cases stepped
      exact .rejects rfl
    · cases stepped
      exact .hears
  | keep call tenant =>
    simp only [KeyRequest.letIn] at stepped
    split at stepped
    · cases stepped
      exact .keeps ‹_›
    · cases stepped
  | _ => cases stepped

/-- What a request that creates or revokes a key can do next. -/
inductive Manages (config : KeyConfig) (store : KeyStore) : KeyRequest → Effect KeyChange KeyLock → KeyRequest → Prop
  | refuses {t : Tenant} {text : Text} {request : KeyRequest}
      (first : request = .createAPIKey t text ∨ request = .revokeAPIKey t text) : Manages config store request (.read []) .failed
  | fails {request : KeyRequest} : Manages config store request .rollback .failed
  | names {t : Tenant} {name kept : Text} {secret : Bytes} :
      Manages config store (.createAPIKey t name) (.read []) (.insertAPIKey t kept secret)
  | inserts {t : Tenant} {name : Text} {secret : Bytes} {row : APIKeyRow} (whose : row.orgId = t.orgId ∧ row.createdBy = t.userId)
      (live : row.revokedAt = none ∧ row.revokedBy = none) (fresh : ∀ other ∈ store.apiKeys, other.id ≠ row.id) :
      Manages config store (.insertAPIKey t name secret) (.write (.insert row)) (.auditCreate t row secret)
  | auditsCreate {t : Tenant} {row : APIKeyRow} {secret : Bytes} :
      Manages config store (.auditCreate t row secret) (.write (.audit (auditOf t .create row))) (.commitCreate t row secret)
  | creates {t : Tenant} {row : APIKeyRow} {secret : Bytes} :
      Manages config store (.commitCreate t row secret) .commit (.created row secret)
  | begins {t : Tenant} {id : Text} : Manages config store (.revokeAPIKey t id) (.read []) (.updateAPIKey t id store.now)
  | updates {t : Tenant} {id : Text} {began : Instant} {row : APIKeyRow} (mem : row ∈ store.apiKeys)
      (whose : row.id = id ∧ row.orgId = t.orgId) (live : row.revokedAt = none) :
      Manages config store (.updateAPIKey t id began) (.write (.revoke id (.ofTime began) t.userId))
        (.auditRevoke t row (.ofTime began))
  | misses {t : Tenant} {id : Text} {began : Instant} :
      Manages config store (.updateAPIKey t id began) (.read []) (.getAPIKey t id)
  | sees {t : Tenant} {id : Text} {row : APIKeyRow} : Manages config store (.getAPIKey t id) (.read []) (.commitSeen row)
  | seen {row : APIKeyRow} : Manages config store (.commitSeen row) .commit (.revoked row)
  | auditsRevoke {t : Tenant} {row : APIKeyRow} {revokedAt : Timestamptz} :
      Manages config store (.auditRevoke t row revokedAt) (.write (.audit (auditOf t .revoke row))) (.commitRevoke t row revokedAt)
  | revokes {t : Tenant} {row : APIKeyRow} {revokedAt : Timestamptz} :
      Manages config store (.commitRevoke t row revokedAt) .commit (.revoked (row.revokedRow t revokedAt))

private theorem manage_cases (stepped : request.manage config input store = some (effect, later)) :
    Manages config store request effect later := by
  cases request with
  | createAPIKey t name =>
    simp only [KeyRequest.manage] at stepped
    split at stepped
    · split at stepped
      · cases stepped
        exact .names
      · cases stepped
        exact .refuses (.inl rfl)
    · cases stepped
      exact .refuses (.inl rfl)
  | insertAPIKey t name secret =>
    simp only [KeyRequest.manage] at stepped
    split at stepped
    · cases stepped
      exact .fails
    · rename_i passes
      cases stepped
      refine .inserts ⟨rfl, rfl⟩ ⟨rfl, rfl⟩ fun other mem same => passes (.inr (.inr ?_))
      exact List.any_eq_true.mpr ⟨other, mem, decide_eq_true (.inl same)⟩
  | auditCreate t row secret =>
    simp only [KeyRequest.manage] at stepped
    split at stepped
    · cases stepped
      exact .fails
    · cases stepped
      exact .auditsCreate
  | commitCreate t row secret =>
    simp only [KeyRequest.manage] at stepped
    split at stepped
    · cases stepped
      exact .fails
    · cases stepped
      exact .creates
  | revokeAPIKey t id =>
    simp only [KeyRequest.manage] at stepped
    split at stepped
    · cases stepped
      exact .begins
    · cases stepped
      exact .refuses (.inr rfl)
  | updateAPIKey t id began =>
    simp only [KeyRequest.manage] at stepped
    split at stepped
    · cases stepped
      exact .fails
    split at stepped
    · rename_i row found
      cases stepped
      have inside := List.find?_some found
      obtain ⟨same, whose, live⟩ : row.id = id ∧ row.orgId = t.orgId ∧ row.revokedAt = none := of_decide_eq_true inside
      exact .updates (List.mem_of_find?_eq_some found) ⟨same, whose⟩ live
    · cases stepped
      exact .misses
  | getAPIKey t id =>
    simp only [KeyRequest.manage] at stepped
    split at stepped
    · split at stepped
      · cases stepped
        exact .fails
      · cases stepped
        exact .sees
    · cases stepped
      exact .fails
  | commitSeen row =>
    simp only [KeyRequest.manage] at stepped
    split at stepped
    · cases stepped
      exact .fails
    · cases stepped
      exact .seen
  | auditRevoke t row revokedAt =>
    simp only [KeyRequest.manage] at stepped
    split at stepped
    · cases stepped
      exact .fails
    · cases stepped
      exact .auditsRevoke
  | commitRevoke t row revokedAt =>
    simp only [KeyRequest.manage] at stepped
    split at stepped
    · cases stepped
      exact .fails
    · cases stepped
      exact .revokes
  | _ => cases stepped

/-- Every step is one of these. -/
theorem key_step (stepped : (keyServer config).next input request store = some (effect, later)) :
    (request = .clock ∧ later = .clock ∧ effect = .outside (.passing input.later)) ∨
    (∃ change, request = .administer change ∧ later = .administered ∧ effect = .outside (.administer change)) ∨
    Manages config store request effect later ∨ Admits config store request effect later := by
  have general : request ≠ .clock → (∀ change, request ≠ .administer change) →
      Manages config store request effect later ∨ Admits config store request effect later := by
    intro noClock noAdmin
    have split : (request.manage config input store).or (request.letIn config input store) = some (effect, later) := by
      rw [← stepped]
      cases request with
      | clock => exact absurd rfl noClock
      | administer change => exact absurd rfl (noAdmin change)
      | _ => rfl
    rcases Option.or_eq_some_iff.mp split with managed | ⟨-, admitted⟩
    · exact .inl (manage_cases managed)
    · exact .inr (admit_cases admitted)
  cases request with
  | clock =>
    cases stepped
    exact .inl ⟨rfl, rfl, rfl⟩
  | administer change =>
    cases stepped
    exact .inr (.inl ⟨change, rfl, rfl, rfl⟩)
  | _ => exact .inr (.inr (general (by intro same; cases same) (by intro change same; cases same)))

/-! ### What only grows -/

/-- A key that is there stays what it is, except that it may be revoked. -/
structure Grows (store after : KeyStore) : Prop where
  time : store.now ≤ after.now
  keys : ∀ h row, store.rowOf h = some row → ∃ row', after.rowOf h = some row' ∧
    row'.orgId = row.orgId ∧ row'.createdBy = row.createdBy ∧ (row.revokedAt ≠ none → row'.revokedAt ≠ none)

theorem Grows.refl : Grows store store :=
  ⟨Int.le_refl _, fun _ row found => ⟨row, found, rfl, rfl, id⟩⟩

theorem Grows.trans {last : KeyStore} (first : Grows store after) (second : Grows after last) : Grows store last := by
  refine ⟨Int.le_trans first.time second.time, fun h row found => ?_⟩
  obtain ⟨row', found', org', creator', revoked'⟩ := first.keys h row found
  obtain ⟨row'', found'', org'', creator'', revoked''⟩ := second.keys h row' found'
  exact ⟨row'', found'', org''.trans org', creator''.trans creator', revoked'' ∘ revoked'⟩

private theorem Grows.of_keys (time : store.now ≤ after.now) (same : after.apiKeys = store.apiKeys) : Grows store after := by
  refine ⟨time, fun h row found => ⟨row, ?_, rfl, rfl, id⟩⟩
  rw [KeyStore.rowOf, same]
  exact found

theorem grows_apply (change : KeyChange) : Grows store ((keyServer config).apply change store) := by
  cases change with
  | insert row =>
    refine ⟨Int.le_refl _, fun h old found => ⟨old, ?_, rfl, rfl, id⟩⟩
    exact List.find?_append.trans (by rw [show store.apiKeys.find? (·.keyHash = h) = some old from found]; rfl)
  | revoke id revokedAt revokedBy =>
    refine ⟨Int.le_refl _, fun h old found => ?_⟩
    let revoke (row : APIKeyRow) : APIKeyRow :=
      if row.id = id then { row with revokedAt := some revokedAt, revokedBy := some revokedBy } else row
    have hashes (row : APIKeyRow) : (revoke row).keyHash = row.keyHash := by
      simp only [revoke]
      split
      · rfl
      · rfl
    have mapped : (store.apiKeys.map revoke).find? (·.keyHash = h) = (store.apiKeys.find? (·.keyHash = h)).map revoke := by
      rw [List.find?_map]
      congr 2
      funext row
      simp only [Function.comp_apply, hashes]
    have found' : store.apiKeys.find? (·.keyHash = h) = some old := found
    refine ⟨revoke old, ?_, ?_⟩
    · exact mapped.trans (by rw [found']; rfl)
    · simp only [revoke]
      split
      · exact ⟨rfl, rfl, fun _ => Option.some_ne_none _⟩
      · exact ⟨rfl, rfl, fun was => was⟩
  | audit entry => exact .of_keys (Int.le_refl _) rfl
  | administer change =>
    cases change with
    | orgMeta id org => exact .of_keys (Int.le_refl _) rfl
    | member orgId userId role => exact .of_keys (Int.le_refl _) rfl
  | cache n hash tenant => exact .of_keys (Int.le_refl _) rfl
  | passing later => exact .of_keys (Int.le_max_left _ _) rfl

theorem grows_applyAll (changes : List KeyChange) : Grows store ((keyServer config).applyAll changes store) := by
  induction changes generalizing store with
  | nil => exact .refl
  | cons change changes ih => exact (grows_apply change).trans ih

theorem grows_store (pending : List KeyChange) : Grows store ((keyServer config).store store pending effect) := by
  cases effect with
  | commit => exact grows_applyAll pending
  | outside change => exact grows_apply change
  | read keys => exact .refl
  | write change => exact .refl
  | rollback => exact .refl

/-- The tenant that a key with this hash acts as. -/
def Belongs (store : KeyStore) (h : Text) (tenant : Tenant) : Prop :=
  ∃ row, store.rowOf h = some row ∧ tenant = ⟨row.orgId, row.createdBy⟩

theorem Belongs.grows {h : Text} {tenant : Tenant} (belongs : Belongs store h tenant) (grows : Grows store after) :
    Belongs after h tenant := by
  obtain ⟨row, found, rfl⟩ := belongs
  obtain ⟨row', found', org, creator, -⟩ := grows.keys h row found
  exact ⟨row', found', by rw [org, creator]⟩

private theorem resolved_belongs {h : Text} {p : APIKeyPrincipal} (found : store.resolveAPIKey h = some p) :
    Belongs store h ⟨p.orgId, p.createdBy⟩ := by
  obtain ⟨row, here, found⟩ := Option.bind_eq_some_iff.mp found
  obtain ⟨org, -, rfl⟩ := Option.map_eq_some_iff.mp found
  exact ⟨row, here, rfl⟩

/-! ### What is remembered -/

variable (config)

/-- Nothing is remembered for longer than the time to live, nor for another tenant. -/
def Remembered (store : KeyStore) : Prop :=
  ∀ n h cached, (h, cached) ∈ store.caches n → cached.expires ≤ store.now + config.cacheTTL ∧ Belongs store h cached.tenant

/-- What holds of a request that presents a key. -/
def KeyRequest.Placed (store : KeyStore) : KeyRequest → Prop
  | .resolve call => call.started ≤ store.now
  | .liveness call p => call.started ≤ store.now ∧ Belongs store (config.hash call.secret) ⟨p.orgId, p.createdBy⟩
  | .memberRole call p => call.started ≤ store.now ∧ Belongs store (config.hash call.secret) ⟨p.orgId, p.createdBy⟩
  | .answered call tenant => call.started ≤ store.now ∧ Belongs store (config.hash call.secret) tenant
  | .keep call tenant => call.started ≤ store.now ∧ Belongs store (config.hash call.secret) tenant
  | .accepted call tenant acceptedAt => acceptedAt ≤ store.now ∧ Belongs store (config.hash call.secret) tenant
  | _ => True

variable {config}

theorem KeyRequest.Placed.grows (placed : request.Placed config store) (grows : Grows store after) :
    request.Placed config after := by
  have time := grows.time
  cases request with
  | resolve call => exact Int.le_trans placed time
  | liveness call p => exact ⟨Int.le_trans placed.1 time, placed.2.grows grows⟩
  | memberRole call p => exact ⟨Int.le_trans placed.1 time, placed.2.grows grows⟩
  | answered call tenant => exact ⟨Int.le_trans placed.1 time, placed.2.grows grows⟩
  | keep call tenant => exact ⟨Int.le_trans placed.1 time, placed.2.grows grows⟩
  | accepted call tenant acceptedAt => exact ⟨Int.le_trans placed.1 time, placed.2.grows grows⟩
  | _ => trivial

private theorem mem_keep {cache : Mcp.KeyCache} {hash : Text} {tenant : Tenant} {ttl now : Instant} {entry : Text × Mcp.CachedKey}
    (mem : entry ∈ cache.keep hash tenant ttl now) : entry ∈ cache ∨ entry = (hash, ⟨tenant, now + ttl⟩) := by
  simp only [Mcp.KeyCache.keep] at mem
  have inside : entry ∈ cache.filter (·.1 ≠ hash) ++ [(hash, ⟨tenant, now + ttl⟩)] := by
    split at mem
    · exact (List.mem_filter.mp mem).1
    · exact mem
  rcases List.mem_append.mp inside with old | new
  · exact .inl (List.mem_filter.mp old).1
  · exact .inr (List.mem_singleton.mp new)

/-- Only the cache of one server changes, by one entry. -/
private theorem mem_cached {n m : Nat} {hash h : Text} {tenant : Tenant} {cached : Mcp.CachedKey}
    (mem : (h, cached) ∈ ((keyServer config).apply (.cache n hash tenant) store).caches m) :
    (h, cached) ∈ store.caches m ∨ (h = hash ∧ cached = ⟨tenant, store.now + config.cacheTTL⟩) := by
  have here : (h, cached) ∈ Function.update store.caches n ((store.caches n).keep hash tenant config.cacheTTL store.now) m := mem
  rw [Function.update_apply] at here
  by_cases own : m = n
  · rw [if_pos own] at here
    rcases mem_keep here with old | new
    · exact .inl (own ▸ old)
    · cases new
      exact .inr ⟨rfl, rfl⟩
  · rw [if_neg own] at here
    exact .inl here

private theorem caches_applyAll (request : KeyRequest) :
    ((keyServer config).applyAll request.written store).caches = store.caches ∧
      ((keyServer config).applyAll request.written store).now = store.now := by
  cases request with
  | _ => exact ⟨rfl, rfl⟩

private theorem fresh_mem {cache : Mcp.KeyCache} {hash : Text} {now : Instant} {tenant : Tenant}
    (fresh : cache.fresh hash now = some tenant) :
    ∃ cached, (hash, cached) ∈ cache ∧ now < cached.expires ∧ cached.tenant = tenant := by
  obtain ⟨⟨key, cached⟩, found, rfl⟩ := Option.map_eq_some_iff.mp fresh
  obtain ⟨found, early⟩ := Option.filter_eq_some_iff.mp found
  have here := List.find?_some found
  have same : key = hash := of_decide_eq_true here
  exact ⟨cached, same ▸ List.mem_of_find?_eq_some found, of_decide_eq_true early, rfl⟩

/-! ### The invariant -/

private def Kept (config : KeyConfig) (store : KeyStore) (session : Session KeyChange KeyRequest) : Prop :=
  session.pending = session.position.written ∧ session.position.Placed config store

private theorem manages_written {changes : List KeyChange} (managed : Manages config store request effect later)
    (written : changes = request.written) : Server.pending changes effect = later.written := by
  subst written
  cases managed with
  | refuses first => rcases first with rfl | rfl <;> rfl
  | updates mem whose live =>
    obtain ⟨rfl, -⟩ := whose
    rfl
  | _ => rfl

private theorem Admits.idle (admitted : Admits config store request effect later) : request.written = [] := by
  cases admitted with
  | rejects idle => exact idle
  | _ => rfl

private theorem admits_written {changes : List KeyChange} (admitted : Admits config store request effect later)
    (written : changes = request.written) : Server.pending changes effect = later.written := by
  have nothing := written.trans admitted.idle
  cases admitted with
  | _ => exact nothing

/-- A step, from what its request has written. -/
theorem step_cases (written : session.pending = session.position.written)
    (stepped : (keyServer config).next input session.position ((keyServer config).view store session) = some (effect, later)) :
    Server.pending session.pending effect = later.written ∧
    ((session.position = .clock ∧ later = .clock ∧ effect = .outside (.passing input.later)) ∨
      (∃ change, session.position = .administer change ∧ later = .administered ∧ effect = .outside (.administer change)) ∨
      Manages config ((keyServer config).view store session) session.position effect later ∨
      Admits config store session.position effect later) := by
  rcases key_step stepped with ⟨here, rfl, rfl⟩ | ⟨change, here, rfl, rfl⟩ | managed | admitted
  · rw [here] at written
    exact ⟨written, .inl ⟨here, rfl, rfl⟩⟩
  · rw [here] at written
    exact ⟨written, .inr (.inl ⟨change, here, rfl, rfl⟩)⟩
  · exact ⟨manages_written managed written, .inr (.inr (.inl managed))⟩
  · have same : (keyServer config).view store session = store := by
      rw [Server.view, written, admitted.idle]
      rfl
    rw [same] at admitted
    exact ⟨admits_written admitted written, .inr (.inr (.inr admitted))⟩

/-- What a step does to the caches is to keep a key for a server that asked. -/
private theorem step_caches (kept : Kept config store session)
    (stepped : (keyServer config).next input session.position ((keyServer config).view store session) = some (effect, later))
    {n : Nat} {h : Text} {cached : Mcp.CachedKey}
    (mem : (h, cached) ∈ ((keyServer config).store store session.pending effect).caches n) :
    (h, cached) ∈ store.caches n ∨ ∃ call tenant, session.position = .keep call tenant ∧
      config.hash call.secret = h ∧ cached = ⟨tenant, store.now + config.cacheTTL⟩ := by
  obtain ⟨-, ⟨-, -, rfl⟩ | ⟨change, -, -, rfl⟩ | managed | admitted⟩ := step_cases kept.1 stepped
  · exact .inl mem
  · cases change with
    | orgMeta id org => exact .inl mem
    | member orgId userId role => exact .inl mem
  · left
    have commits : ((keyServer config).store store session.pending .commit).caches = store.caches := by
      rw [kept.1]
      exact (caches_applyAll session.position).1
    generalize session.position = request at managed
    cases managed with
    | creates => exact commits ▸ mem
    | seen => exact commits ▸ mem
    | revokes => exact commits ▸ mem
    | _ => exact mem
  · generalize session.position = request at admitted
    cases admitted with
    | keeps asked =>
      rcases mem_cached mem with old | ⟨rfl, rfl⟩
      · exact .inl old
      · exact .inr ⟨_, _, rfl, rfl, rfl⟩
    | _ => exact .inl mem

private theorem step_placed (kept : Kept config store session)
    (remembered : Remembered config store)
    (stepped : (keyServer config).next input session.position ((keyServer config).view store session) = some (effect, later)) :
    later.Placed config store := by
  have placed := kept.2
  obtain ⟨-, ⟨-, rfl, -⟩ | ⟨change, -, rfl, -⟩ | managed | admitted⟩ := step_cases kept.1 stepped
  · trivial
  · trivial
  · generalize session.position = request at managed
    cases managed with
    | _ => trivial
  · generalize session.position = request at admitted placed
    cases admitted with
    | cached fresh =>
      obtain ⟨cached, mem, -, rfl⟩ := fresh_mem fresh
      exact ⟨Int.le_refl _, (remembered _ _ _ mem).2⟩
    | asks => exact Int.le_refl _
    | resolves found => exact ⟨placed, resolved_belongs found⟩
    | lives live => exact placed
    | member role direct => exact ⟨Int.le_refl _, placed.2⟩
    | answers role => exact placed
    | hears => exact placed
    | keeps asked => exact ⟨Int.le_refl _, placed.2⟩
    | rejects idle => trivial

/-- What the servers remember, and what requests know, stays right. -/
theorem keys_discipline (fits : KeyStore → Session KeyChange KeyRequest → Prop) :
    (keyServer config).Discipline (Remembered config) (Kept config) fits fun _ _ _ => True where
  arrives := by
    intro store position _ starts
    cases starts with
    | _ => exact ⟨rfl, trivial⟩
  store := by
    intro store session input effect later remembered kept _ stepped n h cached mem
    have grows : Grows store ((keyServer config).store store session.pending effect) := grows_store _
    rcases step_caches kept stepped mem with old | ⟨call, tenant, here, rfl, rfl⟩
    · obtain ⟨expires, belongs⟩ := remembered n h cached old
      exact ⟨Int.le_trans expires (Int.add_le_add_right grows.time _), belongs.grows grows⟩
    · have placed := kept.2
      rw [here] at placed
      exact ⟨Int.add_le_add_right grows.time _, placed.2.grows grows⟩
  request := by
    intro store session input effect later remembered kept _ stepped
    exact ⟨(step_cases kept.1 stepped).1, (step_placed kept remembered stepped).grows (grows_store _)⟩
  others := by
    intro store session other input effect later _ kept _ _ _ _ _ _
    exact ⟨kept.1, kept.2.grows (grows_store _)⟩

/-! ### Keys that should not be let through -/

/-- Why a key should not be: it was revoked, has expired, or its org is suspended or has
switched keys off; or else its creator has left. -/
inductive Reason where
  | unusable
  | departed

def Dead (config : KeyConfig) (reason : Reason) (h : Text) (store : KeyStore) : Prop :=
  match reason with
  | .unusable => ∀ p, store.resolveAPIKey h = some p → p.live store.now = false
  | .departed => ∀ row, store.rowOf h = some row → store.liveRole config row.orgId row.createdBy = none

/-- The call that is being worked on. -/
def KeyRequest.call : KeyRequest → Option KeyCall
  | .resolve call | .liveness call _ | .memberRole call _ | .answered call _ | .keep call _ => some call
  | _ => none

/-- A call that is worked on has been under way for no longer than `d`. -/
def Timely (d : Instant) (store : KeyStore) (session : Session KeyChange KeyRequest) : Prop :=
  ∀ call, session.position.call = some call → store.now ≤ call.started + d

/-- Until when a key is let through that is dead from `since` on. -/
def limit (config : KeyConfig) (d since : Instant) : Presented → Instant
  | .api => since + d
  | .mcp _ => since + d + config.cacheTTL

section Fading

variable (config : KeyConfig) (reason : Reason) (h : Text) (d since : Instant)

/-- What is remembered of the key is from before. -/
def Fading (store : KeyStore) : Prop :=
  since ≤ store.now ∧ ∀ n cached, (h, cached) ∈ store.caches n → cached.expires ≤ limit config d since (.mcp n)

/-- A request that the key has got further than its check is from before. -/
def KeyRequest.Fading (store : KeyStore) : KeyRequest → Prop
  | .liveness call p => config.hash call.secret = h →
      call.started ≤ since ∨ reason = .departed ∨ p.live store.now = false
  | .memberRole call _ => config.hash call.secret = h → call.started ≤ since ∨ reason = .departed
  | .answered call _ => config.hash call.secret = h → call.started ≤ since
  | .keep call _ => config.hash call.secret = h → call.started ≤ since
  | .accepted call _ acceptedAt => config.hash call.secret = h → acceptedAt ≤ limit config d since call.presented
  | _ => True

end Fading

variable {reason : Reason} {h : Text} {d since : Instant}

theorem cacheTTL_pos (config : KeyConfig) : 0 < config.cacheTTL := by
  unfold KeyConfig.cacheTTL Mcp.newAPIKeyValidator
  split
  · decide
  · exact Int.lt_of_not_ge ‹_›

private theorem dies {p : APIKeyPrincipal} {now later : Instant} (passes : now ≤ later) (dead : p.live now = false) :
    p.live later = false := by
  rw [Bool.eq_false_iff] at dead ⊢
  intro live
  apply dead
  simp only [APIKeyPrincipal.live, Bool.and_eq_true] at live ⊢
  obtain ⟨⟨⟨unrevoked, unexpired⟩, active⟩, enabled⟩ := live
  refine ⟨⟨⟨unrevoked, ?_⟩, active⟩, enabled⟩
  rw [Option.all_eq_true] at unexpired ⊢
  intro expires some'
  have ahead : later < expires.time := of_decide_eq_true (unexpired expires some')
  exact decide_eq_true (Int.lt_of_le_of_lt passes ahead)

private theorem KeyRequest.Fading.grows (fading : request.Fading config reason h d since store) (grows : Grows store after) :
    request.Fading config reason h d since after := by
  cases request with
  | liveness call p => exact fun same => (fading same).imp_right (Or.imp_right (dies grows.time))
  | _ => exact fading

private theorem step_fading (kept : Kept config store session)
    (fading : Fading config h d since store) (mine : session.position.Fading config reason h d since store)
    (timely : Timely d store session) (dead : Dead config reason h store)
    (stepped : (keyServer config).next input session.position ((keyServer config).view store session) = some (effect, later)) :
    later.Fading config reason h d since store := by
  have placed := kept.2
  obtain ⟨-, ⟨-, rfl, -⟩ | ⟨change, -, rfl, -⟩ | managed | admitted⟩ := step_cases kept.1 stepped
  · trivial
  · trivial
  · generalize session.position = request at managed
    cases managed with
    | _ => trivial
  · unfold Timely at timely
    generalize session.position = request at admitted placed mine timely
    have lives := cacheTTL_pos config
    cases admitted with
    | @cached n secret tenant fresh =>
      intro same
      obtain ⟨cached, mem, early, -⟩ := fresh_mem fresh
      have expires := fading.2 n cached (same ▸ mem)
      exact Int.le_of_lt (Int.lt_of_lt_of_le early expires)
    | asks => trivial
    | @resolves call p found =>
      intro same
      cases reason with
      | unusable => exact .inr (.inr (dead p (same ▸ found)))
      | departed => exact .inr (.inl rfl)
    | lives live =>
      intro same
      rcases mine same with before | other | gone
      · exact .inl before
      · exact .inr other
      · rw [gone] at live
        cases live
    | @member call p role direct =>
      intro same
      rw [direct]
      rcases mine same with before | rfl
      · exact Int.le_trans (timely call rfl) (Int.add_le_add_right before d)
      · obtain ⟨row, found, whose⟩ := placed.2
        injection whose with org creator
        rw [org, creator] at role
        exact absurd (dead row (same ▸ found)) role
    | @answers call p role =>
      intro same
      rcases mine same with before | rfl
      · exact before
      · obtain ⟨row, found, whose⟩ := placed.2
        injection whose with org creator
        rw [org, creator] at role
        exact absurd (dead row (same ▸ found)) role
    | hears => exact mine
    | @keeps call tenant n asked =>
      intro same
      rw [asked]
      have now : store.now ≤ since + d := Int.le_trans (timely call rfl) (Int.add_le_add_right (mine same) d)
      exact Int.le_trans now (Int.le_add_of_nonneg_right (Int.le_of_lt lives))
    | rejects idle => trivial

/-- While the key is dead, nothing more is remembered of it. -/
private theorem fading_discipline :
    (keyServer config).Discipline (fun store => Remembered config store ∧ Fading config h d since store)
      (fun store session => Kept config store session ∧ session.position.Fading config reason h d since store)
      (fun store session => Timely d store session ∧ Dead config reason h store) fun _ _ _ => True where
  arrives := by
    intro store position good starts
    refine ⟨(keys_discipline fun _ _ => True).arrives good.1 starts, ?_⟩
    cases starts with
    | _ => trivial
  store := by
    intro store session input effect later good mine fits stepped
    have base := (keys_discipline fun _ _ => True).store good.1 mine.1 trivial stepped
    have grows : Grows store ((keyServer config).store store session.pending effect) := grows_store _
    refine ⟨base, Int.le_trans good.2.1 grows.time, fun n cached mem => ?_⟩
    rcases step_caches mine.1 stepped mem with old | ⟨call, tenant, here, same, rfl⟩
    · exact good.2.2 n cached old
    · have before := mine.2
      have timely := fits.1
      unfold Timely at timely
      rw [here] at before timely
      have now : store.now ≤ since + d := Int.le_trans (timely call rfl) (Int.add_le_add_right (before same) d)
      exact Int.add_le_add_right now _
  request := by
    intro store session input effect later good mine fits stepped
    exact ⟨(keys_discipline fun _ _ => True).request good.1 mine.1 trivial stepped,
      (step_fading mine.1 good.2 mine.2 fits.1 fits.2 stepped).grows (grows_store _)⟩
  others := by
    intro store session other input effect later _ mine _ _ _ _ _ _
    exact ⟨⟨mine.1.1, mine.1.2.grows (grows_store _)⟩, mine.2.grows (grows_store _)⟩

variable {start : KeyStore} {seen final : State KeyStore KeyChange KeyRequest} {i : Nat} {call : KeyCall} {tenant : Tenant}
  {acceptedAt : Instant}

private theorem sound_cold (cold : ∀ n, start.caches n = [])
    (run : Relation.ReflTransGen ((keyServer config).Guarded (Timely d)) (Server.idle start) seen) :
    (keyServer config).Sound (Remembered config) (Kept config) seen := by
  have begins : Remembered config start := by
    intro n h cached mem
    rw [cold n] at mem
    cases mem
  exact Server.Sound.guarded_run (keys_discipline _) begins run

/-- What there is at first is from before. -/
private theorem sound_fading (patient : 0 ≤ d) (sound : (keyServer config).Sound (Remembered config) (Kept config) seen) :
    (keyServer config).Sound (fun store => Remembered config store ∧ Fading config h d seen.committed.now store)
      (fun store session => Kept config store session ∧ session.position.Fading config reason h d seen.committed.now store)
      seen := by
  have now : seen.committed.now ≤ seen.committed.now + d := Int.le_add_of_nonneg_right patient
  have later (presented : Presented) : seen.committed.now ≤ limit config d seen.committed.now presented := by
    cases presented with
    | api => exact now
    | mcp n => exact Int.le_trans now (Int.le_add_of_nonneg_right (Int.le_of_lt (cacheTTL_pos config)))
  refine ⟨⟨sound.store, Int.le_refl _, fun n cached mem => ?_⟩, fun i session running => ?_, sound.exclusive⟩
  · exact Int.le_trans (sound.store n h cached mem).1 (Int.add_le_add_right now _)
  · have kept := sound.sessions i session running
    refine ⟨kept, ?_⟩
    have placed := kept.2
    generalize session.position = request at placed
    cases request with
    | liveness call p => exact fun _ => .inl placed.1
    | memberRole call p => exact fun _ => .inl placed.1
    | answered call tenant => exact fun _ => placed.1
    | keep call tenant => exact fun _ => placed.1
    | accepted call tenant acceptedAt => exact fun _ => Int.le_trans placed.1 (later call.presented)
    | _ => trivial

private theorem fading_run (patient : 0 ≤ d) (sound : (keyServer config).Sound (Remembered config) (Kept config) seen)
    (on : Relation.ReflTransGen
      ((keyServer config).Guarded fun store session => Timely d store session ∧ Dead config reason h store) seen final) :
    (keyServer config).Sound (fun store => Remembered config store ∧ Fading config h d seen.committed.now store)
      (fun store session => Kept config store session ∧ session.position.Fading config reason h d seen.committed.now store)
      final := by
  induction on with
  | refl => exact sound_fading patient sound
  | tail _ step ih => exact ih.guarded fading_discipline step

/-- The key has been revoked. -/
def Revoked (h : Text) (row : APIKeyRow) (store : KeyStore) : Prop :=
  ∃ row', store.rowOf h = some row' ∧ row'.orgId = row.orgId ∧ row'.createdBy = row.createdBy ∧ row'.revokedAt ≠ none

variable {row : APIKeyRow}

private theorem Revoked.grows (revoked : Revoked h row store) (grows : Grows store after) : Revoked h row after := by
  obtain ⟨row', found, org, creator, gone⟩ := revoked
  obtain ⟨row'', found', org', creator', gone'⟩ := grows.keys h row' found
  exact ⟨row'', found', org'.trans org, creator'.trans creator, gone' gone⟩

private theorem Revoked.dead (revoked : Revoked h row store) : Dead config .unusable h store := by
  intro p found
  obtain ⟨row', here, -, -, gone⟩ := revoked
  obtain ⟨row'', here', found⟩ := Option.bind_eq_some_iff.mp found
  rw [here] at here'
  cases here'
  obtain ⟨org, -, rfl⟩ := Option.map_eq_some_iff.mp found
  have revokes : row'.revokedAt.isNone = false := by
    rw [Bool.eq_false_iff, ne_eq, Option.isNone_iff_eq_none]
    exact gone
  simp only [APIKeyPrincipal.live, revokes, Bool.false_and]

/-- A revocation lasts, so that whoever acts does so while the key is dead. -/
private theorem revoked_on (revoked : Revoked h row seen.committed)
    (on : Relation.ReflTransGen ((keyServer config).Guarded (Timely d)) seen final) :
    Relation.ReflTransGen ((keyServer config).Guarded fun store session => Timely d store session ∧ Dead config .unusable h store)
      seen final ∧ Revoked h row final.committed := by
  induction on with
  | refl => exact ⟨.refl, revoked⟩
  | tail _ step ih =>
    obtain ⟨before, still⟩ := ih
    cases step with
    | arrive free admitted => exact ⟨before.tail (.arrive free admitted), still⟩
    | act input running fit ran unlocked =>
      exact ⟨before.tail (.act input running ⟨fit, still.dead⟩ ran unlocked), still.grows (grows_store _)⟩
    | stop => exact ⟨before.tail .stop, still⟩

def ciOwner : Tenant := ⟨"o".toList, "u".toList⟩
def ciSecret : Bytes := ApiKey.generate (Vector.replicate _ 0)
def ciConfig : KeyConfig := ⟨fun secret => secret.map fun byte => Char.ofNat byte.toNat, 0, false⟩

def ciKey : APIKeyRow where
  id := ['k']
  orgId := ciOwner.orgId
  createdBy := ciOwner.userId
  name := ['c', 'i']
  keyHash := ciConfig.hash ciSecret
  keyPrefix := ApiKey.displayPrefix ciSecret
  expiresAt := none
  revokedAt := none
  revokedBy := none

def ciOrg : KeyStore where
  now := 0
  apiKeys := [ciKey]
  orgMeta org := if org = ciOwner.orgId then some ⟨"active".toList, true⟩ else none
  member := some fun org user => if org = ciOwner.orgId ∧ user = ciOwner.userId then some "owner".toList else none
  auditLog := [auditOf ciOwner .create ciKey]
  caches _ := []

def atTime (later : Instant) : KeyInput := ⟨false, false, true, later, ['n'], Vector.replicate _ 0⟩

def timely (store : KeyStore) (session : Session KeyChange KeyRequest) : Bool :=
  session.position.call.all fun call => store.now ≤ call.started

def performed (moves : List (Server.Move KeyInput KeyRequest)) (state : State KeyStore KeyChange KeyRequest) :
    Option (State KeyStore KeyChange KeyRequest) :=
  (keyServer ciConfig).performAll 4 (fun before _ => Server.orderly timely (fun _ _ _ => true) 4 before) moves state

def admitThenRevoke : List (Server.Move KeyInput KeyRequest) :=
  .arrive 0 (.authenticate (.mcp 0) ciSecret) :: List.replicate 6 (.act 0 (atTime 0)) ++
    .arrive 1 (.revokeAPIKey ciOwner ciKey.id) :: List.replicate 4 (.act 1 (atTime 0))

def presentAgain : List (Server.Move KeyInput KeyRequest) :=
  [.arrive 2 .clock, .act 2 (atTime 59000000000), .arrive 3 (.authenticate (.mcp 0) ciSecret), .act 3 (atTime 0)]


private theorem timely_guarded {before after : State KeyStore KeyChange KeyRequest} {moves : List (Server.Move KeyInput KeyRequest)}
    (below : Server.Below 4 before) (performs : performed moves before = some after) :
    Relation.ReflTransGen ((keyServer ciConfig).Guarded (Timely 0)) before after ∧ Server.Below 4 after := by
  have run := Server.performAll_run below performs
  refine ⟨Relation.ReflTransGen.mono ?_ before after run, Server.performAll_below below performs⟩
  rintro state next ⟨step, orderly, below, -⟩
  refine step.guarded fun i session running => ?_
  have fits := (Server.orderly_sound below orderly).fits i session running
  rw [timely, Option.all_eq_true] at fits
  intro call here
  exact Int.le_trans (of_decide_eq_true (fits call here)) (Int.le_add_of_nonneg_right (Int.le_refl 0))

theorem revokes : (performed admitThenRevoke (Server.idle ciOrg)).isSome = true := by decide +kernel

def afterRevoke : State KeyStore KeyChange KeyRequest := (performed admitThenRevoke (Server.idle ciOrg)).get revokes

theorem presents : (performed presentAgain afterRevoke).isSome = true := by decide +kernel

def afterMinute : State KeyStore KeyChange KeyRequest := (performed presentAgain afterRevoke).get presents

private theorem idle_below : Server.Below 4 (Server.idle ciOrg : State KeyStore KeyChange KeyRequest) := fun _ _ => rfl

theorem ci_run : Relation.ReflTransGen (keyServer ciConfig).Step (Server.idle ciOrg) afterMinute := by
  obtain ⟨run, below⟩ := timely_guarded idle_below (Option.some_get revokes).symm
  have on := (timely_guarded below (Option.some_get presents).symm).1
  exact Relation.ReflTransGen.mono (fun _ _ guarded => guarded.step) _ _ (run.trans on)

/-- A key that has just been let through is let through again, 59 seconds after it was revoked. -/
private theorem ci_key_outlives :
    afterRevoke.committed.rowOf (ciConfig.hash ciSecret) = some (ciKey.revokedRow ciOwner (.ofTime 0)) ∧
      afterMinute.sessions 3 = some ⟨.accepted ⟨.mcp 0, ciSecret, 59000000000⟩ ciOwner 59000000000, []⟩ :=
  ⟨rfl, rfl⟩

end Dropway.Api
