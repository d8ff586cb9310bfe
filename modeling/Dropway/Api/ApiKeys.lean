import Dropway.Api.Store
import Dropway.Lib.Server
import Dropway.Lib.Trim

/-! The keys that an MCP server has seen accepted (services/mcp/internal/auth/auth.go). -/

namespace Dropway.Mcp
open Lib
open Api (Instant Tenant)

def defaultKeyCacheTTL : Instant := 60 * 1000000000

/-- The timeout of the client that asks the API. -/
def requestTimeout : Instant := 15 * 1000000000

structure CachedKey where
  tenant : Tenant
  expires : Instant

/-- By the hash of the key. -/
abbrev KeyCache := List (Text × CachedKey)

def newAPIKeyValidator (ttl : Instant) : Instant := if ttl ≤ 0 then defaultKeyCacheTTL else ttl

def KeyCache.fresh (cache : KeyCache) (hash : Text) (now : Instant) : Option Tenant :=
  ((cache.find? (·.1 = hash)).filter fun entry => now < entry.2.expires).map (·.2.tenant)

/-- What has expired is only swept from a large map. -/
def KeyCache.keep (cache : KeyCache) (hash : Text) (tenant : Tenant) (ttl now : Instant) : KeyCache :=
  let cache := cache.filter (·.1 ≠ hash) ++ [(hash, ⟨tenant, now + ttl⟩)]
  if 1024 < cache.length then cache.filter fun entry => ¬ entry.2.expires < now else cache

end Dropway.Mcp

/-! API keys: how they are made and revoked (internal/store/apikeys.go), and how requests
that present one are let through, by the API (handlers/apikeys.go) and by the MCP servers
that ask it. -/

namespace Dropway.Api
open Lib

namespace ApiKey

def marker : Bytes := Utf8.encode "dw_live_".toList

def base62 : Bytes := Utf8.encode "0123456789ABCDEFGHIJKLMNOPQRSTUVWXYZabcdefghijklmnopqrstuvwxyz".toList

def randomLen : Nat := 43

def displayRandomLen : Nat := 4

def generate (random : Vector UInt8 randomLen) : Bytes :=
  marker ++ random.toList.map fun c => base62.getD (c.toNat % base62.length) 0

def isBase62 (c : UInt8) : Bool := (0x30 ≤ c && c ≤ 0x39) || (0x41 ≤ c && c ≤ 0x5A) || (0x61 ≤ c && c ≤ 0x7A)

def parse (token : Bytes) : Option Bytes :=
  if !marker.isPrefixOf token then none
  else
    let rest := token.drop marker.length
    if rest.length ≠ randomLen ∨ !rest.all isBase62 then none else some token

def displayPrefix (secret : Bytes) : Bytes :=
  let rest := if marker.isPrefixOf secret then secret.drop marker.length else secret
  marker ++ rest.take displayRandomLen

end ApiKey

/-! ### The tables -/

structure APIKeyRow where
  id : Text
  orgId : Text
  createdBy : Text
  name : Text
  keyHash : Text
  keyPrefix : Bytes
  expiresAt : Option Timestamptz
  revokedAt : Option Timestamptz
  revokedBy : Option Text
  deriving DecidableEq

/-- What `org_meta` has of an org's keys. -/
structure OrgKeys where
  orgStatus : Text
  apiKeysEnabled : Bool

inductive KeyAction where
  | create
  | revoke
  deriving DecidableEq

structure KeyAudit where
  orgId : Text
  actorUser : Text
  action : KeyAction
  target : Text
  name : Text
  keyPrefix : Bytes
  deriving DecidableEq

/-- The database, what each MCP server remembers, and the time. There is no table of
members where Better Auth has not run. -/
structure KeyStore where
  now : Instant
  apiKeys : List APIKeyRow
  orgMeta : Text → Option OrgKeys
  member : Option (Text → Text → Option Text)
  auditLog : List KeyAudit
  caches : Nat → Mcp.KeyCache

structure APIKeyPrincipal where
  id : Text
  orgId : Text
  createdBy : Text
  expiresAt : Option Timestamptz
  revokedAt : Option Timestamptz
  orgStatus : Text
  apiKeysEnabled : Bool

structure KeyConfig where
  hash : Bytes → Text
  ttl : Instant
  allowFallback : Bool

variable (config : KeyConfig)

def KeyConfig.cacheTTL : Instant := Mcp.newAPIKeyValidator config.ttl

namespace KeyStore

variable (store : KeyStore)

def rowOf (keyHash : Text) : Option APIKeyRow := store.apiKeys.find? (·.keyHash = keyHash)

/-- `app.resolve_api_key`. -/
def resolveAPIKey (keyHash : Text) : Option APIKeyPrincipal :=
  (store.rowOf keyHash).bind fun row => (store.orgMeta row.orgId).map fun org =>
    ⟨row.id, row.orgId, row.createdBy, row.expiresAt, row.revokedAt, org.orgStatus, org.apiKeysEnabled⟩

def getAPIKey (t : Tenant) (id : Text) : Option APIKeyRow :=
  store.apiKeys.find? fun row => row.id = id ∧ row.orgId = t.orgId

/-- The row that `RevokeAPIKey` updates. -/
def liveAPIKey (t : Tenant) (id : Text) : Option APIKeyRow :=
  store.apiKeys.find? fun row => row.id = id ∧ row.orgId = t.orgId ∧ row.revokedAt = none

/-- The creator's role, if they still are a member. -/
def liveRole (orgId userId : Text) : Option Text :=
  match store.member with
  | some member => if orgId = [] ∨ userId = [] then none else member orgId userId
  | none => if (orgId ≠ [] ∧ userId ≠ []) ∧ config.allowFallback then some "member".toList else none

end KeyStore

def APIKeyPrincipal.live (p : APIKeyPrincipal) (now : Instant) : Bool :=
  p.revokedAt.isNone && (p.expiresAt.all fun expires => now < expires.time) && p.orgStatus = "active".toList &&
    p.apiKeysEnabled

/-- Only the members' role and the org's columns are changed from elsewhere. -/
inductive OrgChange where
  | orgMeta (id : Text) (org : OrgKeys)
  | member (orgId userId : Text) (role : Option Text)

inductive KeyChange where
  | insert (row : APIKeyRow)
  | revoke (id : Text) (revokedAt : Timestamptz) (revokedBy : Text)
  | audit (entry : KeyAudit)
  | administer (change : OrgChange)
  | cache (instance_ : Nat) (hash : Text) (tenant : Tenant)
  | passing (later : Instant)

def OrgChange.apply (store : KeyStore) : OrgChange → KeyStore
  | .orgMeta id org => { store with orgMeta := Function.update store.orgMeta id (some org) }
  | .member orgId userId role => { store with member := store.member.map fun member =>
      fun org user => if org = orgId ∧ user = userId then role else member org user }

def KeyChange.apply (store : KeyStore) : KeyChange → KeyStore
  | .insert row => { store with apiKeys := store.apiKeys ++ [row] }
  | .revoke id revokedAt revokedBy => { store with apiKeys := store.apiKeys.map fun row =>
      if row.id = id then { row with revokedAt := some revokedAt, revokedBy := some revokedBy } else row }
  | .audit entry => { store with auditLog := store.auditLog ++ [entry] }
  | .administer change => change.apply store
  | .cache instance_ hash tenant =>
    let cache := (store.caches instance_).keep hash tenant config.cacheTTL store.now
    { store with caches := Function.update store.caches instance_ cache }
  | .passing later => { store with now := max store.now later }

/-- The rows of `api_keys`, and its unique index. -/
inductive KeyLock where
  | row (id : Text)
  | keyHash (keyHash : Text)
  deriving DecidableEq

def KeyChange.locks : KeyChange → List KeyLock
  | .insert row => [.row row.id, .keyHash row.keyHash]
  | .revoke id _ _ => [.row id]
  | .audit _ | .administer _ | .cache _ _ _ | .passing _ => []

/-! ### Requests -/

def auditOf (t : Tenant) (action : KeyAction) (row : APIKeyRow) : KeyAudit :=
  ⟨t.orgId, t.userId, action, "api_key:".toList ++ row.id, row.name, row.keyPrefix⟩

/-- Who is presented with a key: the API, or one of the MCP servers. -/
inductive Presented where
  | api
  | mcp (instance_ : Nat)

structure KeyCall where
  presented : Presented
  secret : Bytes
  started : Instant

inductive KeyRequest where
  | clock
  | administer (change : OrgChange)
  | administered
  | createAPIKey (t : Tenant) (name : Text)
  | insertAPIKey (t : Tenant) (name : Text) (secret : Bytes)
  | auditCreate (t : Tenant) (row : APIKeyRow) (secret : Bytes)
  | commitCreate (t : Tenant) (row : APIKeyRow) (secret : Bytes)
  | created (row : APIKeyRow) (secret : Bytes)
  | revokeAPIKey (t : Tenant) (id : Text)
  | updateAPIKey (t : Tenant) (id : Text) (began : Instant)
  | getAPIKey (t : Tenant) (id : Text)
  | commitSeen (row : APIKeyRow)
  | auditRevoke (t : Tenant) (row : APIKeyRow) (revokedAt : Timestamptz)
  | commitRevoke (t : Tenant) (row : APIKeyRow) (revokedAt : Timestamptz)
  | revoked (row : APIKeyRow)
  | failed
  | authenticate (presented : Presented) (secret : Bytes)
  | resolve (call : KeyCall)
  | liveness (call : KeyCall) (p : APIKeyPrincipal)
  | memberRole (call : KeyCall) (p : APIKeyPrincipal)
  /-- What `GET /v1/me` says is on its way to the MCP server. -/
  | answered (call : KeyCall) (tenant : Tenant)
  | keep (call : KeyCall) (tenant : Tenant)
  | accepted (call : KeyCall) (tenant : Tenant) (acceptedAt : Instant)
  | rejected (call : KeyCall)

/-- `fails` where the database or the connection does, `limited` where a rate limiter
refuses, `admin` what the live check of the asking user says. -/
structure KeyInput where
  fails : Bool
  limited : Bool
  admin : Bool
  later : Instant
  id : Text
  random : Vector UInt8 ApiKey.randomLen

def isControl (c : Char) : Bool := c.toNat < 0x20 || (0x7F ≤ c.toNat && c.toNat < 0xA0)

def maxNameLen : Nat := 100

/-- The name that a key may have, trimmed. -/
def keyName (name : Text) : Option Text :=
  let name := Text.trimSpace name
  if name = [] ∨ maxNameLen < (Utf8.encode name).length ∨ name.any isControl then none else some name

def APIKeyRow.revokedRow (row : APIKeyRow) (t : Tenant) (revokedAt : Timestamptz) : APIKeyRow :=
  { row with revokedAt := some revokedAt, revokedBy := some t.userId }

/-- Creating and revoking. -/
def KeyRequest.manage (input : KeyInput) (store : KeyStore) : KeyRequest → Option (Effect KeyChange KeyLock × KeyRequest)
  | .createAPIKey t name =>
    match keyName name with
    | some name => if input.admin then some (.read [], .insertAPIKey t name (ApiKey.generate input.random)) else some (.read [], .failed)
    | none => some (.read [], .failed)
  | .insertAPIKey t name secret =>
    let row : APIKeyRow :=
      { id := input.id, orgId := t.orgId, createdBy := t.userId, name, keyHash := config.hash secret,
        keyPrefix := ApiKey.displayPrefix secret, expiresAt := none, revokedAt := none, revokedBy := none }
    if input.fails ∨ store.orgMeta t.orgId = none ∨
        store.apiKeys.any (fun other => other.id = row.id ∨ other.keyHash = row.keyHash) then some (.rollback, .failed)
    else some (.write (.insert row), .auditCreate t row secret)
  | .auditCreate t row secret =>
    if input.fails then some (.rollback, .failed)
    else some (.write (.audit (auditOf t .create row)), .commitCreate t row secret)
  | .commitCreate _ row secret => if input.fails then some (.rollback, .failed) else some (.commit, .created row secret)
  | .revokeAPIKey t id => if input.admin ∧ id ≠ [] then some (.read [], .updateAPIKey t id store.now) else some (.read [], .failed)
  | .updateAPIKey t id began =>
    if input.fails then some (.rollback, .failed)
    else
      match store.liveAPIKey t id with
      | some row => some (.write (.revoke id (.ofTime began) t.userId), .auditRevoke t row (.ofTime began))
      -- An UPDATE that matches no row locks none.
      | none => some (.read [], .getAPIKey t id)
  | .getAPIKey t id =>
    match store.getAPIKey t id with
    | some row => if input.fails then some (.rollback, .failed) else some (.read [], .commitSeen row)
    | none => some (.rollback, .failed)
  | .commitSeen row => if input.fails then some (.rollback, .failed) else some (.commit, .revoked row)
  | .auditRevoke t row revokedAt =>
    if input.fails then some (.rollback, .failed)
    else some (.write (.audit (auditOf t .revoke row)), .commitRevoke t row revokedAt)
  | .commitRevoke t row revokedAt =>
    if input.fails then some (.rollback, .failed) else some (.commit, .revoked (row.revokedRow t revokedAt))
  | _ => none

/-- `ValidateAPIKey` of an MCP server, and `AuthenticateAPIKey`, which it asks. -/
def KeyRequest.letIn (input : KeyInput) (store : KeyStore) : KeyRequest → Option (Effect KeyChange KeyLock × KeyRequest)
  | .authenticate presented secret =>
    let call : KeyCall := ⟨presented, secret, store.now⟩
    match presented with
    | .api => some (.read [], .resolve call)
    | .mcp instance_ =>
      if ApiKey.parse secret = none then some (.read [], .rejected call)
      else
        match (store.caches instance_).fresh (config.hash secret) store.now with
        | some tenant => some (.read [], .accepted call tenant store.now)
        | none => some (.read [], .resolve call)
  | .resolve call =>
    if input.limited ∨ input.fails ∨ ApiKey.parse call.secret = none then some (.read [], .rejected call)
    else
      match store.resolveAPIKey (config.hash call.secret) with
      | some p => some (.read [], .liveness call p)
      | none => some (.read [], .rejected call)
  | .liveness call p =>
    if input.limited ∨ !p.live store.now then some (.read [], .rejected call) else some (.read [], .memberRole call p)
  | .memberRole call p =>
    if input.fails ∨ store.liveRole config p.orgId p.createdBy = none then some (.read [], .rejected call)
    else
      match call.presented with
      | .api => some (.read [], .accepted call ⟨p.orgId, p.createdBy⟩ store.now)
      | .mcp _ => some (.read [], .answered call ⟨p.orgId, p.createdBy⟩)
  | .answered call tenant =>
    if input.fails ∨ call.started + Mcp.requestTimeout < store.now ∨ tenant.orgId = [] ∨ tenant.userId = [] then
      some (.read [], .rejected call)
    else some (.read [], .keep call tenant)
  | .keep call tenant =>
    match call.presented with
    | .mcp instance_ =>
      some (.outside (.cache instance_ (config.hash call.secret) tenant), .accepted call tenant store.now)
    | .api => none
  | _ => none

def KeyRequest.next (input : KeyInput) (request : KeyRequest) (store : KeyStore) :
    Option (Effect KeyChange KeyLock × KeyRequest) :=
  match request with
  | .clock => some (.outside (.passing input.later), .clock)
  | .administer change => some (.outside (.administer change), .administered)
  | request => (request.manage config input store).or (request.letIn config input store)

inductive KeyRequest.Starts : KeyRequest → Prop
  | clock : Starts .clock
  | administer (change : OrgChange) : Starts (.administer change)
  | createAPIKey (t : Tenant) (name : Text) : Starts (.createAPIKey t name)
  | revokeAPIKey (t : Tenant) (id : Text) : Starts (.revokeAPIKey t id)
  | authenticate (presented : Presented) (secret : Bytes) : Starts (.authenticate presented secret)

instance : DecidablePred KeyRequest.Starts := fun request => by
  cases request with
  | clock => exact .isTrue .clock
  | administer change => exact .isTrue (.administer change)
  | createAPIKey t name => exact .isTrue (.createAPIKey t name)
  | revokeAPIKey t id => exact .isTrue (.revokeAPIKey t id)
  | authenticate presented secret => exact .isTrue (.authenticate presented secret)
  | _ => exact .isFalse fun starts => nomatch starts

def keyServer : Server KeyInput KeyStore KeyChange KeyLock KeyRequest where
  admits := KeyRequest.Starts
  next input request store := request.next config input store
  apply change store := change.apply config store
  locks := KeyChange.locks

instance : DecidablePred (keyServer config).admits := inferInstanceAs (DecidablePred KeyRequest.Starts)

end Dropway.Api
