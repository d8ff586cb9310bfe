import Dropway.Api.Store
import Dropway.Edgetoken.Token
import Dropway.Lib.RuneCase
import Dropway.Lib.Trim
import Dropway.Projection.Denylist

/-! The exchange of a sign-in or a password for an edge token: what the store
decides (internal/store/authz.go), and the steps of the requests around it
(internal/handlers/authz.go, internal/handlers/access.go). -/

namespace Dropway.Api
open Lib Lib.Outcome
open Edge (AccessMode)
open Edgetoken (Claims MintParams)
open Projection (Answer Denylist Revocation RevokeCall kindUser kindSite kindOrg)

/-! ### The decisions -/

structure MintViewer where
  userId : Text
  orgId : Text
  email : Text
  emailVerified : Bool

structure MintDecision where
  host : Text
  siteId : Text
  orgId : Text
  mode : AccessMode
  subject : Text

structure PasswordDecision where
  host : Text
  siteId : Text
  orgId : Text
  mode : AccessMode

inductive AuthzError where
  | missingViewer
  | hostNotFound
  | policyExpired
  | notOrgMember
  | notAllowlisted
  | noOrgMeta
  | externalSharingDisabled
  | passwordModeUsesPasswordEndpoint
  | notGated
  | noPolicy
  deriving DecidableEq

def normalizeEmail (email : Text) : Text := RuneCase.lowered (Text.trimSpace email)

def AccessPolicy.expired (policy : AccessPolicy) (now : Instant) : Bool :=
  policy.expiresAt.any fun expires => decide (expires.time ≤ now)

/-- Whether the viewer may have a token, under the mode of the site. Members are asked
for at every mint. -/
def authorizeViewer (members : Text → Text → Bool) (v : MintViewer) (rh : ResolvedHost) (db : Database) :
    AccessMode → Except AuthzError Unit
  | .orgOnly => do
    require (v.orgId = rh.orgId) .notOrgMember
    require (members rh.orgId v.userId) .notOrgMember
  | .allowlist => do
    require (v.emailVerified ∧ v.email ≠ []) .notAllowlisted
    let entry ← orFail ((db.allowlist.get? (rh.siteId, normalizeEmail v.email)).filter fun entry =>
      entry.orgId = rh.orgId) .notAllowlisted
    if entry.isExternal then
      let orgMeta ← orFail (db.orgMeta.get? rh.orgId) .noOrgMeta
      require orgMeta.allowExternalSharing .externalSharingDisabled
  | .password => .error .passwordModeUsesPasswordEndpoint
  | .public => .error .notGated

/-- A host without a live version has nothing a token would be for. -/
def authorizeMint (members : Text → Text → Bool) (now : Instant) (v : MintViewer) (host : Text)
    (db : Database) : Except AuthzError MintDecision := do
  require (v.userId ≠ [] ∧ v.orgId ≠ []) .missingViewer
  let rh ← orFail (db.resolveHost host) .hostNotFound
  require rh.versionId.isSome .hostNotFound
  let policy := db.getSiteAccessPolicy rh.siteId rh.orgId
  require (policy.all fun policy => !policy.expired now) .policyExpired
  let mode := (policy.map AccessPolicy.mode).getD rh.accessMode
  authorizeViewer members v rh db mode
  return { host := rh.host, siteId := rh.siteId, orgId := rh.orgId, mode, subject := v.userId }

/-- The hash to compare the password with. -/
def resolveForPassword (now : Instant) (host : Text) (db : Database) :
    Except AuthzError (PasswordDecision × Text) := do
  let rh ← orFail (db.resolveHost host) .hostNotFound
  require rh.versionId.isSome .hostNotFound
  let policy ← orFail (db.getSiteAccessPolicy rh.siteId rh.orgId) .noPolicy
  require (policy.mode = .password) .notGated
  require (policy.expired now = false) .policyExpired
  let hash ← orFail (policy.passwordHash.filter fun hash => hash ≠ []) .noPolicy
  return ({ host := rh.host, siteId := rh.siteId, orgId := rh.orgId, mode := policy.mode }, hash)

/-! ### The requests -/

/-- Blanks go, and ASCII letters are lowered. -/
def normalizeHost (host : Text) : Text :=
  (host.filter fun c => c ∉ [' ', '\t', '\n', '\r']).map fun c =>
    if 'A' ≤ c ∧ c ≤ 'Z' then Char.ofNat (c.toNat + 32) else c

/-- A sign-in from before a revocation of the viewer, the site or the org is refused. -/
def mintBlockedByRevocation (denylist : Denylist) (jwtIAT : Int) (d : MintDecision) : Bool :=
  [(kindUser, d.subject), (kindSite, d.siteId), (kindOrg, d.orgId)].any fun s =>
    decide (s.2 ≠ []) && (denylist (Revocation.key ⟨s.1, s.2, 0⟩)).any fun minIAT => decide (jwtIAT < minIAT)

inductive GrantRequest where
  | authzMint (viewer : MintViewer) (issuedAt : Option Int) (host : Text)
  | authzPassword (host password : Text)
  | setSiteAccess (t : Tenant) (p : SetAccessParams)

/-- Where a request stands. What it has read or committed is counted in commits of its site. -/
inductive Granting (K : Type) where
  | waiting (request : GrantRequest)
  | checking (jwtIAT : Int) (decision : MintDecision) (seen : Nat)
  | comparing (password : Text) (decision : PasswordDecision) (hash : Text) (seen : Nat)
  | signing (params : MintParams K) (seen : Nat)
  | projecting (siteId : Text) (routes : List RouteUpdate) (commit : Nat)
  | revoking (revoke : RevokeCall) (commit : Nat)
  | changed (siteId : Text) (commit : Nat)
  | finished

structure GrantedToken where
  claims : Claims
  seen : Nat

/-- `commits` counts the policy changes of each site. -/
structure Granted (K : Type) where
  now : K
  db : Database
  commits : Text → Nat
  routes : Text → Option RouteValue
  denylist : Denylist
  minted : List GrantedToken

/-- What a step finds: the clock, the fate of its KV requests, the members, the verdict
of the rate limiter, and what is drawn at random. -/
structure Surroundings (K : Type) where
  clock : K
  answer : Answer
  members : Text → Text → Bool
  allowed : Bool
  anonSubject : Option Text
  jti : Option Text

variable {K : Type} [Ring K] [LinearOrder K] [FloorRing K]

/-- The clock is in seconds. -/
def instantOf (now : K) : Instant := ⌊now * 1000000000⌋

/-- `verify` compares a password with a hash. -/
def grantStep (config : Config) (verify : Text → Text → Bool) (s : Surroundings K) :
    Granting K → Granted K → Option (Granting K × Granted K)
  | .waiting (.authzMint viewer issuedAt host), world =>
    if normalizeHost host = [] then some (.finished, world)
    else
      match authorizeMint s.members (instantOf s.clock) viewer (normalizeHost host) world.db with
      | .error _ => some (.finished, world)
      | .ok decision => some (.checking (issuedAt.getD 0) decision (world.commits decision.siteId), world)
  | .checking jwtIAT decision seen, world =>
    -- A read that fails refuses the token.
    if s.answer ≠ .served ∨ mintBlockedByRevocation world.denylist jwtIAT decision then some (.finished, world)
    else
      some (.signing { contentHost := decision.host, subject := decision.subject, siteId := decision.siteId
                       mode := decision.mode.text.toList, ttl := 0 } seen, world)
  | .waiting (.authzPassword host password), world =>
    if normalizeHost host = [] ∨ password = [] ∨ s.allowed = false then some (.finished, world)
    else
      match resolveForPassword (instantOf s.clock) (normalizeHost host) world.db with
      | .error _ => some (.finished, world)
      | .ok (decision, hash) => some (.comparing password decision hash (world.commits decision.siteId), world)
  | .comparing password decision hash seen, world =>
    if verify hash password = false then some (.finished, world)
    else
      match s.anonSubject with
      | none => some (.finished, world)
      | some anon =>
        some (.signing { contentHost := decision.host, subject := anon, siteId := decision.siteId
                         mode := AccessMode.password.text.toList, ttl := 0 } seen, world)
  | .signing params seen, world =>
    match Edgetoken.mint params s.jti s.clock with
    | .error _ => some (.finished, world)
    | .ok claims => some (.finished, { world with minted := ⟨claims, seen⟩ :: world.minted })
  | .waiting (.setSiteAccess t p), world =>
    match setSiteAccess config t p world.db with
    | .error _ => some (.finished, world)
    | .ok (db, result) =>
      let commit := world.commits p.siteId + 1
      some (.projecting p.siteId result.routes commit,
        { world with db, commits := Function.update world.commits p.siteId commit })
  | .projecting siteId (update :: rest) commit, world =>
    if s.answer = .served then
      some (.projecting siteId rest commit,
        { world with routes := Function.update world.routes update.host (some update.route) })
    else some (.finished, world)
  | .projecting siteId [] commit, world =>
    some (.revoking ⟨⟨kindSite, siteId, ⌊s.clock⌋⟩, .called⟩ commit, world)
  | .revoking revoke commit, world =>
    (Projection.CloudflareKV.revoke s.answer revoke world.denylist).map fun after =>
      -- A revocation that fails is only logged.
      match after.1.stage with
      | .returned _ => (.changed after.1.call.id commit, { world with denylist := after.2 })
      | _ => (.revoking after.1 commit, { world with denylist := after.2 })
  | .changed _ _, _ => none
  | .finished, _ => none

/-- Every step is taken in a second of its own. -/
def grants (config : Config) (verify : Text → Text → Bool) :
    Calls.Program (Surroundings K) (Granting K) (Granted K) :=
  fun s position world =>
    if ⌊world.now⌋ < ⌊s.clock⌋ then grantStep config verify s position { world with now := s.clock } else none

end Dropway.Api
