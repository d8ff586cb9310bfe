import Dropway.Api.Store
import Dropway.Lib.JsonRead
import Dropway.Lib.RuneCase
import Dropway.Lib.Trim

/-! The requests about custom domains (handlers/domains.go and store/domains.go).
What the hostname provider answers is an input of each. -/

namespace Dropway.Api
open Lib Lib.Outcome

inductive VerifyState where
  | pending
  | verifying
  | active
  | failed
  deriving Repr, DecidableEq

structure StatusResult where
  state : VerifyState
  tlsIssued : Bool
  deriving DecidableEq

def mapVerifyState : VerifyState → VerifyStatus
  | .active => .verified
  | .verifying => .verifying
  | .failed => .failed
  | .pending => .pending

def mapDomainStatus (status : StatusResult) : VerifyStatus × TLSStatus :=
  (mapVerifyState status.state,
    if status.tlsIssued = true then .issued else if status.state = .failed then .failed else .pending)

inductive DomainError where
  | exceeded
  | badRequest
  | badHostname
  | store (error : StoreError)
  deriving DecidableEq

def normalizeHostname (hostname : Text) : Text := RuneCase.lowered (Text.trimSpace hostname)

def isIPv4Field (field : Text) : Bool :=
  field ≠ [] ∧ field.all Char.isDigit = true ∧ JsonText.natValue field ≤ 255 ∧
    (field.length = 1 ∨ field.head? ≠ some '0')

/-- Whether `netip.ParseAddr` accepts a text without colons. -/
def isAddr (text : Text) : Bool :=
  (text.splitOn '.').length = 4 ∧ (text.splitOn '.').all isIPv4Field = true

def isMalformedLabel (label : Text) : Bool :=
  label = [] ∨ label.head? = some '-' ∨ label.getLast? = some '-'

/-- The platform's own hosts and those below them are never a tenant's. -/
def looksLikeHostname (contentDomain hostname : Text) : Bool :=
  let s := normalizeHostname hostname
  let cd := RuneCase.lowered contentDomain
  if s = [] ∨ 253 < (Utf8.encode s).length ∨ (s.any fun c => [' ', '\t', '/', ':'].contains c) = true then false
  else if '.' ∉ s ∨ s.head? = some '.' then false
  else if (s.splitOn '.').any isMalformedLabel = true then false
  else if isAddr s = true then false
  else if s = cd ∨ ('.' :: cd) <:+ s then false
  else true

/-- An id is never drawn twice, and a hostname is taken in all orgs at once. -/
def Database.insertDomain (db : Database) (domain : Domain) : Except DbError Database :=
  if db.domains.rows.any fun row => row.id = domain.id ∨ row.hostname = domain.hostname then
    .error .uniqueViolation
  else .ok { db with domains := db.domains.upsert domain id }

def takenError : DbError → StoreError
  | .uniqueViolation => .hostTaken
  | error => .db error

structure CreateDomainParams where
  siteId : Text
  hostname : Text
  cfHostnameId : Text

/-- The id is the one that the row draws. -/
def createDomain (t : Tenant) (p : CreateDomainParams) (id : Text) (db : Database) :
    Except DomainError (Database × Domain) := do
  let hostname := normalizeHostname p.hostname
  require (hostname ≠ []) .badHostname
  let _site ← orFail (db.getSite p.siteId t.orgId) (.store .notFound)
  let domain : Domain :=
    { id, orgId := t.orgId, siteId := p.siteId, hostname, verifyStatus := .pending, tlsStatus := .pending
      cfHostnameId := if p.cfHostnameId = [] then none else some p.cfHostnameId }
  let db ← (db.insertDomain domain).mapError fun error => .store (takenError error)
  return (db, domain)

structure AddDomainRequest where
  siteId : Text
  hostname : Text

/-- `allows` is the quota's answer for a plan tier, and `created` the id that the
provider gives the hostname. -/
def addDomain (config : Config) (allows : Text → Bool) (t : Tenant) (request : AddDomainRequest)
    (created : Option Text) (id : Text) (db : Database) : Except DomainError (Database × Domain) := do
  require (allows (db.getPlanTier t.orgId) = true) .exceeded
  let hostname := normalizeHostname request.hostname
  require (looksLikeHostname config.contentDomain hostname = true) .badRequest
  let _site ← orFail (db.getSite request.siteId t.orgId) (.store .notFound)
  let cfHostnameId ← orFail created .badRequest
  createDomain t ⟨request.siteId, hostname, cfHostnameId⟩ id db

def getDomainStatus (t : Tenant) (id : Text) (answer : Option StatusResult) (db : Database) :
    Except DomainError (Database × Domain) := do
  let domain ← orFail (db.getDomain id t.orgId) (.store .notFound)
  -- A row without the provider's id has nothing to poll.
  if domain.cfHostnameId.getD [] = [] then return (db, domain)
  else
    let status ← orFail answer .badRequest
    let mapped := mapDomainStatus status
    let result ← (updateDomainStatus t id mapped.1 mapped.2 db).mapError .store
    return (result.1, result.2.domain)

/-- The operations on an org's custom domains, and the removal of a site. A poll
may record any statuses. -/
inductive DomainCall where
  | add (request : AddDomainRequest) (created : Option Text) (id : Text)
  | poll (id : Text) (verify : VerifyStatus) (tls : TLSStatus)
  | delete (id : Text)
  | deleteSite (id : Text)

/-- A failed transaction leaves the database as it was. -/
def committed {ε α : Type} (db : Database) : Except ε (Database × α) → Database
  | .ok result => result.1
  | .error _ => db

def DomainCall.run (config : Config) (allows : Text → Bool) (t : Tenant) (db : Database) :
    DomainCall → Database
  | .add request created id => committed db (addDomain config allows t request created id db)
  | .poll id verify tls => committed db (updateDomainStatus t id verify tls db)
  | .delete id => committed db (deleteDomain t id db)
  | .deleteSite id => committed db (Api.deleteSite t id db)

/-- One after the other. -/
def afterCalls (config : Config) (allows : Text → Bool) (t : Tenant) (db : Database) :
    List DomainCall → Database :=
  List.foldl (DomainCall.run config allows t) db

end Dropway.Api
