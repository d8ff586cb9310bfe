import Dropway.Lib.Json
import Dropway.Lib.Uri

/-! The route value of a host and the cleaning of request paths, as the serving
Worker has them (contracts/src/index.ts, edge/serving-worker/src/route.ts). -/

namespace Dropway.Edge
open Lib Lib.Uri

inductive AccessMode where
  | «public»
  | password
  | allowlist
  | orgOnly
  deriving Repr, DecidableEq

namespace AccessMode

def text : AccessMode → String
  | «public» => "public"
  | password => "password"
  | allowlist => "allowlist"
  | orgOnly => "org_only"

def parse? (value : String) : Option AccessMode :=
  [«public», password, allowlist, orgOnly].find? (·.text = value)

end AccessMode

def isHex (c : Char) : Bool := (hexValue c).isSome

def isUuid (text : Text) : Bool :=
  (text.splitOn '-').map List.length = [8, 4, 4, 4, 12] && text.all fun c => isHex c || c = '-'

@[ext]
structure Uuid where
  text : Text
  wf : isUuid text
  deriving DecidableEq

def Uuid.parse? (value : String) : Option Uuid :=
  if wf : isUuid value.toList then some ⟨value.toList, wf⟩ else none

def schemaVersion : Nat := 4
def minSchemaVersion : Nat := 1

/-- The value stored at `route:<host>`, after validation. -/
structure RouteValue where
  orgId : Uuid
  siteId : Uuid
  versionId : Uuid
  accessMode : AccessMode
  schemaVersion : Nat
  expiresAt : Option String
  planTier : Option Text
  chatId : Option Uuid
  deriving DecidableEq

structure ValidationError where
  message : String
  deriving Repr, DecidableEq

def allowedFields : List String :=
  ["org_id", "site_id", "version_id", "access_mode", "schema_version", "expires_at", "plan_tier",
    "chat_id"]

/-- `undefined` and `null` both mean that an optional field is absent. -/
def present (members : List (String × Json)) (field : String) : Option Json :=
  match Json.member members field with
  | some .null => none
  | value => value

def requiredUuid (members : List (String × Json)) (field : String) :
    Except ValidationError Uuid :=
  match Json.member members field with
  | some (.str value) =>
    match Uuid.parse? value with
    | some id => .ok id
    | none => .error ⟨field ++ " must be a UUID string"⟩
  | _ => .error ⟨field ++ " must be a UUID string"⟩

def parseAccessMode (members : List (String × Json)) : Except ValidationError AccessMode :=
  let message := "access_mode must be one of public, password, allowlist, org_only"
  match Json.member members "access_mode" with
  | some (.str value) =>
    match AccessMode.parse? value with
    | some mode => .ok mode
    | none => .error ⟨message⟩
  | _ => .error ⟨message⟩

def parseSchemaVersion (members : List (String × Json)) : Except ValidationError Nat :=
  match Json.member members "schema_version" with
  | some (.num value) =>
    if value.den ≠ 1 ∨ value < 1 then .error ⟨"schema_version must be a positive integer"⟩
    else if value < minSchemaVersion ∨ schemaVersion < value then
      .error ⟨"unsupported schema_version " ++ toString value.num ++ "; this build accepts 1..4"⟩
    else .ok value.num.toNat
  | _ => .error ⟨"schema_version must be a positive integer"⟩

def parseExpiresAt (dateParse : String → Option Int) (members : List (String × Json)) :
    Except ValidationError (Option String) :=
  match present members "expires_at" with
  | none => .ok none
  | some (.str value) =>
    match dateParse value with
    | some _ => .ok (some value)
    | none => .error ⟨"expires_at must be an RFC3339 timestamp"⟩
  | some _ => .error ⟨"expires_at must be an RFC3339 timestamp"⟩

def parsePlanTier (members : List (String × Json)) : Except ValidationError (Option Text) :=
  match present members "plan_tier" with
  | none => .ok none
  | some (.str value) => .ok (if value = "" then none else some value.toList)
  | some _ => .error ⟨"plan_tier must be a string"⟩

def parseChatId (members : List (String × Json)) : Except ValidationError (Option Uuid) :=
  match present members "chat_id" with
  | none => .ok none
  | some (.str value) =>
    match Uuid.parse? value with
    | some id => .ok (some id)
    | none => .error ⟨"chat_id must be a UUID string"⟩
  | some _ => .error ⟨"chat_id must be a UUID string"⟩

/-- `dateParse` is `Date.parse`: milliseconds, and `none` where it is NaN. -/
def parseKVRouteValue (dateParse : String → Option Int) : Json → Except ValidationError RouteValue
  | .obj members => do
    match members.find? fun entry => !allowedFields.contains entry.1 with
    | some entry => throw ⟨"unexpected field: " ++ entry.1⟩
    | none => pure ()
    let orgId ← requiredUuid members "org_id"
    let siteId ← requiredUuid members "site_id"
    let versionId ← requiredUuid members "version_id"
    let accessMode ← parseAccessMode members
    let schemaVersion ← parseSchemaVersion members
    let expiresAt ← parseExpiresAt dateParse members
    let planTier ← parsePlanTier members
    let chatId ← parseChatId members
    return { orgId, siteId, versionId, accessMode, schemaVersion, expiresAt, planTier, chatId }
  | _ => .error ⟨"kv route value must be a JSON object"⟩

private theorem bind_ok_iff {ε α β : Type} {x : Except ε α} {f : α → Except ε β} {b : β} :
    (x >>= f) = .ok b ↔ ∃ a, x = .ok a ∧ f a = .ok b := by
  cases x with
  | error e => exact ⟨fun ran => (by cases ran), fun ⟨a, read, _⟩ => (by cases read)⟩
  | ok a =>
    refine ⟨fun ran => ⟨a, rfl, ran⟩, ?_⟩
    rintro ⟨a, read, ran⟩
    cases read
    exact ran

/-- Every part of a value is read on its own. -/
theorem parseKVRouteValue_iff {dateParse : String → Option Int} {members : List (String × Json)}
    {route : RouteValue} : parseKVRouteValue dateParse (.obj members) = .ok route ↔
      (members.find? fun entry => !allowedFields.contains entry.1) = none ∧
      requiredUuid members "org_id" = .ok route.orgId ∧ requiredUuid members "site_id" = .ok route.siteId ∧
      requiredUuid members "version_id" = .ok route.versionId ∧
      parseAccessMode members = .ok route.accessMode ∧
      parseSchemaVersion members = .ok route.schemaVersion ∧
      parseExpiresAt dateParse members = .ok route.expiresAt ∧
      parsePlanTier members = .ok route.planTier ∧ parseChatId members = .ok route.chatId := by
  rw [parseKVRouteValue]
  split
  · rename_i entry unknown
    rw [unknown]
    exact ⟨fun ran => (by cases ran), fun ⟨known, _⟩ => (by cases known)⟩
  · rename_i known
    rw [known]
    simp only [bind_ok_iff, true_and, pure, Except.pure, Except.ok.injEq]
    constructor
    · rintro ⟨_, one, _, two, _, three, _, four, _, five, _, six, _, seven, _, eight, rfl⟩
      exact ⟨one, two, three, four, five, six, seven, eight⟩
    · rintro ⟨one, two, three, four, five, six, seven, eight⟩
      exact ⟨_, one, _, two, _, three, _, four, _, five, _, six, _, seven, _, eight, rfl⟩

def parseRouteValue (dateParse : String → Option Int) (raw : Json) : Option RouteValue :=
  (parseKVRouteValue dateParse raw).toOption

def isRouteExpired (dateParse : String → Option Int) (value : RouteValue) (now : Int) : Bool :=
  match value.expiresAt with
  | none => false
  | some expiresAt =>
    if expiresAt = "" then false
    else
      match dateParse expiresAt with
      | none => true
      | some exp => now ≥ exp

/-- The part of `text` before the last `c`, if there is one. -/
private def beforeLast (c : Char) (text : Text) : Text :=
  if c ∈ text then ((text.reverse.dropWhile (· ≠ c)).tail).reverse else text

def normalizeHost (rawHost : Text) : Text :=
  let host := beforeLast ':' (Text.lower (Text.trim rawHost))
  if host.getLast? = some '.' then host.dropLast else host

def routeKey (host : Text) : Text := "route:".toList ++ normalizeHost host

/-- The segments of a decoded path that count, and nothing if one of them
climbs. -/
def segmentsOf (decoded : Text) : Option (List Text) :=
  let segments := decoded.splitOn '/'
  if ['.', '.'] ∈ segments then none
  else some (segments.filter fun segment => segment ≠ [] ∧ segment ≠ ['.'])

def cleanPath (rawPath : Text) : Option Text := do
  let decoded ← decodeURIComponent (rawPath.takeWhile fun c => c ≠ '?' ∧ c ≠ '#')
  if '\x00' ∈ decoded ∨ '\\' ∈ decoded then none
  let out ← segmentsOf (decoded.dropWhile (· = '/'))
  let rel := ['/'].intercalate out
  let endedWithSlash := 1 < decoded.length ∧ decoded.getLast? = some '/'
  return if endedWithSlash ∧ rel ≠ [] then rel ++ ['/'] else rel

end Dropway.Edge
