import Dropway.Edge.Route
import Dropway.Projection.Contract

/-! The route value as the Go server reads it (services/serve/internal/route). -/

namespace Dropway.Serve
open Lib
open Projection (RouteValue accessModes schemaVersion minSchemaVersion)

def allowedRouteKeys : List Text :=
  ["org_id", "site_id", "version_id", "access_mode", "schema_version", "expires_at", "plan_tier",
    "chat_id"].map String.toList

/-- A string, or nothing where the value is one of another kind; `null` leaves it blank. -/
def unmarshalString : Doc → Option (List Glyph)
  | .str value => some value
  | .null => some []
  | _ => none

def uuidField (members : List (List Glyph × Doc)) (name : String) : Option Bytes := do
  let raw ← Doc.last members name.toList
  let value ← unmarshalString raw
  if Edge.isUuid (goText value) then some (goString value) else none

def accessModeField (members : List (List Glyph × Doc)) : Option Bytes := do
  let raw ← Doc.last members "access_mode".toList
  let value ← unmarshalString raw
  if accessModes.contains (goString value) then some (goString value) else none

def schemaVersionField (members : List (List Glyph × Doc)) : Option Int := do
  let raw ← Doc.last members "schema_version".toList
  let version ← parseInt64 (← raw.number)
  if version < minSchemaVersion ∨ schemaVersion < version then none else some version

/-- An optional string that passes a check; absent and `null` are blank. -/
def optionalField (check : List Glyph → Bool) (members : List (List Glyph × Doc)) (name : String) :
    Option Bytes :=
  match Doc.last members name.toList with
  | none => some []
  | some .null => some []
  | some raw => do
    let value ← unmarshalString raw
    if check value then some (goString value) else none

def isRfc3339 (value : List Glyph) : Bool := (Rfc3339.parse (Utf8.latin1 (goString value))).isSome

def parseRouteValue (raw : Bytes) : Option RouteValue := do
  let (.obj members, rest) ← goDecode raw | none
  if goMore rest then none
  if members.any fun member => goText member.1 ∉ allowedRouteKeys then none
  let orgId ← uuidField members "org_id"
  let siteId ← uuidField members "site_id"
  let versionId ← uuidField members "version_id"
  let accessMode ← accessModeField members
  let schemaVersion ← schemaVersionField members
  let expiresAt ← optionalField isRfc3339 members "expires_at"
  let planTier ← optionalField (fun _ => true) members "plan_tier"
  let chatId ← optionalField (fun value => Edge.isUuid (goText value)) members "chat_id"
  return { orgId, siteId, versionId, accessMode, schemaVersion, expiresAt, planTier, chatId }

end Dropway.Serve
