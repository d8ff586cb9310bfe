import Dropway.Lib.JsonRead
import Dropway.Lib.Rfc3339

/-! The route value as the API checks and writes it (internal/projection). -/

namespace Dropway.Projection
open Lib

def schemaVersion : Int := 4
def minSchemaVersion : Int := 1

structure RouteValue where
  orgId : Bytes
  siteId : Bytes
  versionId : Bytes
  accessMode : Bytes
  schemaVersion : Int
  expiresAt : Bytes
  planTier : Bytes
  chatId : Bytes
  deriving DecidableEq

inductive RouteValueError where
  | missing (name : Text)
  | accessMode (value : Bytes)
  | schemaVersion (value : Int)
  | expiresAt (value : Bytes)
  deriving DecidableEq

def ascii (name : String) : Bytes := Utf8.encode name.toList

def accessModes : List Bytes := ["public", "password", "allowlist", "org_only"].map ascii

/-- Which of several missing ids the error names is left to the map they are in. -/
def RouteValue.validate (v : RouteValue) : Except RouteValueError Unit :=
  if v.orgId = [] then .error (.missing "org_id".toList)
  else if v.siteId = [] then .error (.missing "site_id".toList)
  else if v.versionId = [] then .error (.missing "version_id".toList)
  else if v.accessMode ∉ accessModes then .error (.accessMode v.accessMode)
  else if v.schemaVersion < minSchemaVersion ∨ Projection.schemaVersion < v.schemaVersion then
    .error (.schemaVersion v.schemaVersion)
  else if v.expiresAt ≠ [] ∧ Rfc3339.parse (Utf8.latin1 v.expiresAt) = none then
    .error (.expiresAt v.expiresAt)
  else .ok ()

def member (name : String) (value : Doc) : List Glyph × Doc := (name.toList.map .char, value)

def stringField (name : String) (value : Bytes) : List Glyph × Doc := member name (.str (goGlyphs value))

/-- `omitempty` -/
def optionalField (name : String) (value : Bytes) : List (List Glyph × Doc) :=
  if value = [] then [] else [stringField name value]

def intLiteral (n : Int) : Text :=
  if n < 0 then '-' :: JsonText.decimal n.natAbs else JsonText.decimal n.natAbs

def RouteValue.doc (v : RouteValue) : Doc :=
  .obj ([stringField "org_id" v.orgId, stringField "site_id" v.siteId,
    stringField "version_id" v.versionId, stringField "access_mode" v.accessMode,
    member "schema_version" (.num (intLiteral v.schemaVersion))] ++
    optionalField "expires_at" v.expiresAt ++ optionalField "plan_tier" v.planTier ++
    optionalField "chat_id" v.chatId)

def RouteValue.marshal (v : RouteValue) : Bytes := Utf8.encode (JsonText.write v.doc)

/-- The body that PutRoute stores at the host's key. -/
def putRoute (v : RouteValue) : Except RouteValueError Bytes := do
  v.validate
  return v.marshal

end Dropway.Projection
