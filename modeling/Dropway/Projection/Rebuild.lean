import Dropway.Lib.Attempt
import Dropway.Projection.Contract
import Dropway.Projection.Denylist

/-! The bulk rebuild of the route projection (RebuildFromDB of
internal/projection/cloudflare.go and of internal/projection/local.go). -/

namespace Dropway.Projection
open Lib Attempt

/-- A map from hosts. -/
structure RouteMap where
  entries : List (Bytes × RouteValue)
  distinct : (entries.map Prod.fst).Nodup

def RouteMap.get? (routes : RouteMap) (host : Bytes) : Option RouteValue := routes.entries.lookup host

/-- The entries in the order of one loop over the map. -/
def RouteMap.Range (routes : RouteMap) : Type := { entries : List (Bytes × RouteValue) // entries.Perm routes.entries }

inductive RebuildError where
  | route (host : Bytes) (error : RouteValueError)
  | listKeys
  | request (key : Bytes)
  | mirror
  deriving DecidableEq

/-- The error of the first route that is met malformed. -/
def validateRoutes : List (Bytes × RouteValue) → Except RebuildError Unit
  | [] => .ok ()
  | entry :: rest => do
    entry.2.validate.mapError (.route entry.1)
    validateRoutes rest

/-! ### In the KV namespace -/

def routePrefix : Bytes := ascii "route:"

def routeKey (host : Bytes) : Bytes := routePrefix ++ host

abbrev Namespace := Bytes → Option Bytes

/-- The namespace, and how many requests have been sent. -/
structure Session where
  kv : Namespace
  sent : Nat

/-- One request; what becomes of it is up to the API. -/
def send (answer : Nat → Answer) (error : RebuildError) (effect : Namespace → Namespace) :
    Attempt RebuildError Session Unit := fun session =>
  match answer session.sent with
  | .served => (.ok (), ⟨effect session.kv, session.sent + 1⟩)
  | .lost => (.error error, ⟨effect session.kv, session.sent + 1⟩)
  | .refused => (.error error, ⟨session.kv, session.sent + 1⟩)

/-- What the list API answers page by page; only the last page has no cursor. -/
inductive Pages where
  | last (keys : List Bytes)
  | more (keys : List Bytes) (next : Pages)

def Pages.keys : Pages → List Bytes
  | .last keys => keys
  | .more keys next => keys ++ next.keys

/-- The pages hold every key of the prefix. -/
structure Listing (kv : Namespace) where
  pages : Pages
  complete : ∀ key, key ∈ pages.keys ↔ routePrefix <+: key ∧ (kv key).isSome = true

namespace CloudflareKV

variable (answer : Nat → Answer)

def putRoute (host : Bytes) (v : RouteValue) : Attempt RebuildError Session Unit := do
  let body ← check ((Projection.putRoute v).mapError (.route host))
  send answer (.request (routeKey host)) fun kv => Function.update kv (routeKey host) (some body)

def deleteKey (key : Bytes) : Attempt RebuildError Session Unit :=
  send answer (.request key) fun kv => Function.update kv key none

def listKeys : Pages → Attempt RebuildError Session (List Bytes)
  | .last keys => do
    send answer .listKeys id
    return keys
  | .more keys next => do
    send answer .listKeys id
    let rest ← listKeys next
    return keys ++ rest

local instance lawfulKeys : LawfulBEq Bytes := inferInstance

/-- Nothing is sent before all of the input is valid, and the stale keys go first. -/
def rebuildFromDB (pages : Pages) (validated written : List (Bytes × RouteValue)) :
    Attempt RebuildError Session Unit := do
  check (validateRoutes validated)
  let desired := validated.map fun entry => routeKey entry.1
  let existing ← listKeys answer pages
  forEach (fun key => if key ∈ desired then pure () else deleteKey answer key) existing
  forEach (fun entry => putRoute answer entry.1 entry.2) written

end CloudflareKV

/-! ### In memory -/

structure Local where
  routes : Bytes → Option RouteValue
  revoked : Denylist
  orgStatus : Bytes → Option Bytes

/-- `mirror` is what becomes of writing the file, if there is one. -/
def Local.rebuildFromDB (mirror : Except RebuildError Unit) (validated written : List (Bytes × RouteValue)) :
    Attempt RebuildError Local Unit := do
  check (validateRoutes validated)
  fun memory => (mirror, { memory with
    routes := written.foldl (fun routes entry => Function.update routes entry.1 (some entry.2)) fun _ => none })

end Dropway.Projection
