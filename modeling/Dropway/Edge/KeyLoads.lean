import Dropway.Edge.Token
import Dropway.Lib.Calls
import Dropway.Lib.StaleCache

/-! The loads of the verification keys in one isolate. A load reads the cache,
awaits its fetch and then writes the cache; the loads of other requests take
their steps in between (loadKeys of edge/serving-worker/src/edgetoken.ts). -/

namespace Dropway.Edge
open Lib
open StaleCache (Entry Fetch)

/-- The cache and the clock of an isolate. The fetches that gave usable keys are
recorded, the latest first. -/
structure Isolate where
  clock : Int
  jwksCache : Text → Option JwksCacheEntry
  fetches : Text → List (Fetch Keys)

/-- A load holds the fetches that were recorded when it was called, and in the end
its own. -/
inductive KeyLoad where
  | called (jwksUrl : Text)
  | fetching (jwksUrl : Text) (now : Int) (cached : Option JwksCacheEntry) (earlier : List (Fetch Keys))
  | returned (now : Int) (keys : Option Keys) (fetches : List (Fetch Keys))

/-- The time that has passed, or what the fetch gives. -/
inductive KeyLoadInput where
  | call (elapsed : Nat)
  | response (fetchImpl : FetchLike)

def JwksCacheEntry.entry (cached : JwksCacheEntry) : Entry Keys := ⟨cached.keys, cached.expiresAt⟩

/-- The keys of a fetch that succeeds and gives some. -/
def usableKeys (jose : Jose) (fetchImpl : FetchLike) (jwksUrl : Text) : Option Keys :=
  ((fetchJwks fetchImpl jwksUrl).map (importKeys jose)).filter fun keys => !keys.isEmpty

def Isolate.keep (isolate : Isolate) (jwksUrl : Text) (kept : Option JwksCacheEntry) (own : List (Fetch Keys)) :
    Isolate :=
  { isolate with
    jwksCache := Function.update isolate.jwksCache jwksUrl (kept.or (isolate.jwksCache jwksUrl))
    fetches := Function.update isolate.fetches jwksUrl (own ++ isolate.fetches jwksUrl) }

def keyLoads (jose : Jose) : Calls.Program KeyLoadInput KeyLoad Isolate
  | .call elapsed, .called jwksUrl, isolate =>
    let now := isolate.clock + elapsed
    some (.fetching jwksUrl now (isolate.jwksCache jwksUrl) (isolate.fetches jwksUrl),
      { isolate with clock := now })
  | .response fetchImpl, .fetching jwksUrl now cached earlier, isolate =>
    let loaded := loadKeys jose fetchImpl jwksUrl cached now
    let own := StaleCache.fetches (cached.map JwksCacheEntry.entry) now (usableKeys jose fetchImpl jwksUrl)
    some (.returned now loaded.1 (own ++ earlier), isolate.keep jwksUrl loaded.2 own)
  | _, _, _ => none

/-- An isolate that has loaded nothing. -/
def Isolate.cold (clock : Int) : Isolate := ⟨clock, fun _ => none, fun _ => []⟩

end Dropway.Edge
