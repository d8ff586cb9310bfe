import Dropway.Lib.Calls
import Dropway.Lib.StaleCache
import Dropway.Lib.Utf8

/-! The key cache of the Go serve plane (services/serve/internal/edgeverify/jwks.go). -/

namespace Dropway.Serve
open Lib
open StaleCache (Fetch)

/-- Ed25519 keys by key id. -/
abbrev PublicKeys := List (Bytes × Bytes)

/-- In nanoseconds. -/
def defaultTTL : Int := 5 * 60 * 1000000000
def defaultStaleGrace : Int := 10 * 60 * 1000000000

structure JwksClient where
  keys : PublicKeys
  expiresAt : Int
  haveGood : Bool

inductive JwksError (ε : Type) where
  | unavailable (cause : ε)
  | noUsableKeys

variable {ε : Type}

def JwksClient.loadKeys (j : JwksClient) (now : Int) (fetched : Except ε PublicKeys) :
    Except (JwksError ε) PublicKeys × JwksClient :=
  if j.haveGood ∧ now < j.expiresAt then (.ok j.keys, j)
  else
    let stale (error : JwksError ε) : Except (JwksError ε) PublicKeys × JwksClient :=
      if j.haveGood ∧ now < j.expiresAt + defaultStaleGrace then (.ok j.keys, j) else (.error error, j)
    match fetched with
    | .error cause => stale (.unavailable cause)
    | .ok keys =>
      if keys.isEmpty then stale .noUsableKeys
      else (.ok keys, { keys, expiresAt := now + defaultTTL, haveGood := true })

/-! ### Loads, one after the other -/

structure JwksState where
  clock : Int
  client : JwksClient
  /-- The fetches that gave usable keys, the latest first. -/
  fetches : List (Fetch PublicKeys)

inductive JwksLoad (ε : Type) where
  | called
  | returned (now : Int) (result : Except (JwksError ε) PublicKeys) (fetches : List (Fetch PublicKeys))

def JwksClient.entry (j : JwksClient) : Option (StaleCache.Entry PublicKeys) :=
  if j.haveGood then some ⟨j.keys, j.expiresAt⟩ else none

def usableKeys (fetched : Except ε PublicKeys) : Option PublicKeys :=
  fetched.toOption.filter fun keys => !keys.isEmpty

/-- The lock is held for the whole of a load, which is handed the time that has
passed and what its fetch gives. -/
def jwksLoads : Calls.Program (Nat × Except ε PublicKeys) (JwksLoad ε) JwksState
  | (elapsed, fetched), .called, state =>
    let now := state.clock + elapsed
    let loaded := state.client.loadKeys now fetched
    let fetches := StaleCache.fetches state.client.entry now (usableKeys fetched) ++ state.fetches
    some (.returned now loaded.1 fetches, ⟨now, loaded.2, fetches⟩)
  | _, .returned .., _ => none

def JwksState.cold (clock : Int) : JwksState := ⟨clock, ⟨[], 0, false⟩, []⟩

end Dropway.Serve
