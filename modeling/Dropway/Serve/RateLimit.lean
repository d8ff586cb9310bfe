import Dropway.Lib.Utf8
import Mathlib.Logic.Function.Basic

/-! The fixed-window limiter of the self-hosted edge (services/serve/internal/ratelimit).
Times and durations are nanoseconds, a count is a 64-bit integer. -/

namespace Dropway.Serve
open Lib

def second : Int := 1000000000

def defaultWindow : Int := 60 * second

structure Limiter where
  limit : Int
  window : Int

def Limiter.new (limit window : Int) : Limiter :=
  ⟨limit, if window ≤ 0 then defaultWindow else window⟩

structure WindowCounter where
  index : Int
  count : Int
  deriving DecidableEq

structure Windows where
  counters : Text → Option WindowCounter
  lastSweep : Int

/-- The zero time, of year 1. -/
def zeroTime : Int := -62135596800 * second

def Windows.empty : Windows := ⟨fun _ => none, zeroTime⟩

structure LimitResult where
  allowed : Bool
  retryAfterSeconds : Int
  deriving DecidableEq

def unix (now : Int) : Int := now.fdiv second

/-- The difference of two times saturates. -/
def timeSub (later earlier : Int) : Int := max (-2 ^ 63) (min (later - earlier) (2 ^ 63 - 1))

namespace Limiter

variable (limiter : Limiter)

def winSecs : Int :=
  if limiter.window.tdiv second ≤ 0 then 1 else limiter.window.tdiv second

def index (now : Int) : Int := (unix now).tdiv limiter.winSecs

def sweep (windows : Windows) (now : Int) : Windows :=
  if timeSub now windows.lastSweep < limiter.window then windows
  else
    { counters := fun identity =>
        (windows.counters identity).filter fun wc => !decide (wc.index < limiter.index now)
      lastSweep := now }

/-- The counter of the open window, a fresh one where none is kept. -/
def counter (windows : Windows) (now : Int) (identity : Text) : WindowCounter :=
  match windows.counters identity with
  | some wc => if wc.index ≠ limiter.index now then ⟨limiter.index now, 0⟩ else wc
  | none => ⟨limiter.index now, 0⟩

def retryAfter (now : Int) : Int :=
  let remaining := limiter.winSecs - (unix now).tmod limiter.winSecs
  if remaining < 1 then 1 else remaining

def allow (windows : Windows) (now : Int) (identity : Text) : Windows × LimitResult :=
  if limiter.limit ≤ 0 then (windows, ⟨true, 0⟩)
  else
    let windows := limiter.sweep windows now
    let wc := limiter.counter windows now identity
    let wc := { wc with count := (wc.count + 1).bmod (2 ^ 64) }
    let windows :=
      { windows with counters := Function.update windows.counters identity (some wc) }
    if wc.count > limiter.limit then (windows, ⟨false, limiter.retryAfter now⟩)
    else (windows, ⟨true, 0⟩)

end Limiter

end Dropway.Serve
