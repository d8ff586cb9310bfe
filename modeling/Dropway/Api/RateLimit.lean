import Dropway.Lib.Table
import Dropway.Lib.Utf8
import Mathlib.Algebra.Order.Field.Rat
import Mathlib.Data.Rat.Floor

/-! The token buckets of the API (handlers/ratelimit.go). Times and durations are seconds;
all numbers are rationals. -/

namespace Dropway.Api
open Lib

structure TokenBucket where
  key : Text
  tokens : ℚ
  last : ℚ
  deriving DecidableEq

abbrev Buckets := Table TokenBucket.key

structure RateLimiter where
  rate : ℚ
  burst : ℚ
  expiry : ℚ
  maxEntries : Nat

def defaultMaxRateLimitEntries : Nat := 100000

def newRateLimiter (ratePerMinute burst expiry : ℚ) : RateLimiter where
  rate := (if ratePerMinute ≤ 0 then 1 else ratePerMinute) / 60
  burst := if burst ≤ 0 then 1 else burst
  expiry := if expiry ≤ 0 then 10 * 60 else expiry
  maxEntries := defaultMaxRateLimitEntries

/-- The key of the oldest bucket, the first of them in the order of the map. -/
def oldestKey (buckets : List TokenBucket) : Option Text :=
  (buckets.foldl (fun oldest bucket =>
    match oldest with
    | none => some bucket
    | some old => if bucket.last < old.last then some bucket else some old) none).map TokenBucket.key

namespace RateLimiter

variable (limiter : RateLimiter)

def pruneExpired (buckets : Buckets) (now : ℚ) : Buckets :=
  buckets.delete fun bucket => decide (bucket.last < now - limiter.expiry)

def dropOldest (buckets : Buckets) : Buckets :=
  match oldestKey buckets.rows with
  | none => buckets
  | some key => buckets.delete fun bucket => bucket.key = key

def makeRoom (buckets : Buckets) (now : ℚ) : Buckets :=
  if 0 < limiter.maxEntries ∧ limiter.maxEntries ≤ buckets.rows.length then
    let pruned := limiter.pruneExpired buckets now
    if limiter.maxEntries ≤ pruned.rows.length then dropOldest pruned else pruned
  else buckets

def refill (now : ℚ) (bucket : TokenBucket) : TokenBucket :=
  let elapsed := now - bucket.last
  if 0 < elapsed then
    let tokens := bucket.tokens + elapsed * limiter.rate
    { bucket with tokens := if limiter.burst < tokens then limiter.burst else tokens, last := now }
  else bucket

/-- A granted request takes a token; the wait of a refused one is in whole nanoseconds. -/
def spend (bucket : TokenBucket) : TokenBucket × Bool × ℚ :=
  if 1 ≤ bucket.tokens then ({ bucket with tokens := bucket.tokens - 1 }, true, 0)
  else (bucket, false, ⌊(1 - bucket.tokens) / limiter.rate * 10 ^ 9⌋ / 10 ^ 9 + 1)

/-- The bucket of the key is the one in hand from now on. -/
def put (buckets : Buckets) (bucket : TokenBucket) : Buckets :=
  buckets.upsert bucket fun old => { old with tokens := bucket.tokens, last := bucket.last }

def allow (buckets : Buckets) (now : ℚ) (key : Text) : Buckets × Bool × ℚ :=
  match buckets.get? key with
  | none =>
    let spent := limiter.spend ⟨key, limiter.burst, now⟩
    (put (limiter.makeRoom buckets now) spent.1, spent.2)
  | some bucket =>
    let spent := limiter.spend (limiter.refill now bucket)
    (put buckets spent.1, spent.2)

def sweep (buckets : Buckets) (now : ℚ) : Buckets := limiter.pruneExpired buckets now

end RateLimiter

end Dropway.Api
