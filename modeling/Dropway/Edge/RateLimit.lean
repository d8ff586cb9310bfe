import Dropway.Edge.Env

/-! The rate limiter and the per-organisation status of the edge
(edge/serving-worker/src/ratelimit.ts). Both let a request pass when they
cannot be read. -/

namespace Dropway.Edge
open Lib

structure RateLimitPolicy where
  limit : Int := 600
  windowSeconds : Int := 60

structure RateLimitResult where
  allowed : Bool
  count : Int
  retryAfterSeconds : Int

private def passed : RateLimitResult := { allowed := true, count := 0, retryAfterSeconds := 0 }

private def positive (value : Option Text) (fallback : Int) : Int :=
  (((value.bind Text.parseInt).filter fun n => decide (0 < n))).getD fallback

def rateLimitPolicy (env : Env) : RateLimitPolicy :=
  { limit := positive env.rateLimitMax 600
    windowSeconds := positive env.rateLimitWindowSeconds 60 }

def rateLimitIdentity (request : Request) (host : Text) : Text :=
  let ip := (request.headers.get "CF-Connecting-IP").or (request.headers.get "X-Real-IP")
  match (ip.map Text.trim).filter (· ≠ []) with
  | some ip => "ip:".toList ++ ip
  | none => "host:".toList ++ host

def rateLimitNative (limiter : Text → Except Thrown Bool) (identity : Text) (windowSeconds : Int) :
    RateLimitResult :=
  match limiter identity with
  | .ok true => passed
  | .ok false => { allowed := false, count := 0, retryAfterSeconds := windowSeconds }
  | .error _ => passed

def windowKey (identity : Text) (nowMs : Int) (policy : RateLimitPolicy) : Text :=
  "rl:".toList ++ identity ++ ":".toList ++
    (toString (nowMs.fdiv (1000 * policy.windowSeconds))).toList

private def parseCount (raw : Text) : Int :=
  ((Text.parseInt raw).filter fun n => decide (0 ≤ n)).getD 0

/-- A counter's value lives for the window and at least a minute, so within the
window nothing expires. -/
def rateLimitDecision (kv : Option KVFaults) (identity : Text) (nowMs : Int)
    (policy : RateLimitPolicy) : StateM World RateLimitResult := do
  let remainingInWindow := policy.windowSeconds - (nowMs.fdiv 1000).tmod policy.windowSeconds
  match kv with
  | none => return passed
  | some faults =>
    let key := windowKey identity nowMs policy
    if faults.get key then return passed
    let prev := (← get).limits key
    let count := (prev.map parseCount).getD 0 + 1
    if !faults.put key then
      modify fun world =>
        { world with limits := Function.update world.limits key (some (toString count).toList) }
    if policy.limit < count then
      return { allowed := false, count, retryAfterSeconds := remainingInWindow }
    return { allowed := true, count, retryAfterSeconds := 0 }

/-- The native limiter where it is bound, else the counter. -/
def rateLimit (s : Setting) (request : Request) (host : Text) : StateM World RateLimitResult :=
  let policy := rateLimitPolicy s.env
  let identity := rateLimitIdentity request host
  match s.env.rateLimiter with
  | some limiter => return rateLimitNative limiter identity policy.windowSeconds
  | none => rateLimitDecision s.env.limits identity s.now policy

inductive BlockingStatus where
  | suspended
  | overLimit

def blockingStatus : Option Text → Option BlockingStatus
  | some status =>
    if status = "suspended".toList then some .suspended
    else if status = "over_limit".toList then some .overLimit
    else none
  | none => none

def orgStatusKey (orgId : Text) : Text := "org_status:".toList ++ orgId

/-- The status itself, or the `status` of a JSON envelope. -/
def parseOrgStatus (rt : Runtime) (raw : Text) : Option Text :=
  let trimmed := Text.trim raw
  if Text.startsWith trimmed "\x7b".toList then
    match rt.jsonParse trimmed with
    | some (.obj members) =>
      match Json.member members "status" with
      | some (.str status) => some status.toList
      | _ => none
    | _ => none
  else some trimmed

def readOrgStatus (s : Setting) (orgId : Text) : StateM World (Option Text) := do
  match s.env.limits with
  | none => return none
  | some faults =>
    if faults.get (orgStatusKey orgId) then return none
    return ((← get).limits (orgStatusKey orgId)).bind (parseOrgStatus s.rt)

end Dropway.Edge
