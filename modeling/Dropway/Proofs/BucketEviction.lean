import Dropway.Api.RateLimit
import Dropway.Lib.Metered
import Mathlib.Algebra.Order.Floor.Semiring
import Mathlib.Data.Finset.Card

/-! Dropping an idle bucket refills it. Nobody notices as long as a bucket left alone for the
expiry is full again. -/

namespace Dropway.Api
open Lib

inductive BucketOp where
  | allow (key : Text)
  | sweep
  deriving DecidableEq

structure BucketEvent where
  time : ℚ
  op : BucketOp

def BucketEvent.key? (event : BucketEvent) : Option Text :=
  match event.op with
  | .allow key => some key
  | .sweep => none

/-- The keys that a run asks about. -/
def keysOf (events : List BucketEvent) : Finset Text := (events.filterMap BucketEvent.key?).toFinset

namespace RateLimiter

variable (limiter : RateLimiter)

def step (buckets : Buckets) (event : BucketEvent) : Buckets :=
  match event.op with
  | .allow key => (limiter.allow buckets event.time key).1
  | .sweep => limiter.sweep buckets event.time

def grants (key : Text) (buckets : Buckets) (event : BucketEvent) : Bool :=
  match event.op with
  | .allow caller => decide (caller = key) && (limiter.allow buckets event.time caller).2.1
  | .sweep => false

/-- The requests of a key granted between `start` and `stop`. -/
def granted (key : Text) (start stop : ℚ) : Buckets → List BucketEvent → Nat
  | _, [] => 0
  | buckets, event :: later =>
    (if limiter.grants key buckets event ∧ start ≤ event.time ∧ event.time ≤ stop then 1 else 0) +
      granted key start stop (limiter.step buckets event) later

/-- In every interval each key is granted at most the burst and what refills in it. -/
def SurvivesEviction : Prop :=
  ∀ events : List BucketEvent,
    (events.Pairwise fun earlier later => earlier.time ≤ later.time) →
    (keysOf events).card < limiter.maxEntries →
      ∀ (key : Text) (start length : ℚ), 0 ≤ length →
        (limiter.granted key start (start + length) Table.empty events : ℚ) ≤
          limiter.burst + limiter.rate * length

/-- What a key may still spend; a key without a bucket has the burst. -/
def level (key : Text) (buckets : Buckets) (now : ℚ) : ℚ :=
  match buckets.get? key with
  | none => limiter.burst
  | some bucket => min limiter.burst (bucket.tokens + limiter.rate * (now - bucket.last))

structure Sound : Prop where
  rate : 0 < limiter.rate
  burst : 0 < limiter.burst
  expiry : 0 < limiter.expiry

structure Holds (keys : Finset Text) (now : ℚ) (bucket : TokenBucket) : Prop where
  filled : 0 ≤ bucket.tokens
  capped : bucket.tokens ≤ limiter.burst
  past : bucket.last ≤ now
  asked : bucket.key ∈ keys

/-- The buckets are those of keys in use, and there is room for more. -/
structure Fit (keys : Finset Text) (buckets : Buckets) (now : ℚ) : Prop where
  holds : ∀ key bucket, buckets.get? key = some bucket → limiter.Holds keys now bucket
  room : keys.card < limiter.maxEntries

end RateLimiter

theorem newRateLimiter_room (ratePerMinute burst expiry : ℚ) :
    1 < (newRateLimiter ratePerMinute burst expiry).maxEntries := by
  change 1 < defaultMaxRateLimitEntries
  decide

theorem newRateLimiter_sound (ratePerMinute burst expiry : ℚ) :
    (newRateLimiter ratePerMinute burst expiry).Sound := by
  refine ⟨?_, ?_, ?_⟩
  · change 0 < (if ratePerMinute ≤ 0 then 1 else ratePerMinute) / 60
    split <;> linarith
  · change 0 < if burst ≤ 0 then 1 else burst
    split <;> linarith
  · change 0 < if expiry ≤ 0 then 10 * 60 else expiry
    split <;> linarith

namespace RateLimiter

variable {limiter : RateLimiter} {keys : Finset Text} {buckets : Buckets} {now later : ℚ}
  {key other : Text} {bucket : TokenBucket}

theorem Holds.mono (holds : limiter.Holds keys now bucket) (after : now ≤ later) :
    limiter.Holds keys later bucket :=
  { holds with past := holds.past.trans after }

theorem Fit.mono (fit : limiter.Fit keys buckets now) (after : now ≤ later) :
    limiter.Fit keys buckets later :=
  ⟨fun key bucket found => (fit.holds key bucket found).mono after, fit.room⟩

theorem fit_empty (room : keys.card < limiter.maxEntries) : limiter.Fit keys Table.empty now :=
  ⟨fun _ _ found => (by cases found), room⟩

theorem level_none (none : buckets.get? key = none) : limiter.level key buckets now = limiter.burst := by
  rw [level, none]

theorem level_some (found : buckets.get? key = some bucket) :
    limiter.level key buckets now =
      min limiter.burst (bucket.tokens + limiter.rate * (now - bucket.last)) := by
  rw [level, found]

theorem level_congr {buckets' : Buckets} (same : buckets'.get? key = buckets.get? key) :
    limiter.level key buckets' now = limiter.level key buckets now := by
  rw [level, level, same]

private theorem makeRoom_eq (fit : limiter.Fit keys buckets now) :
    limiter.makeRoom buckets now = buckets := by
  have few : buckets.rows.length ≤ keys.card := by
    rw [← List.length_map (f := TokenBucket.key), ← List.toFinset_card_of_nodup buckets.nodup]
    apply Finset.card_le_card
    intro key mem
    obtain ⟨bucket, inside, rfl⟩ := List.mem_map.mp (List.mem_toFinset.mp mem)
    exact (fit.holds _ bucket (Table.mem_iff_get?.mp inside)).asked
  have room := fit.room
  rw [makeRoom, if_neg]
  omega

private theorem refill_eq (holds : limiter.Holds keys now bucket) :
    limiter.refill now bucket =
      ⟨bucket.key, min limiter.burst (bucket.tokens + limiter.rate * (now - bucket.last)), now⟩ := by
  have past := holds.past
  unfold refill
  by_cases elapsed : 0 < now - bucket.last
  · simp only [if_pos elapsed]
    rw [mul_comm, min_def_lt]
  · have same : bucket.last = now := by linarith
    simp only [if_neg elapsed]
    rw [same, sub_self, mul_zero, add_zero, min_eq_right holds.capped, ← same]

private theorem get_put (key : Text) :
    (put buckets bucket).get? key = if bucket.key = key then some bucket else buckets.get? key := by
  rw [put, Table.get?_upsert]
  by_cases same : bucket.key = key
  · rw [if_pos same, if_pos same]
    cases found : buckets.get? key with
    | none => rfl
    | some old =>
      have keyed := Table.get?_key found
      rw [Option.elim_some]
      obtain ⟨name, tokens, last⟩ := bucket
      obtain ⟨oldName, oldTokens, oldLast⟩ := old
      simp only at keyed same ⊢
      rw [keyed, same]
  · rw [if_neg same, if_neg same]

/-- One request: it is granted where a whole token is left, and takes it. -/
structure Asked (limiter : RateLimiter) (buckets : Buckets) (now : ℚ) (key : Text) : Prop where
  granted : (limiter.allow buckets now key).2.1 = decide (1 ≤ limiter.level key buckets now)
  own : (limiter.allow buckets now key).1.get? key =
    some ⟨key, limiter.level key buckets now - (if 1 ≤ limiter.level key buckets now then 1 else 0), now⟩
  others : ∀ other, key ≠ other → (limiter.allow buckets now key).1.get? other = buckets.get? other

private theorem spend_granted : (limiter.spend bucket).2.1 = decide (1 ≤ bucket.tokens) := by
  unfold spend
  split <;> simp [*]

private theorem spend_bucket :
    (limiter.spend bucket).1 =
      { bucket with tokens := bucket.tokens - if 1 ≤ bucket.tokens then 1 else 0 } := by
  unfold spend
  split <;> simp

theorem allow_asked (fit : limiter.Fit keys buckets now) (key : Text) :
    Asked limiter buckets now key := by
  cases found : buckets.get? key with
  | none =>
    have level : limiter.level key buckets now = limiter.burst := level_none found
    have allowed : limiter.allow buckets now key =
        (put buckets (limiter.spend ⟨key, limiter.burst, now⟩).1,
          (limiter.spend ⟨key, limiter.burst, now⟩).2) := by
      rw [allow, found]
      simp only [makeRoom_eq fit]
    refine ⟨?_, ?_, fun other apart => ?_⟩
    · rw [allowed, spend_granted, level]
    · rw [allowed, spend_bucket, get_put, if_pos rfl, level]
    · rw [allowed, spend_bucket, get_put, if_neg apart]
  | some bucket =>
    have holds := fit.holds key bucket found
    have level : limiter.level key buckets now =
        min limiter.burst (bucket.tokens + limiter.rate * (now - bucket.last)) := level_some found
    have keyed := Table.get?_key found
    have allowed : limiter.allow buckets now key =
        (put buckets (limiter.spend ⟨key, limiter.level key buckets now, now⟩).1,
          (limiter.spend ⟨key, limiter.level key buckets now, now⟩).2) := by
      rw [allow, found]
      simp only [refill_eq holds, ← level, keyed]
    refine ⟨?_, ?_, fun other apart => ?_⟩
    · rw [allowed, spend_granted]
    · rw [allowed, spend_bucket, get_put, if_pos rfl]
    · rw [allowed, spend_bucket, get_put, if_neg apart]

theorem level_nonneg (sound : limiter.Sound) (fit : limiter.Fit keys buckets now) :
    0 ≤ limiter.level key buckets now := by
  cases found : buckets.get? key with
  | none =>
    rw [level_none found]
    exact sound.burst.le
  | some bucket =>
    have holds := fit.holds key bucket found
    rw [level_some found]
    refine le_min sound.burst.le (add_nonneg holds.filled ?_)
    exact mul_nonneg sound.rate.le (sub_nonneg.mpr holds.past)

theorem level_le_burst : limiter.level key buckets now ≤ limiter.burst := by
  cases found : buckets.get? key with
  | none => exact (level_none found).le
  | some bucket =>
    rw [level_some found]
    exact min_le_left _ _

theorem level_eq (sound : limiter.Sound) (after : now ≤ later) :
    limiter.level key buckets later =
      min limiter.burst (limiter.level key buckets now + limiter.rate * (later - now)) := by
  have more : 0 ≤ limiter.rate * (later - now) := mul_nonneg sound.rate.le (sub_nonneg.mpr after)
  cases found : buckets.get? key with
  | none =>
    rw [level_none found, level_none found, min_eq_left (by linarith)]
  | some bucket =>
    rw [level_some found, level_some found, ← min_add_add_right, ← min_assoc,
      min_eq_left (le_add_of_nonneg_right more), add_assoc, ← mul_add]
    ring_nf

theorem level_refills (sound : limiter.Sound) (after : now ≤ later) :
    limiter.level key buckets later ≤ limiter.level key buckets now + limiter.rate * (later - now) := by
  rw [level_eq sound after]
  exact min_le_right _ _

private theorem asked_holds (sound : limiter.Sound) (fit : limiter.Fit keys buckets now)
    (usable : key ∈ keys) :
    limiter.Holds keys now
      ⟨key, limiter.level key buckets now - (if 1 ≤ limiter.level key buckets now then 1 else 0), now⟩ := by
  have positive : 0 ≤ limiter.level key buckets now := level_nonneg sound fit
  have capped : limiter.level key buckets now ≤ limiter.burst := level_le_burst
  refine ⟨?_, ?_, le_refl _, usable⟩
  · change 0 ≤ limiter.level key buckets now - _
    split <;> linarith
  · change limiter.level key buckets now - _ ≤ limiter.burst
    split <;> linarith

theorem allow_fit (sound : limiter.Sound) (fit : limiter.Fit keys buckets now) (usable : key ∈ keys) :
    limiter.Fit keys (limiter.allow buckets now key).1 now := by
  have asked := allow_asked fit key
  refine ⟨fun other bucket found => ?_, fit.room⟩
  by_cases own : key = other
  · subst own
    rw [asked.own] at found
    rw [← Option.some.inj found]
    exact asked_holds sound fit usable
  · rw [asked.others other own] at found
    exact fit.holds other bucket found

private theorem sweep_some (found : (limiter.sweep buckets now).get? key = some bucket) :
    buckets.get? key = some bucket := by
  rw [sweep, pruneExpired, Table.get?_delete] at found
  exact (Option.filter_eq_some_iff.mp found).1

theorem sweep_fit (fit : limiter.Fit keys buckets now) :
    limiter.Fit keys (limiter.sweep buckets now) now :=
  ⟨fun key bucket found => fit.holds key bucket (sweep_some found), fit.room⟩

private theorem swept (gone : (limiter.sweep buckets now).get? key ≠ buckets.get? key) :
    ∃ bucket, buckets.get? key = some bucket ∧ bucket.last < now - limiter.expiry ∧
      (limiter.sweep buckets now).get? key = none := by
  rw [sweep, pruneExpired, Table.get?_delete] at gone ⊢
  cases found : buckets.get? key with
  | none => exact absurd (by rw [found, Option.filter_none]) gone
  | some bucket =>
    by_cases idle : bucket.last < now - limiter.expiry
    · refine ⟨bucket, rfl, idle, ?_⟩
      rw [Option.filter_some, decide_eq_true idle]
      rfl
    · refine absurd ?_ gone
      rw [found, Option.filter_some, decide_eq_false idle]
      rfl

/-- A bucket that a sweep drops is full by then, so the sweep changes no level. -/
theorem sweep_level (sound : limiter.Sound) (refills : limiter.burst ≤ limiter.rate * limiter.expiry)
    (fit : limiter.Fit keys buckets now) :
    limiter.level key (limiter.sweep buckets now) now = limiter.level key buckets now := by
  by_cases same : (limiter.sweep buckets now).get? key = buckets.get? key
  · exact level_congr same
  · obtain ⟨bucket, found, idle, gone⟩ := swept same
    have holds := fit.holds key bucket found
    have long : limiter.rate * limiter.expiry ≤ limiter.rate * (now - bucket.last) :=
      mul_le_mul_of_nonneg_left (by linarith) sound.rate.le
    have filled := holds.filled
    rw [level_none gone, level_some found, min_eq_left (by linarith)]

/-- The limiter as a metered system, seen from one key. -/
def metered (limiter : RateLimiter) (sound : limiter.Sound)
    (refills : limiter.burst ≤ limiter.rate * limiter.expiry) (keys : Finset Text) (key : Text) :
    Metered Buckets BucketEvent ℚ where
  time := BucketEvent.time
  step := limiter.step
  grants := limiter.grants key
  usable event := ∀ asked, event.key? = some asked → asked ∈ keys
  Fit := limiter.Fit keys
  level := limiter.level key
  cap := limiter.burst
  rate := limiter.rate
  rate_nonneg := sound.rate.le
  level_nonneg := level_nonneg sound
  level_le_cap _ := level_le_burst
  refills _ after := level_refills sound after
  fit_later := Fit.mono
  fit_step {buckets event} usable fit := by
    obtain ⟨time, op⟩ := event
    cases op with
    | allow caller => exact allow_fit sound fit (usable caller rfl)
    | sweep => exact sweep_fit fit
  pays {buckets event} usable fit := by
    obtain ⟨time, op⟩ := event
    cases op with
    | allow caller =>
      have asked := allow_asked fit caller
      change limiter.level key (limiter.allow buckets time caller).1 time +
        (if (decide (caller = key) && (limiter.allow buckets time caller).2.1) then 1 else 0) ≤ _
      by_cases own : caller = key
      · subst own
        rw [level_some asked.own, asked.granted]
        refine le_trans (add_le_add (min_le_right _ _) le_rfl) (le_of_eq ?_)
        simp
      · rw [level_congr (asked.others key own)]
        simp [own]
    | sweep =>
      change limiter.level key (limiter.sweep buckets time) time + (if false = true then 1 else 0) ≤ _
      rw [sweep_level sound refills fit, if_neg Bool.false_ne_true, add_zero]

private theorem metered_granted (sound : limiter.Sound)
    (refills : limiter.burst ≤ limiter.rate * limiter.expiry) (start stop : ℚ)
    (events : List BucketEvent) :
    (metered limiter sound refills keys key).granted start stop buckets events =
      limiter.granted key start stop buckets events := by
  induction events generalizing buckets with
  | nil => rfl
  | cons event later ih =>
    rw [Metered.granted, granted, ih]
    rfl

private theorem asked_mem {events : List BucketEvent} {event : BucketEvent} (mem : event ∈ events)
    (asked : event.key? = some key) : key ∈ keysOf events :=
  List.mem_toFinset.mpr (List.mem_filterMap.mpr ⟨event, mem, asked⟩)

theorem survives (sound : limiter.Sound) (refills : limiter.burst ≤ limiter.rate * limiter.expiry) :
    limiter.SurvivesEviction := by
  intro events ordered few key start length positive
  cases events with
  | nil =>
    rw [granted, Nat.cast_zero]
    exact add_nonneg sound.burst.le (mul_nonneg sound.rate.le positive)
  | cons event later =>
    let system := metered limiter sound refills (keysOf (event :: later)) key
    have timely : system.Timely event.time (event :: later) := by
      refine ⟨ordered, fun other mem => ?_, fun other mem asked found => asked_mem mem found⟩
      rcases List.mem_cons.mp mem with rfl | behind
      · exact le_rfl
      · exact (List.pairwise_cons.mp ordered).1 other behind
    have bound := system.granted_le (fit_empty few) timely (show start ≤ start + length by linarith)
    rw [metered_granted, add_sub_cancel_left] at bound
    exact bound

variable {start stop : ℚ} {events : List BucketEvent}

def run (limiter : RateLimiter) (buckets : Buckets) (events : List BucketEvent) : Buckets :=
  events.foldl limiter.step buckets

private theorem granted_append (front back : List BucketEvent) :
    limiter.granted key start stop buckets (front ++ back) =
      limiter.granted key start stop buckets front +
        limiter.granted key start stop (limiter.run buckets front) back := by
  induction front generalizing buckets with
  | nil => exact (Nat.zero_add _).symm
  | cons event later ih =>
    rw [List.cons_append, granted, granted, ih, Nat.add_assoc]
    rfl

private theorem grants_of (fit : limiter.Fit keys buckets now) (enough : 1 ≤ limiter.level key buckets now) :
    limiter.grants key buckets ⟨now, .allow key⟩ = true := by
  have granted := (allow_asked fit key).granted
  change (decide (key = key) && (limiter.allow buckets now key).2.1) = true
  rw [granted, decide_eq_true enough, decide_eq_true rfl, Bool.and_self]

private theorem run_repeated (sound : limiter.Sound) (fit : limiter.Fit keys buckets now)
    (usable : key ∈ keys) (inside : start ≤ now ∧ now ≤ stop) (number : Nat)
    (enough : (number : ℚ) ≤ limiter.level key buckets now) :
    let events := List.replicate number ⟨now, .allow key⟩
    limiter.granted key start stop buckets events = number ∧
      limiter.Fit keys (limiter.run buckets events) now ∧
      limiter.level key (limiter.run buckets events) now = limiter.level key buckets now - number := by
  induction number generalizing buckets with
  | zero => exact ⟨rfl, fit, by simp [run]⟩
  | succ number ih =>
    push_cast at enough
    have one : 1 ≤ limiter.level key buckets now := by
      have positive : (0 : ℚ) ≤ number := Nat.cast_nonneg _
      linarith
    have asked := allow_asked fit key
    have lower : limiter.level key (limiter.allow buckets now key).1 now =
        limiter.level key buckets now - 1 := by
      have capped : limiter.level key buckets now ≤ limiter.burst := level_le_burst
      rw [level_some asked.own, if_pos one, sub_self, mul_zero, add_zero, min_eq_right (by linarith)]
    obtain ⟨count, fits, left⟩ := ih (allow_fit sound fit usable) (by rw [lower]; linarith)
    refine ⟨?_, fits, ?_⟩
    · rw [List.replicate_succ, granted, if_pos ⟨grants_of fit one, inside⟩]
      change 1 + limiter.granted key start stop (limiter.allow buckets now key).1 _ = _
      rw [count, Nat.add_comm]
    · change limiter.level key (limiter.run (limiter.allow buckets now key).1 _) now = _
      rw [left, lower]
      push_cast
      ring

/-- Requests that take the whole burst and the rest of its last token, once it is there. -/
def drain (key : Text) (number : Nat) (now wait : ℚ) : List BucketEvent :=
  List.replicate number ⟨now, .allow key⟩ ++ [⟨now + wait, .allow key⟩]

/-- `number` tokens are whole, and `wait` fills up the next one. -/
structure Drains (limiter : RateLimiter) (number : Nat) (wait : ℚ) : Prop where
  whole : (number : ℚ) ≤ limiter.burst
  rest : limiter.burst - number + limiter.rate * wait = 1
  wait : 0 ≤ wait

private theorem drains_exist (sound : limiter.Sound) :
    ∃ number wait, Drains limiter number wait := by
  have positive := Nat.ceil_pos.mpr sound.burst
  obtain ⟨number, ceil⟩ := Nat.exists_eq_succ_of_ne_zero positive.ne'
  have above := Nat.le_ceil limiter.burst
  have below := Nat.ceil_lt_add_one sound.burst.le
  rw [ceil] at above below
  push_cast at above below
  refine ⟨number, (number + 1 - limiter.burst) / limiter.rate, by linarith, ?_, ?_⟩
  · rw [mul_div_cancel₀ _ sound.rate.ne']
    ring
  · exact div_nonneg (by linarith) sound.rate.le

private theorem drain_run (sound : limiter.Sound) (atLeast : 1 ≤ limiter.burst)
    (fit : limiter.Fit keys buckets now) (usable : key ∈ keys) (fresh : buckets.get? key = none)
    {number : Nat} {wait : ℚ} (drains : Drains limiter number wait) (from_ : start ≤ now)
    (until_ : now + wait ≤ stop) :
    limiter.granted key start stop buckets (drain key number now wait) = number + 1 ∧
      limiter.Fit keys (limiter.run buckets (drain key number now wait)) (now + wait) ∧
      (limiter.run buckets (drain key number now wait)).get? key = some ⟨key, 0, now + wait⟩ := by
  have after : now ≤ now + wait := le_add_of_nonneg_right drains.wait
  have full : limiter.level key buckets now = limiter.burst := level_none fresh
  obtain ⟨count, fits, left⟩ := run_repeated sound fit usable ⟨from_, after.trans until_⟩ number
    (by rw [full]; exact drains.whole)
  have there := fits.mono after
  have one : limiter.level key (limiter.run buckets (List.replicate number ⟨now, .allow key⟩))
      (now + wait) = 1 := by
    rw [level_eq sound after, left, full, add_sub_cancel_left, drains.rest, min_eq_right atLeast]
  have ran : limiter.run buckets (drain key number now wait) =
      (limiter.allow (limiter.run buckets (List.replicate number ⟨now, .allow key⟩))
        (now + wait) key).1 := by
    rw [run, drain, List.foldl_append]
    rfl
  refine ⟨?_, ?_, ?_⟩
  · rw [drain, granted_append, count, granted,
      if_pos ⟨grants_of there one.ge, from_.trans after, until_⟩]
    rfl
  · rw [ran]
    exact allow_fit sound there usable
  · rw [ran, (allow_asked there key).own, one, if_pos le_rfl, sub_self]

private theorem drain_times (key : Text) (now : ℚ) (number : Nat) {wait : ℚ} (positive : 0 ≤ wait) :
    ((drain key number now wait).Pairwise fun earlier later => earlier.time ≤ later.time) ∧
      ∀ event ∈ drain key number now wait, now ≤ event.time ∧ event.time ≤ now + wait ∧
        event.key? = some key := by
  have after : now ≤ now + wait := le_add_of_nonneg_right positive
  have times : ∀ event ∈ drain key number now wait, now ≤ event.time ∧ event.time ≤ now + wait ∧
      event.key? = some key := by
    intro event mem
    rcases List.mem_append.mp mem with first | last
    · rw [(List.mem_replicate.mp first).2]
      exact ⟨le_rfl, after, rfl⟩
    · rw [List.mem_singleton.mp last]
      exact ⟨after, le_rfl, rfl⟩
  refine ⟨List.pairwise_append.mpr ⟨?_, List.pairwise_singleton _ _, ?_⟩, times⟩
  · exact List.pairwise_replicate.mpr (Or.inr le_rfl)
  · intro event mem last lastMem
    rw [List.mem_singleton.mp lastMem]
    exact (times event (List.mem_append_left _ mem)).2.1

/-- The burst is spent, swept away by an idle expiry, and spent again. -/
def spentTwice (key : Text) (number : Nat) (wait idle : ℚ) : List BucketEvent :=
  drain key number 0 wait ++ ⟨wait + idle, .sweep⟩ :: drain key number (wait + idle) wait

private theorem spentTwice_ordered (key : Text) (number : Nat) {wait idle : ℚ} (positive : 0 ≤ wait)
    (later : 0 ≤ idle) :
    ((spentTwice key number wait idle).Pairwise fun earlier later => earlier.time ≤ later.time) ∧
      keysOf (spentTwice key number wait idle) ⊆ {key} := by
  obtain ⟨first, firstTimes⟩ := drain_times key 0 number positive
  obtain ⟨second, secondTimes⟩ := drain_times key (wait + idle) number positive
  refine ⟨List.pairwise_append.mpr ⟨first, List.pairwise_cons.mpr ⟨?_, second⟩, ?_⟩, ?_⟩
  · exact fun event mem => (secondTimes event mem).1
  · intro event mem other otherMem
    have before := (firstTimes event mem).2.1
    rcases List.mem_cons.mp otherMem with rfl | behind
    · change event.time ≤ wait + idle
      linarith
    · have after := (secondTimes other behind).1
      linarith
  · intro asked mem
    obtain ⟨event, inside, found⟩ := List.mem_filterMap.mp (List.mem_toFinset.mp mem)
    rw [Finset.mem_singleton]
    rcases List.mem_append.mp inside with early | late
    · exact Option.some.inj (found.symm.trans (firstTimes event early).2.2)
    · rcases List.mem_cons.mp late with rfl | behind
      · cases found
      · exact Option.some.inj (found.symm.trans (secondTimes event behind).2.2)

private theorem sweep_drops (found : buckets.get? key = some bucket)
    (idle : bucket.last < now - limiter.expiry) : (limiter.sweep buckets now).get? key = none := by
  rw [sweep, pruneExpired, Table.get?_delete, found, Option.filter_some, decide_eq_true idle]
  rfl

private theorem spentTwice_granted (sound : limiter.Sound) (atLeast : 1 ≤ limiter.burst)
    (room : 1 < limiter.maxEntries) {number : Nat} {wait idle : ℚ}
    (drains : Drains limiter number wait) (long : limiter.expiry < idle) :
    limiter.granted key 0 (wait + idle + wait) Table.empty (spentTwice key number wait idle) =
      2 * (number + 1) := by
  have usable := Finset.mem_singleton_self key
  have later := drains.wait
  have expiry := sound.expiry
  have empty : limiter.Fit {key} Table.empty 0 := fit_empty room
  obtain ⟨count, fit, left⟩ := drain_run sound atLeast empty usable rfl drains (le_refl 0)
    (show 0 + wait ≤ wait + idle + wait by linarith)
  have fit : limiter.Fit {key} _ (wait + idle) := fit.mono (by linarith)
  have gone := sweep_drops left (show 0 + wait < wait + idle - limiter.expiry by
    linarith)
  obtain ⟨again, -, -⟩ := drain_run sound atLeast (sweep_fit fit) usable gone drains
    (show (0 : ℚ) ≤ wait + idle by linarith) (le_refl (wait + idle + wait))
  rw [spentTwice, granted_append, count, granted, if_neg (fun grants => absurd grants.1 Bool.false_ne_true),
    Nat.zero_add]
  change number + 1 + limiter.granted key 0 (wait + idle + wait) (limiter.sweep _ (wait + idle)) _ = _
  rw [again]
  omega

theorem outlived (sound : limiter.Sound) (atLeast : 1 ≤ limiter.burst)
    (room : 1 < limiter.maxEntries) (short : limiter.rate * limiter.expiry < limiter.burst) :
    ¬ limiter.SurvivesEviction := by
  intro survives
  obtain ⟨number, wait, drains⟩ := drains_exist sound
  -- idle past the expiry, yet too short for the burst to refill
  obtain ⟨idle, long, still⟩ : ∃ idle, limiter.expiry < idle ∧ limiter.rate * idle < limiter.burst := by
    obtain ⟨idle, long, still⟩ := exists_between ((lt_div_iff₀' sound.rate).mpr short)
    exact ⟨idle, long, (lt_div_iff₀' sound.rate).mp still⟩
  have later := drains.wait
  have expiry := sound.expiry
  obtain ⟨ordered, only⟩ := spentTwice_ordered ['k'] number later (expiry.le.trans long.le)
  have few : (keysOf (spentTwice ['k'] number wait idle)).card < limiter.maxEntries := by
    have one := Finset.card_le_card only
    rw [Finset.card_singleton] at one
    omega
  have bound := survives _ ordered few ['k'] 0 (wait + idle + wait) (by linarith)
  rw [zero_add, spentTwice_granted sound atLeast room drains long] at bound
  have rest := drains.rest
  push_cast at bound
  nlinarith

end RateLimiter

/-- Dropped buckets stay unseen just where the expiry refills the whole burst. -/
theorem survives_eviction_iff (ratePerMinute burst expiry : ℚ) (atLeast : 1 ≤ burst) :
    (newRateLimiter ratePerMinute burst expiry).SurvivesEviction ↔
      burst ≤ (newRateLimiter ratePerMinute burst expiry).rate *
        (newRateLimiter ratePerMinute burst expiry).expiry := by
  have sound := newRateLimiter_sound ratePerMinute burst expiry
  have kept : (newRateLimiter ratePerMinute burst expiry).burst = burst := if_neg (by linarith)
  constructor
  · intro survives
    by_contra short
    exact RateLimiter.outlived sound (by rw [kept]; exact atLeast)
      (newRateLimiter_room ..)
      (by rw [kept]; exact not_le.mp short) survives
  · intro refills
    exact RateLimiter.survives sound (by rw [kept]; exact refills)

theorem survives_eviction_five :
    (1 : ℚ) ≤ 5 ∧ ((newRateLimiter 60 5 60).SurvivesEviction ↔
      5 ≤ (newRateLimiter 60 5 60).rate * (newRateLimiter 60 5 60).expiry) :=
  ⟨by norm_num, survives_eviction_iff 60 5 60 (by norm_num)⟩

/-- Twenty at once, one a minute, forgotten after ten minutes. -/
theorem twenty_outlived : ¬ (newRateLimiter 1 20 600).SurvivesEviction := by
  refine RateLimiter.outlived (newRateLimiter_sound 1 20 600) ?_ (newRateLimiter_room ..) ?_
  · change (1 : ℚ) ≤ 20
    norm_num
  · change (1 : ℚ) / 60 * 600 < 20
    norm_num

end Dropway.Api
