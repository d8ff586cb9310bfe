import Dropway.Serve.RateLimit
import Mathlib.Data.List.Induction

/-! The fixed-window limiter counts each identity's calls of a window, whatever is swept and
whoever else calls. -/

namespace Dropway.Serve
open Lib

inductive LimitOp where
  | allow (identity : Text)
  | sweep
  deriving DecidableEq

structure LimitEvent where
  time : Int
  op : LimitOp
  deriving DecidableEq

namespace Limiter

variable (limiter : Limiter)

def step (windows : Windows) (event : LimitEvent) : Windows :=
  match event.op with
  | .allow identity => (limiter.allow windows event.time identity).1
  | .sweep => limiter.sweep windows event.time

def run (events : List LimitEvent) : Windows := events.foldl limiter.step Windows.empty

def isCall (identity : Text) (index : Int) (event : LimitEvent) : Bool :=
  decide (event.op = .allow identity) && decide (limiter.index event.time = index)

/-- The calls of an identity in a window. -/
def calls (events : List LimitEvent) (identity : Text) (index : Int) : Nat :=
  events.countP (limiter.isCall identity index)

def allows (events : List LimitEvent) (now : Int) (identity : Text) : Bool :=
  (limiter.allow (limiter.run events) now identity).2.allowed

/-- What the map holds for an identity in a window. -/
def held (windows : Windows) (identity : Text) (index : Int) : Int :=
  match windows.counters identity with
  | some wc => if wc.index ≠ index then 0 else wc.count
  | none => 0

end Limiter

/-- The clock does not go back. -/
def Ordered (events : List LimitEvent) : Prop :=
  events.Pairwise fun earlier later => earlier.time ≤ later.time

variable {limiter : Limiter} {windows : Windows} {events : List LimitEvent}
  {now later : Int} {identity other : Text}

theorem Limiter.winSecs_pos (limiter : Limiter) : 0 < limiter.winSecs := by
  unfold winSecs
  split <;> omega

theorem Limiter.index_mono (ordered : now ≤ later) : limiter.index now ≤ limiter.index later := by
  have seconds : unix now ≤ unix later := by
    unfold unix second
    rw [Int.fdiv_eq_ediv_of_nonneg _ (by omega), Int.fdiv_eq_ediv_of_nonneg _ (by omega)]
    omega
  exact Int.tdiv_le_tdiv limiter.winSecs_pos seconds

private theorem held_some {wc : WindowCounter} {index : Int}
    (kept : windows.counters identity = some wc) (open_ : wc.index = index) :
    Limiter.held windows identity index = wc.count := by
  simp [Limiter.held, kept, open_]

private theorem held_past {wc : WindowCounter} {index : Int}
    (kept : windows.counters identity = some wc) (past : wc.index ≠ index) :
    Limiter.held windows identity index = 0 := by
  simp [Limiter.held, kept, past]

private theorem held_congr {windows' : Windows} {index : Int}
    (same : windows'.counters identity = windows.counters identity) :
    Limiter.held windows' identity index = Limiter.held windows identity index := by
  rw [Limiter.held, Limiter.held, same]

/-- A sweep keeps every counter whose window is open or still to come. -/
theorem sweep_keeps_open {wc : WindowCounter} (kept : windows.counters identity = some wc)
    (open_ : limiter.index now ≤ wc.index) :
    (limiter.sweep windows now).counters identity = some wc := by
  unfold Limiter.sweep
  split
  · exact kept
  · simp only [kept, Option.filter_some]
    rw [if_pos (by simpa using open_)]

theorem sweep_removes_past (swept : (limiter.sweep windows now).counters identity ≠ windows.counters identity) :
    ∃ wc, windows.counters identity = some wc ∧ wc.index < limiter.index now ∧
      (limiter.sweep windows now).counters identity = none := by
  unfold Limiter.sweep at swept ⊢
  split at swept
  · exact absurd rfl swept
  · rename_i due
    rw [if_neg due]
    cases kept : windows.counters identity with
    | none => exact absurd (by simp [kept]) swept
    | some wc =>
      by_cases past : wc.index < limiter.index now
      · exact ⟨wc, rfl, past, by simp [kept, past]⟩
      · exact absurd (by simp [kept, past]) swept

private theorem sweep_held {index : Int} (open_ : limiter.index now ≤ index) :
    Limiter.held (limiter.sweep windows now) identity index = Limiter.held windows identity index := by
  by_cases same : (limiter.sweep windows now).counters identity = windows.counters identity
  · exact held_congr same
  · obtain ⟨wc, kept, past, gone⟩ := sweep_removes_past same
    rw [held_past kept (by omega), Limiter.held, gone]

private theorem counter_index : (limiter.counter windows now identity).index = limiter.index now := by
  unfold Limiter.counter
  split
  · split
    · rfl
    · rename_i open_
      exact not_not.mp open_
  · rfl

private theorem counter_count :
    (limiter.counter windows now identity).count =
      Limiter.held windows identity (limiter.index now) := by
  unfold Limiter.counter Limiter.held
  cases windows.counters identity with
  | none => rfl
  | some wc =>
    simp only
    split <;> rfl

/-- What the counter of the caller comes to. -/
def Limiter.counted (limiter : Limiter) (windows : Windows) (now : Int) (identity : Text) : Int :=
  (Limiter.held windows identity (limiter.index now) + 1).bmod (2 ^ 64)

private theorem counted_swept : limiter.counted windows now identity =
    ((limiter.counter (limiter.sweep windows now) now identity).count + 1).bmod (2 ^ 64) := by
  rw [counter_count, sweep_held (Int.le_refl _), Limiter.counted]

private theorem allow_counters (limits : 0 < limiter.limit) :
    (limiter.allow windows now identity).1.counters =
      Function.update (limiter.sweep windows now).counters identity
        (some ⟨limiter.index now, limiter.counted windows now identity⟩) := by
  unfold Limiter.allow
  rw [if_neg (by omega), counted_swept]
  simp only [counter_index]
  split <;> rfl

private theorem allow_result (limits : 0 < limiter.limit) :
    (limiter.allow windows now identity).2 =
      if limiter.counted windows now identity > limiter.limit then ⟨false, limiter.retryAfter now⟩
      else ⟨true, 0⟩ := by
  unfold Limiter.allow
  rw [if_neg (by omega), counted_swept]
  simp only
  split <;> rfl

private theorem allow_kept (limits : 0 < limiter.limit) :
    (limiter.allow windows now identity).1.counters identity =
      some ⟨limiter.index now, limiter.counted windows now identity⟩ := by
  rw [allow_counters limits, Function.update_self]

private theorem allow_held_own (limits : 0 < limiter.limit) :
    Limiter.held (limiter.allow windows now identity).1 identity (limiter.index now) =
      limiter.counted windows now identity :=
  held_some (allow_kept limits) rfl

private theorem allow_held_later (limits : 0 < limiter.limit) {index : Int}
    (next : limiter.index now < index) :
    Limiter.held (limiter.allow windows now identity).1 identity index = 0 :=
  held_past (allow_kept limits) (Int.ne_of_lt next)

private theorem allow_held_other (limits : 0 < limiter.limit) (apart : other ≠ identity) {index : Int}
    (open_ : limiter.index now ≤ index) :
    Limiter.held (limiter.allow windows now identity).1 other index =
      Limiter.held windows other index := by
  refine Eq.trans (held_congr ?_) (sweep_held open_)
  rw [allow_counters limits, Function.update_of_ne apart]

/-- For every window open at `now` or later the map holds the number of calls made in it. -/
def Counted (limiter : Limiter) (windows : Windows) (events : List LimitEvent) (now : Int) : Prop :=
  ∀ identity later, now ≤ later →
    Limiter.held windows identity (limiter.index later) =
      (limiter.calls events identity (limiter.index later) : Int).bmod (2 ^ 64)

private theorem calls_append (front : List LimitEvent) (event : LimitEvent) (index : Int) :
    limiter.calls (front ++ [event]) identity index =
      limiter.calls front identity index + if limiter.isCall identity index event then 1 else 0 := by
  rw [Limiter.calls, List.countP_append, List.countP_singleton, Limiter.calls]

private theorem calls_none {index : Int} (past : ∀ event ∈ events, limiter.index event.time ≠ index) :
    limiter.calls events identity index = 0 := by
  refine List.countP_eq_zero.mpr fun event mem call => ?_
  simp only [Limiter.isCall, Bool.and_eq_true, decide_eq_true_eq] at call
  exact past event mem call.2

private theorem Counted.mono (counted : Counted limiter windows events now) (ordered : now ≤ later) :
    Counted limiter windows events later :=
  fun identity time after => counted identity time (by omega)

private theorem Counted.step (limits : 0 < limiter.limit) {event : LimitEvent}
    (counted : Counted limiter windows events event.time)
    (before : ∀ earlier ∈ events, earlier.time ≤ event.time) :
    Counted limiter (limiter.step windows event) (events ++ [event]) event.time := by
  intro identity later after
  have open_ : limiter.index event.time ≤ limiter.index later := limiter.index_mono after
  obtain ⟨time, op⟩ := event
  rw [calls_append]
  cases op with
  | sweep =>
    rw [Limiter.step, sweep_held open_, counted identity later after]
    simp [Limiter.isCall]
  | allow caller =>
    change Limiter.held (limiter.allow windows time caller).1 identity _ = _
    by_cases own : identity = caller
    · subst own
      by_cases now_ : limiter.index time = limiter.index later
      · rw [← now_, allow_held_own limits, Limiter.counted, counted identity time (Int.le_refl _)]
        simp [Limiter.isCall, Int.bmod_add_bmod]
      · -- a window that opens later has no calls yet
        have none : limiter.calls events identity (limiter.index later) = 0 := by
          apply calls_none
          intro earlier mem
          have := limiter.index_mono (before earlier mem)
          simp only at open_ this
          omega
        rw [allow_held_later limits (by simp only at open_; omega), none]
        simp [Limiter.isCall, now_]
    · rw [allow_held_other limits own open_, counted identity later after]
      simp [Limiter.isCall, Ne.symm own]

private theorem ordered_front {event : LimitEvent} (ordered : Ordered (events ++ [event])) :
    Ordered events ∧ ∀ earlier ∈ events, earlier.time ≤ event.time := by
  obtain ⟨front, -, across⟩ := List.pairwise_append.mp ordered
  exact ⟨front, fun earlier mem => across earlier mem event (List.mem_singleton_self _)⟩

theorem run_counted (limits : 0 < limiter.limit) (ordered : Ordered events)
    (before : ∀ earlier ∈ events, earlier.time ≤ now) :
    Counted limiter (limiter.run events) events now := by
  induction events using List.reverseRecOn generalizing now with
  | nil =>
    intro identity later _
    simp [Limiter.run, Windows.empty, Limiter.held, Limiter.calls]
  | append_singleton front event ih =>
    obtain ⟨rest, earlier⟩ := ordered_front ordered
    have stepped := (ih rest earlier).step limits earlier
    rw [Limiter.run, List.foldl_append]
    exact stepped.mono (before event (by simp))

private theorem result_eq (limits : 0 < limiter.limit)
    (ordered : Ordered (events ++ [⟨now, .allow identity⟩])) :
    (limiter.allow (limiter.run events) now identity).2 =
      if ((limiter.calls events identity (limiter.index now) : Int) + 1).bmod (2 ^ 64) > limiter.limit then
        ⟨false, limiter.retryAfter now⟩
      else ⟨true, 0⟩ := by
  obtain ⟨rest, before⟩ := ordered_front ordered
  have counted := run_counted limits rest before identity now (Int.le_refl _)
  rw [allow_result limits, Limiter.counted, counted, Int.bmod_add_bmod]

private theorem allows_iff (limits : 0 < limiter.limit)
    (ordered : Ordered (events ++ [⟨now, .allow identity⟩])) :
    limiter.allows events now identity = true ↔
      ((limiter.calls events identity (limiter.index now) : Int) + 1).bmod (2 ^ 64) ≤ limiter.limit := by
  rw [Limiter.allows, result_eq limits ordered]
  split
  · rename_i past
    exact iff_of_false Bool.false_ne_true (by omega)
  · rename_i within
    exact iff_of_true rfl (by omega)

private theorem unlimited (off : limiter.limit ≤ 0) :
    limiter.allow windows now identity = (windows, ⟨true, 0⟩) := if_pos off

/-- The calls of an identity are those left when every other event is dropped. -/
private theorem calls_filter (index : Int) :
    limiter.calls (events.filter fun event => decide (event.op = .allow identity)) identity index =
      limiter.calls events identity index := by
  rw [Limiter.calls, List.countP_filter, Limiter.calls]
  apply List.countP_congr
  intro event _
  simp only [Limiter.isCall, Bool.and_eq_true, decide_eq_true_eq]
  exact ⟨fun call => call.1, fun call => ⟨call, call.1⟩⟩

/-- Up to the last value of the counter, the calls of a window are allowed just up to the limit. -/
theorem limit_exact (limiter : Limiter) {events : List LimitEvent} {now : Int} {identity : Text}
    (ordered : Ordered (events ++ [⟨now, .allow identity⟩])) :
    (limiter.limit ≤ 0 → limiter.allows events now identity = true) ∧
    (0 < limiter.limit → limiter.calls events identity (limiter.index now) < 2 ^ 63 - 1 →
      (limiter.allows events now identity = true ↔
        (limiter.calls events identity (limiter.index now) : Int) < limiter.limit)) ∧
    (∀ other wc, (limiter.run events).counters other = some wc → limiter.index now ≤ wc.index →
      (limiter.sweep (limiter.run events) now).counters other = some wc) ∧
    ∀ others : List LimitEvent, Ordered (others ++ [⟨now, .allow identity⟩]) →
      (others.filter fun event => decide (event.op = .allow identity)) =
        (events.filter fun event => decide (event.op = .allow identity)) →
      (limiter.allow (limiter.run others) now identity).2 =
        (limiter.allow (limiter.run events) now identity).2 := by
  refine ⟨fun off => ?_, fun limits room => ?_, fun other wc kept open_ => ?_, fun others sorted same => ?_⟩
  · rw [Limiter.allows, unlimited off]
  · rw [allows_iff limits ordered, Int.bmod_eq_of_le (by omega) (by omega)]
    omega
  · exact sweep_keeps_open kept open_
  · by_cases off : limiter.limit ≤ 0
    · rw [unlimited off, unlimited off]
    · have limits : 0 < limiter.limit := by omega
      rw [result_eq limits sorted, result_eq limits ordered, ← calls_filter, same, calls_filter]

def perMinute (limit : Int) : Limiter := Limiter.new limit (60 * second)

def firstCall : LimitEvent := ⟨0, .allow ['i']⟩

private theorem twice_ordered : Ordered ([firstCall] ++ [⟨second, .allow ['i']⟩]) := by
  refine List.pairwise_pair.mpr ?_
  decide

theorem limit_exact_second :
    (perMinute 1).allows [firstCall] second ['i'] = true ↔
      ((perMinute 1).calls [firstCall] ['i'] ((perMinute 1).index second) : Int) < 1 :=
  (limit_exact (perMinute 1) twice_ordered).2.1 (by decide) (by decide)

def Limiter.Exact (limiter : Limiter) : Prop :=
  ∀ (events : List LimitEvent) (now : Int) (identity : Text),
    Ordered (events ++ [⟨now, .allow identity⟩]) →
      (limiter.allows events now identity = true ↔
        (limiter.calls events identity (limiter.index now) : Int) < limiter.limit)

private theorem full_counter {number : Nat} (full : number + 1 = 2 ^ 63) {limit : Int}
    (limits : 0 < limit) (below : limit < 2 ^ 63 - 1) : ¬ (perMinute limit).Exact := by
  intro exact_
  let call : LimitEvent := ⟨0, .allow ['i']⟩
  have ordered : Ordered (List.replicate number call ++ [call]) := by
    rw [← List.replicate_succ']
    exact List.pairwise_replicate.mpr (Or.inr (Int.le_refl _))
  have counted : (perMinute limit).calls (List.replicate number call) ['i']
      ((perMinute limit).index 0) = number := by
    rw [Limiter.calls, List.countP_replicate, if_pos]
    simp [Limiter.isCall, call]
  have allowed : (perMinute limit).allows (List.replicate number call) 0 ['i'] = true := (allows_iff limits ordered).mpr (by
    rw [counted]
    have wrapped : ((number : Int) + 1).bmod (2 ^ 64) = -2 ^ 63 := by
      have value : (number : Int) + 1 = 2 ^ 63 := by exact_mod_cast full
      rw [value]
      decide
    rw [wrapped]
    change -2 ^ 63 ≤ limit
    omega)
  have refused := (exact_ _ _ _ ordered).mp allowed
  rw [counted] at refused
  change (number : Int) < limit at refused
  omega

/-- A limit of zero allows every call, and so does the call that wraps a counter. -/
theorem limit_not_exact : ¬ (perMinute 0).Exact ∧ ¬ (perMinute 600).Exact := by
  refine ⟨fun exact_ => ?_, full_counter (show 2 ^ 63 - 1 + 1 = 2 ^ 63 by omega) (by omega) (by omega)⟩
  have none := (exact_ [] 0 ['i'] (List.pairwise_singleton _ _)).mp rfl
  exact absurd none (by decide)

end Dropway.Serve
