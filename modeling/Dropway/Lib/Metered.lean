import Mathlib.Algebra.Order.Field.Basic
import Mathlib.Tactic.Linarith

/-! Systems whose steps are paid from a level that refills at a bounded rate. Over any
interval the steps paid for are bounded by the level's cap and the refill of the interval. -/

namespace Dropway.Lib

structure Metered (σ ε K : Type) [Field K] [LinearOrder K] where
  time : ε → K
  step : σ → ε → σ
  grants : σ → ε → Bool
  usable : ε → Prop
  /-- What the states in use at a time satisfy. -/
  Fit : σ → K → Prop
  level : σ → K → K
  cap : K
  rate : K
  rate_nonneg : 0 ≤ rate
  level_nonneg : ∀ {state now}, Fit state now → 0 ≤ level state now
  level_le_cap : ∀ {state now}, Fit state now → level state now ≤ cap
  refills : ∀ {state now later}, Fit state now → now ≤ later →
    level state later ≤ level state now + rate * (later - now)
  fit_later : ∀ {state now later}, Fit state now → now ≤ later → Fit state later
  fit_step : ∀ {state event}, usable event → Fit state (time event) →
    Fit (step state event) (time event)
  pays : ∀ {state event}, usable event → Fit state (time event) →
    level (step state event) (time event) + (if grants state event then 1 else 0) ≤
      level state (time event)

namespace Metered

variable {σ ε K : Type} [Field K] [LinearOrder K]
  (system : Metered σ ε K)

/-- The grants of a run with times between `start` and `stop`. -/
def granted (start stop : K) : σ → List ε → Nat
  | _, [] => 0
  | state, event :: later =>
    (if system.grants state event ∧ start ≤ system.time event ∧ system.time event ≤ stop then 1
      else 0) + granted start stop (system.step state event) later

/-- Usable events, in the order of their times, none before `now`. -/
structure Timely (now : K) (events : List ε) : Prop where
  ordered : events.Pairwise fun earlier later => system.time earlier ≤ system.time later
  after : ∀ event ∈ events, now ≤ system.time event
  usable : ∀ event ∈ events, system.usable event

variable {system} {start stop now : K} {state : σ} {events : List ε} {event : ε}

theorem Timely.tail (timely : system.Timely now (event :: events)) :
    system.Timely (system.time event) events where
  ordered := (List.pairwise_cons.mp timely.ordered).2
  after := (List.pairwise_cons.mp timely.ordered).1
  usable later mem := timely.usable later (List.mem_cons_of_mem _ mem)

private theorem granted_after (late : ∀ event ∈ events, stop < system.time event) :
    system.granted start stop state events = 0 := by
  induction events generalizing state with
  | nil => rfl
  | cons event later ih =>
    have past := late event (List.mem_cons_self ..)
    have none : ¬ (system.grants state event = true ∧ start ≤ system.time event ∧
        system.time event ≤ stop) := fun within => absurd within.2.2 (not_le.mpr past)
    rw [granted, if_neg none, ih fun event mem => late event (List.mem_cons_of_mem _ mem)]

private theorem granted_past (timely : system.Timely now (event :: events))
    (past : stop < system.time event) : system.granted start stop state (event :: events) = 0 := by
  apply granted_after
  intro other mem
  rcases List.mem_cons.mp mem with rfl | behind
  · exact past
  · exact lt_of_lt_of_le past (timely.tail.after other behind)

variable [IsStrictOrderedRing K]

/-- Inside the interval every grant lowers the level by one. -/
private theorem granted_le_level (start : K) (fit : system.Fit state now) (timely : system.Timely now events)
    (before : now ≤ stop) :
    (system.granted start stop state events : K) ≤
      system.level state now + system.rate * (stop - now) := by
  have left : 0 ≤ system.rate * (stop - now) :=
    mul_nonneg system.rate_nonneg (sub_nonneg.mpr before)
  induction events generalizing state now with
  | nil =>
    rw [granted, Nat.cast_zero]
    exact add_nonneg (system.level_nonneg fit) left
  | cons event later ih =>
    have reached := timely.after event (List.mem_cons_self ..)
    have usable := timely.usable event (List.mem_cons_self ..)
    rcases le_or_gt (system.time event) stop with within | past
    · have there := system.fit_later fit reached
      have paid := system.pays usable there
      have rest := ih (system.fit_step usable there) timely.tail within
        (mul_nonneg system.rate_nonneg (sub_nonneg.mpr within))
      have refilled := system.refills fit reached
      have spent : ((if system.grants state event = true ∧ start ≤ system.time event ∧
          system.time event ≤ stop then 1 else 0 : Nat) : K) ≤
          if system.grants state event then 1 else 0 := by
        by_cases granted : system.grants state event = true
        · rw [if_pos granted]
          split <;> simp
        · simp [granted]
      rw [granted, Nat.cast_add]
      calc _ ≤ (if system.grants state event then 1 else 0 : K) +
            (system.level (system.step state event) (system.time event) +
              system.rate * (stop - system.time event)) := add_le_add spent rest
        _ ≤ system.level state (system.time event) + system.rate * (stop - system.time event) := by
          linarith
        _ ≤ system.level state now + system.rate * (stop - now) := by linarith
    · rw [granted_past timely past, Nat.cast_zero]
      exact add_nonneg (system.level_nonneg fit) left

/-- No interval sees more grants than the cap and what refills in its length. -/
theorem granted_le (fit : system.Fit state now) (timely : system.Timely now events)
    (length : start ≤ stop) :
    (system.granted start stop state events : K) ≤ system.cap + system.rate * (stop - start) := by
  have filled : 0 ≤ system.cap + system.rate * (stop - start) :=
    add_nonneg ((system.level_nonneg fit).trans (system.level_le_cap fit))
      (mul_nonneg system.rate_nonneg (sub_nonneg.mpr length))
  induction events generalizing state now with
  | nil =>
    rw [granted, Nat.cast_zero]
    exact filled
  | cons event later ih =>
    have reached := timely.after event (List.mem_cons_self ..)
    have there := system.fit_later fit reached
    rcases lt_or_ge (system.time event) start with early | inside
    · have none : ¬ (system.grants state event = true ∧ start ≤ system.time event ∧
          system.time event ≤ stop) := fun within => absurd within.2.1 (not_le.mpr early)
      rw [granted, if_neg none, Nat.zero_add]
      exact ih (system.fit_step (timely.usable event (List.mem_cons_self ..)) there) timely.tail
    · rcases le_or_gt (system.time event) stop with within | past
      · have here : system.Timely (system.time event) (event :: later) :=
          ⟨timely.ordered, fun other mem => (List.mem_cons.mp mem).elim (fun same => same ▸ le_rfl)
            (timely.tail.after other), timely.usable⟩
        have bound := system.granted_le_level start there here within
        have capped := system.level_le_cap there
        have shorter : system.rate * (stop - system.time event) ≤ system.rate * (stop - start) :=
          mul_le_mul_of_nonneg_left (sub_le_sub_left inside stop) system.rate_nonneg
        linarith
      · rw [granted_past timely past, Nat.cast_zero]
        exact filled

end Metered

end Dropway.Lib
