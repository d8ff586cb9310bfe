import Mathlib.Tactic.Common

/-! Computations on a state that may stop with an error: what was done by then stays
done. The rules are about the state such a computation ends in, wherever it stops. -/

namespace Dropway.Lib

def Attempt (ε σ α : Type) : Type := σ → Except ε α × σ

namespace Attempt

variable {ε σ τ α β : Type}

def succeed (value : α) : Attempt ε σ α := fun state => (.ok value, state)

def andThen (first : Attempt ε σ α) (next : α → Attempt ε σ β) : Attempt ε σ β := fun state =>
  match first state with
  | (.ok value, state) => next value state
  | (.error error, state) => (.error error, state)

instance : Monad (Attempt ε σ) where
  pure := succeed
  bind := andThen

/-- A check that leaves the state alone. -/
def check (value : Except ε α) : Attempt ε σ α := fun state => (value, state)

/-- The loop ends at the first error. -/
def forEach (body : α → Attempt ε σ Unit) : List α → Attempt ε σ Unit
  | [] => pure ()
  | item :: rest => do
    body item
    forEach body rest

theorem bind_of_ok {first : Attempt ε σ α} {next : α → Attempt ε σ β} {state middle : σ} {value : α}
    (ran : first state = (.ok value, middle)) : (first >>= next) state = next value middle := by
  change andThen first next state = _
  rw [andThen, ran]

theorem bind_ok {first : Attempt ε σ α} {next : α → Attempt ε σ β} {state after : σ} {value : β} :
    (first >>= next) state = (.ok value, after) ↔
      ∃ a middle, first state = (.ok a, middle) ∧ next a middle = (.ok value, after) := by
  change andThen first next state = _ ↔ _
  rw [andThen]
  constructor
  · intro ran
    cases here : first state with
    | mk outcome middle =>
      rw [here] at ran
      cases outcome with
      | ok a => exact ⟨a, middle, rfl, ran⟩
      | error error => cases (Prod.mk.inj ran).1
  · intro ran
    obtain ⟨a, middle, here, later⟩ := ran
    rw [here]
    exact later

theorem bind_of_error {first : Attempt ε σ α} {next : α → Attempt ε σ β} {state middle : σ} {error : ε}
    (ran : first state = (.error error, middle)) : (first >>= next) state = (.error error, middle) := by
  change andThen first next state = _
  rw [andThen, ran]

/-! ### What holds wherever it stops -/

def Keeps (kept : σ → Prop) (attempt : Attempt ε σ α) : Prop := ∀ state, kept state → kept (attempt state).2

variable {kept : σ → Prop}

theorem keeps_check (value : Except ε α) : Keeps kept (check value : Attempt ε σ α) := fun _ holds => holds

/-- A value that `first` may come to. -/
def Yields (first : Attempt ε σ α) (value : α) : Prop := ∃ state, (first state).1 = .ok value

theorem Keeps.bind {first : Attempt ε σ α} {next : α → Attempt ε σ β} (before : Keeps kept first)
    (after : ∀ value, Yields first value → Keeps kept (next value)) : Keeps kept (first >>= next) := by
  intro state holds
  have middle := before state holds
  cases ran : first state with
  | mk outcome left =>
    rw [ran] at middle
    cases outcome with
    | ok value =>
      rw [bind_of_ok ran]
      exact after value ⟨state, by rw [ran]⟩ left middle
    | error error =>
      rw [bind_of_error ran]
      exact middle

theorem Keeps.forEach {body : α → Attempt ε σ Unit} {items : List α} (each : ∀ item ∈ items, Keeps kept (body item)) :
    Keeps kept (forEach body items) := by
  induction items with
  | nil => exact fun _ holds => holds
  | cons item rest ih =>
    apply Keeps.bind (each item (List.mem_cons_self ..))
    intro _ _
    exact ih fun other mem => each other (List.mem_cons_of_mem _ mem)

/-! ### Whether it succeeds -/

/-- The steps are counted, and it succeeds exactly if all that it took are good. -/
def Tells (count : σ → Nat) (good : Nat → Prop) (attempt : Attempt ε σ α) : Prop :=
  ∀ state, count state ≤ count (attempt state).2 ∧
    ((∃ value, (attempt state).1 = .ok value) ↔
      ∀ i, count state ≤ i → i < count (attempt state).2 → good i)

variable {count : σ → Nat} {good : Nat → Prop}

theorem tells_check (value : α) : Tells count good (check (.ok value) : Attempt ε σ α) := by
  intro state
  refine ⟨Nat.le_refl _, iff_of_true ⟨value, rfl⟩ ?_⟩
  intro i least most
  exact absurd most (Nat.not_lt.mpr least)

theorem Tells.bind {first : Attempt ε σ α} {next : α → Attempt ε σ β} (before : Tells count good first)
    (after : ∀ value, Yields first value → Tells count good (next value)) : Tells count good (first >>= next) := by
  intro state
  obtain ⟨grows, tells⟩ := before state
  cases ran : first state with
  | mk outcome left =>
    rw [ran] at grows tells
    cases outcome with
    | ok value =>
      obtain ⟨later, rest⟩ := after value ⟨state, by rw [ran]⟩ left
      rw [bind_of_ok ran]
      refine ⟨Nat.le_trans grows later, rest.trans ?_⟩
      have early := tells.mp ⟨value, rfl⟩
      constructor
      · intro good i least most
        rcases Nat.lt_or_ge i (count left) with below | above
        · exact early i least below
        · exact good i above most
      · intro good i least most
        exact good i (Nat.le_trans grows least) most
    | error error =>
      rw [bind_of_error ran]
      refine ⟨grows, iff_of_false ?_ ?_⟩
      · intro success
        obtain ⟨value, absurd⟩ := success
        cases absurd
      · intro good
        obtain ⟨value, absurd⟩ := tells.mpr good
        cases absurd

theorem Tells.forEach {body : α → Attempt ε σ Unit} {items : List α} (each : ∀ item ∈ items, Tells count good (body item)) :
    Tells count good (forEach body items) := by
  induction items with
  | nil => exact tells_check ()
  | cons item rest ih =>
    apply Tells.bind (each item (List.mem_cons_self ..))
    intro _ _
    exact ih fun other mem => each other (List.mem_cons_of_mem _ mem)

/-! ### What a success has done -/

/-- Seen through `view`, a loop that succeeds has done what its turns do. -/
theorem forEach_done {body : α → Attempt ε σ Unit} (view : σ → τ) (effect : τ → α → τ) {items : List α}
    (each : ∀ item ∈ items, ∀ state, (body item state).1 = .ok () → view (body item state).2 = effect (view state) item)
    {state : σ} (success : (forEach body items state).1 = .ok ()) :
    view (forEach body items state).2 = items.foldl effect (view state) := by
  induction items generalizing state with
  | nil => rfl
  | cons item rest ih =>
    cases ran : body item state with
    | mk outcome left =>
      have turn := each item (List.mem_cons_self ..) state
      have whole : forEach body (item :: rest) state = (body item >>= fun _ => forEach body rest) state := rfl
      rw [whole] at success ⊢
      cases outcome with
      | ok value =>
        rw [bind_of_ok ran] at success ⊢
        rw [ran] at turn
        rw [ih (fun other mem => each other (List.mem_cons_of_mem _ mem)) success, turn rfl, List.foldl_cons]
      | error error =>
        rw [bind_of_error ran] at success
        cases success

end Attempt
end Dropway.Lib
