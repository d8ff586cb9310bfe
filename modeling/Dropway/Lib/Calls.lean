import Mathlib.Logic.Function.Basic

/-! Calls that work on one store at the same time. Each call takes its own steps
in order; the steps of different calls interleave as a schedule says. -/

namespace Dropway.Lib.Calls

variable {κ ι π σ : Type} [DecidableEq κ]

structure State (κ π σ : Type) where
  store : σ
  position : κ → π

/-- What a step does depends on what its surroundings hand it. A call that has no
next step has finished. -/
abbrev Program (ι π σ : Type) := ι → π → σ → Option (π × σ)

/-- One step of one call. -/
abbrev Act (κ ι : Type) := κ × ι

variable (next : Program ι π σ)

/-- A call that has finished does nothing. -/
def perform (state : State κ π σ) (act : Act κ ι) : State κ π σ :=
  match next act.2 (state.position act.1) state.store with
  | some (position, store) => ⟨store, Function.update state.position act.1 position⟩
  | none => state

def performAll (schedule : List (Act κ ι)) (state : State κ π σ) : State κ π σ :=
  schedule.foldl (perform next) state

/-- Every step of the run is as `fits` says, which sees the state before it. -/
def Meets (fits : State κ π σ → Act κ ι → Prop) : List (Act κ ι) → State κ π σ → Prop
  | [], _ => True
  | act :: rest, state => fits state act ∧ Meets fits rest (perform next state act)

variable {next} {state : State κ π σ} {fits : State κ π σ → Act κ ι → Prop}

@[simp] theorem performAll_nil : performAll next [] state = state := rfl

@[simp] theorem performAll_cons (act : Act κ ι) (rest : List (Act κ ι)) :
    performAll next (act :: rest) state = performAll next rest (perform next state act) := rfl

theorem performAll_append (earlier later : List (Act κ ι)) :
    performAll next (earlier ++ later) state = performAll next later (performAll next earlier state) :=
  List.foldl_append

theorem meets_append (earlier later : List (Act κ ι)) :
    Meets next fits (earlier ++ later) state ↔
      Meets next fits earlier state ∧ Meets next fits later (performAll next earlier state) := by
  induction earlier generalizing state with
  | nil => exact ⟨fun meets => ⟨trivial, meets⟩, fun meets => meets.2⟩
  | cons act rest ih =>
    rw [List.cons_append, Meets, Meets, ih, performAll_cons, and_assoc]

theorem meets_always (each : ∀ state act, fits state act) (schedule : List (Act κ ι)) : Meets next fits schedule state := by
  induction schedule generalizing state with
  | nil => trivial
  | cons act rest ih => exact ⟨each state act, ih⟩

theorem meets_and {other : State κ π σ → Act κ ι → Prop} {schedule : List (Act κ ι)} :
    Meets next (fun state act => fits state act ∧ other state act) schedule state ↔
      Meets next fits schedule state ∧ Meets next other schedule state := by
  induction schedule generalizing state with
  | nil => exact ⟨fun _ => ⟨trivial, trivial⟩, fun _ => trivial⟩
  | cons act rest ih =>
    rw [Meets, Meets, Meets, ih]
    exact and_and_and_comm

instance instDecidableMeets [each : ∀ state act, Decidable (fits state act)] :
    ∀ schedule state, Decidable (Meets next fits schedule state)
  | [], _ => .isTrue trivial
  | act :: rest, state =>
    have _ := instDecidableMeets rest (perform next state act)
    inferInstanceAs (Decidable (fits state act ∧ Meets next fits rest (perform next state act)))

/-! ### Steps -/

theorem perform_some {act : Act κ ι} {position : π} {store : σ}
    (ran : next act.2 (state.position act.1) state.store = some (position, store)) :
    perform next state act = ⟨store, Function.update state.position act.1 position⟩ := by
  rw [perform, ran]

theorem perform_none {act : Act κ ι} (finished : next act.2 (state.position act.1) state.store = none) :
    perform next state act = state := by
  rw [perform, finished]

/-- A step leaves the other calls where they are. -/
theorem perform_other {act : Act κ ι} {other : κ} (differ : other ≠ act.1) :
    (perform next state act).position other = state.position other := by
  cases ran : next act.2 (state.position act.1) state.store with
  | none => rw [perform_none ran]
  | some result =>
    rw [perform_some ran]
    exact Function.update_of_ne differ _ _

theorem perform_own {act : Act κ ι} {position : π} {store : σ}
    (ran : next act.2 (state.position act.1) state.store = some (position, store)) :
    (perform next state act).position act.1 = position := by
  rw [perform_some ran]
  exact Function.update_self _ _ _

/-- What holds of the store holds after a step that keeps it. -/
theorem perform_store (kept : σ → Prop) {act : Act κ ι} (before : kept state.store)
    (own : ∀ position store, next act.2 (state.position act.1) state.store = some (position, store) →
      kept store) : kept (perform next state act).store := by
  cases ran : next act.2 (state.position act.1) state.store with
  | none =>
    rw [perform_none ran]
    exact before
  | some result =>
    rw [perform_some ran]
    exact own _ _ ran

/-! ### Runs -/

/-- What holds at the start and is kept by every step holds at the end. -/
theorem keeps (kept : State κ π σ → Prop)
    (step : ∀ state act, kept state → fits state act → kept (perform next state act))
    {schedule : List (Act κ ι)} (start : kept state) (meets : Meets next fits schedule state) :
    kept (performAll next schedule state) := by
  induction schedule generalizing state with
  | nil => exact start
  | cons act rest ih => exact ih (step state act start meets.1) meets.2

theorem keeps_always (kept : State κ π σ → Prop)
    (step : ∀ state act, kept state → kept (perform next state act)) (schedule : List (Act κ ι))
    (start : kept state) : kept (performAll next schedule state) := by
  induction schedule generalizing state with
  | nil => exact start
  | cons act rest ih => exact ih (step state act start)

/-- A run whose steps all keep what the condition needs meets what it gives. -/
theorem meets_of_keeps {kept : State κ π σ → Prop} {gives : State κ π σ → Act κ ι → Prop}
    (step : ∀ state act, kept state → fits state act → kept (perform next state act))
    (give : ∀ state act, kept state → fits state act → gives state act)
    {schedule : List (Act κ ι)} (start : kept state) (meets : Meets next fits schedule state) :
    Meets next gives schedule state := by
  induction schedule generalizing state with
  | nil => trivial
  | cons act rest ih =>
    exact ⟨give state act start meets.1, ih (step state act start meets.1) meets.2⟩

/-- What each call is promised for where it stands. A step has to keep the
promise of the call that takes it and those of the others. -/
theorem perform_keeps (promise : σ → κ → π → Prop) {act : Act κ ι}
    (own : ∀ position store, next act.2 (state.position act.1) state.store = some (position, store) →
      promise store act.1 position)
    (others : ∀ position store, next act.2 (state.position act.1) state.store = some (position, store) →
      ∀ call, call ≠ act.1 → promise store call (state.position call))
    (before : ∀ call, promise state.store call (state.position call)) (call : κ) :
    promise (perform next state act).store call ((perform next state act).position call) := by
  cases ran : next act.2 (state.position act.1) state.store with
  | none =>
    rw [perform_none ran]
    exact before call
  | some result =>
    by_cases same : call = act.1
    · subst same
      rw [perform_own ran, perform_some ran]
      exact own _ _ ran
    · rw [perform_other same, perform_some ran]
      exact others _ _ ran call same

/-- A call that leaves a place does so in one of its own steps. -/
theorem exists_leaves (here : π → Prop) {call : κ} {schedule : List (Act κ ι)}
    (before : here (state.position call)) (after : ¬ here ((performAll next schedule state).position call)) :
    ∃ earlier input later position store, schedule = earlier ++ (call, input) :: later ∧
      here ((performAll next earlier state).position call) ∧
      next input ((performAll next earlier state).position call) (performAll next earlier state).store =
        some (position, store) ∧ ¬ here position := by
  induction schedule generalizing state with
  | nil => exact absurd before after
  | cons act rest ih =>
    by_cases stays : here ((perform next state act).position call)
    · obtain ⟨earlier, input, later, position, store, split, found⟩ := ih stays after
      exact ⟨act :: earlier, input, later, position, store, by rw [split, List.cons_append], found⟩
    · by_cases own : call = act.1
      · subst own
        cases ran : next act.2 (state.position act.1) state.store with
        | none =>
          rw [perform_none ran] at stays
          exact absurd before stays
        | some result =>
          rw [perform_own ran] at stays
          exact ⟨[], act.2, rest, result.1, result.2, rfl, before, ran, stays⟩
      · rw [perform_other own] at stays
        exact absurd before stays

end Dropway.Lib.Calls
