import Dropway.Lib.ReadCommitted

/-! A server that works on many requests at a time. A request runs transactions
at READ COMMITTED, one after the other, and calls outside services between their
statements: what such a call does is there at once, and no rollback undoes it. -/

namespace Dropway.Lib
open ReadCommitted (Session State)

inductive Effect (υ κ : Type) where
  /-- Waits until no other transaction has locked the keys. -/
  | read (keys : List κ)
  | write (update : υ)
  | commit
  | rollback
  | outside (update : υ)

/-- What a step does depends on what its surroundings hand it: the time, an id,
the answer of a service. A request that has no next step is answered. -/
structure Server (ι σ υ κ π : Type) where
  admits : π → Prop
  next : ι → π → σ → Option (Effect υ κ × π)
  apply : υ → σ → σ
  locks : υ → List κ

namespace Server

variable {ι σ υ κ π : Type} (server : Server ι σ υ κ π)

def applyAll (updates : List υ) (store : σ) : σ :=
  updates.foldl (fun store update => server.apply update store) store

@[simp] theorem applyAll_nil (store : σ) : server.applyAll [] store = store := rfl

@[simp] theorem applyAll_cons (update : υ) (rest : List υ) (store : σ) :
    server.applyAll (update :: rest) store = server.applyAll rest (server.apply update store) := rfl

theorem applyAll_append (updates more : List υ) (store : σ) :
    server.applyAll (updates ++ more) store = server.applyAll more (server.applyAll updates store) :=
  List.foldl_append

def view (store : σ) (session : Session υ π) : σ := server.applyAll session.pending store

def locked (session : Session υ π) : List κ := session.pending.flatMap server.locks

/-- What a step has to wait for. -/
def waits : Effect υ κ → List κ
  | .read keys => keys
  | .write update => server.locks update
  | .commit | .rollback | .outside _ => []

/-- The committed store after a step. -/
def store (before : σ) (pending : List υ) : Effect υ κ → σ
  | .commit => server.applyAll pending before
  | .outside update => server.apply update before
  | .read _ | .write _ | .rollback => before

/-- The updates that a step leaves uncommitted. -/
def pending (before : List υ) : Effect υ κ → List υ
  | .write update => before ++ [update]
  | .commit | .rollback => []
  | .read _ | .outside _ => before

def after (state : State σ υ π) (i : Nat) (session : Session υ π) (effect : Effect υ κ)
    (position : π) : State σ υ π where
  committed := server.store state.committed session.pending effect
  sessions := Function.update state.sessions i (some ⟨position, pending session.pending effect⟩)

/-- The server may stop working on a request at any time. -/
inductive Step : State σ υ π → State σ υ π → Prop
  | arrive {state : State σ υ π} {i : Nat} {position : π} (free : state.sessions i = none)
      (admitted : server.admits position) : Step state (state.withSession i (some ⟨position, []⟩))
  | act {state : State σ υ π} {i : Nat} {session : Session υ π} {effect : Effect υ κ} {position : π}
      (input : ι) (running : state.sessions i = some session)
      (ran : server.next input session.position (server.view state.committed session) =
        some (effect, position))
      (unlocked : ∀ j other, j ≠ i → state.sessions j = some other →
        ∀ key ∈ server.waits effect, key ∉ server.locked other) :
      Step state (server.after state i session effect position)
  | stop {state : State σ υ π} {i : Nat} : Step state (state.withSession i none)

/-- A step in which the request that acts, if one does, fits the committed store. -/
inductive Guarded (fits : σ → Session υ π → Prop) : State σ υ π → State σ υ π → Prop
  | arrive {state : State σ υ π} {i : Nat} {position : π} (free : state.sessions i = none)
      (admitted : server.admits position) :
      Guarded fits state (state.withSession i (some ⟨position, []⟩))
  | act {state : State σ υ π} {i : Nat} {session : Session υ π} {effect : Effect υ κ} {position : π}
      (input : ι) (running : state.sessions i = some session) (fit : fits state.committed session)
      (ran : server.next input session.position (server.view state.committed session) =
        some (effect, position))
      (unlocked : ∀ j other, j ≠ i → state.sessions j = some other →
        ∀ key ∈ server.waits effect, key ∉ server.locked other) :
      Guarded fits state (server.after state i session effect position)
  | stop {state : State σ υ π} {i : Nat} : Guarded fits state (state.withSession i none)

/-- A request that has a next step and need not wait for it. -/
def CanAct (state : State σ υ π) (i : Nat) : Prop :=
  ∃ session input effect position, state.sessions i = some session ∧
    server.next input session.position (server.view state.committed session) = some (effect, position) ∧
    ∀ j other, j ≠ i → state.sessions j = some other →
      ∀ key ∈ server.waits effect, key ∉ server.locked other

/-- A run all of whose steps are as `kept` says. -/
def Run (kept : State σ υ π → State σ υ π → Prop) : State σ υ π → State σ υ π → Prop :=
  Relation.ReflTransGen fun before after => server.Step before after ∧ kept before after

/-- No request is being worked on. -/
def idle (store : σ) : State σ υ π := ⟨store, fun _ => none⟩

/-- No transaction has uncommitted updates. -/
def Quiet (state : State σ υ π) : Prop := ∀ i session, state.sessions i = some session → session.pending = []

/-- Every request fits the committed store, and every two fit each other. -/
structure Orderly (fits : σ → Session υ π → Prop) (apart : σ → Session υ π → Session υ π → Prop)
    (state : State σ υ π) : Prop where
  fits : ∀ i session, state.sessions i = some session → fits state.committed session
  apart : ∀ i j session other, i ≠ j → state.sessions i = some session →
    state.sessions j = some other → apart state.committed session other

/-- Two transactions never hold one lock. -/
def Exclusive (session other : Session υ π) : Prop :=
  ∀ key ∈ server.locked session, key ∉ server.locked other

/-- The committed store and every request are as they should be. -/
structure Sound (good : σ → Prop) (ok : σ → Session υ π → Prop) (state : State σ υ π) : Prop where
  store : good state.committed
  sessions : ∀ i session, state.sessions i = some session → ok state.committed session
  exclusive : ∀ i j session other, i ≠ j → state.sessions i = some session →
    state.sessions j = some other → server.Exclusive session other

/-- What makes an invariant: a step keeps what its request relies on, and leaves
alone what the others rely on. `fits` and `apart` are what a run may assume. -/
structure Discipline (good : σ → Prop) (ok : σ → Session υ π → Prop)
    (fits : σ → Session υ π → Prop) (apart : σ → Session υ π → Session υ π → Prop) : Prop where
  arrives : ∀ {store position}, good store → server.admits position → ok store ⟨position, []⟩
  store : ∀ {store session input effect position}, good store → ok store session → fits store session →
    server.next input session.position (server.view store session) = some (effect, position) →
      good (server.store store session.pending effect)
  request : ∀ {store session input effect position}, good store → ok store session → fits store session →
    server.next input session.position (server.view store session) = some (effect, position) →
      ok (server.store store session.pending effect) ⟨position, pending session.pending effect⟩
  others : ∀ {store session other input effect position}, good store → ok store session →
    ok store other → fits store other → apart store session other →
    apart store other session → server.Exclusive session other →
    server.next input other.position (server.view store other) = some (effect, position) →
      ok (server.store store other.pending effect) session

variable {server} {good : σ → Prop} {ok : σ → Session υ π → Prop} {fits : σ → Session υ π → Prop}
  {apart : σ → Session υ π → Session υ π → Prop} {state next final : State σ υ π}

theorem Exclusive.symm {session other : Session υ π} (exclusive : server.Exclusive session other) :
    server.Exclusive other session :=
  fun key mem held => exclusive key held mem

theorem exclusive_fresh {position : π} {other : Session υ π} :
    server.Exclusive ⟨position, []⟩ other := by
  intro key mem
  simp [locked] at mem

/-- Only a write locks anything more, and it waits for what it locks. -/
theorem Exclusive.after {session other : Session υ π} {effect : Effect υ κ} {position : π}
    (exclusive : server.Exclusive session other)
    (unlocked : ∀ key ∈ server.waits effect, key ∉ server.locked other) :
    server.Exclusive ⟨position, pending session.pending effect⟩ other := by
  intro key mem
  cases effect with
  | read => exact exclusive key mem
  | outside => exact exclusive key mem
  | commit => simp [locked, pending] at mem
  | rollback => simp [locked, pending] at mem
  | write update =>
    simp only [locked, pending, List.flatMap_append, List.mem_append] at mem
    rcases mem with mem | mem
    · exact exclusive key mem
    · exact unlocked key (by simpa [waits] using mem)

private theorem Sound.with (sound : server.Sound good ok state) {i : Nat} {session : Option (Session υ π)}
    (here : ∀ found, session = some found → ok state.committed found)
    (alone : ∀ found, session = some found → found.pending = []) :
    server.Sound good ok (state.withSession i session) := by
  refine ⟨sound.store, fun j found running => ?_, fun j k found other different first second => ?_⟩
  · simp only [State.withSession, Function.update_apply] at running
    by_cases same : j = i
    · rw [if_pos same] at running
      exact here found running
    · rw [if_neg same] at running
      exact sound.sessions j found running
  · simp only [State.withSession, Function.update_apply] at first second
    by_cases one : j = i
    · rw [if_pos one] at first
      obtain ⟨position, updates⟩ := found
      obtain rfl : updates = [] := alone _ first
      exact exclusive_fresh
    · by_cases two : k = i
      · rw [if_pos two] at second
        obtain ⟨position, updates⟩ := other
        obtain rfl : updates = [] := alone _ second
        exact exclusive_fresh.symm
      · rw [if_neg one] at first
        rw [if_neg two] at second
        exact sound.exclusive j k found other different first second

private theorem Sound.arrive (discipline : server.Discipline good ok fits apart)
    (sound : server.Sound good ok state) {i : Nat} {position : π} (admitted : server.admits position) :
    server.Sound good ok (state.withSession i (some ⟨position, []⟩)) := by
  apply sound.with
  · intro found same
    cases same
    exact discipline.arrives sound.store admitted
  · intro found same
    cases same
    rfl

private theorem Sound.stop (sound : server.Sound good ok state) {i : Nat} :
    server.Sound good ok (state.withSession i none) := by
  apply sound.with
  · intro found same
    cases same
  · intro found same
    cases same

theorem Sound.act (discipline : server.Discipline good ok fits apart) (sound : server.Sound good ok state)
    {i : Nat} {session : Session υ π} {effect : Effect υ κ} {position : π} {input : ι}
    (running : state.sessions i = some session) (fit : fits state.committed session)
    (separate : ∀ j other, j ≠ i → state.sessions j = some other →
      apart state.committed other session ∧ apart state.committed session other)
    (ran : server.next input session.position (server.view state.committed session) =
      some (effect, position))
    (unlocked : ∀ j other, j ≠ i → state.sessions j = some other →
      ∀ key ∈ server.waits effect, key ∉ server.locked other) :
    server.Sound good ok (server.after state i session effect position) := by
  have mine := sound.sessions i session running
  refine ⟨discipline.store sound.store mine fit ran, fun j found foundRunning => ?_, ?_⟩
  · simp only [Server.after, Function.update_apply] at foundRunning
    by_cases same : j = i
    · rw [if_pos same] at foundRunning
      cases foundRunning
      exact discipline.request sound.store mine fit ran
    · rw [if_neg same] at foundRunning
      obtain ⟨theirs, ours⟩ := separate j found same foundRunning
      exact discipline.others sound.store (sound.sessions j found foundRunning) mine fit theirs ours
        (sound.exclusive j i found session same foundRunning running) ran
  · intro j k found other different first second
    simp only [Server.after, Function.update_apply] at first second
    by_cases one : j = i
    · have two : k ≠ i := fun same => different (one.trans same.symm)
      rw [if_pos one] at first
      rw [if_neg two] at second
      cases first
      exact (sound.exclusive i k session other two.symm running second).after (unlocked k other two second)
    · rw [if_neg one] at first
      by_cases two : k = i
      · rw [if_pos two] at second
        cases second
        exact ((sound.exclusive i j session found (Ne.symm one) running first).after
          (unlocked j found one first)).symm
      · rw [if_neg two] at second
        exact sound.exclusive j k found other different first second

theorem Sound.step (discipline : server.Discipline good ok fits apart) (sound : server.Sound good ok state)
    (kept : Orderly fits apart state) (step : server.Step state next) : server.Sound good ok next := by
  cases step with
  | arrive free admitted => exact sound.arrive discipline admitted
  | @act i session _ _ input running ran unlocked =>
    apply sound.act discipline running (kept.fits i session running) _ ran unlocked
    intro j other different otherRunning
    exact ⟨kept.apart j i other session different otherRunning running,
      kept.apart i j session other (Ne.symm different) running otherRunning⟩
  | stop => exact sound.stop

theorem Sound.of_idle {start : σ} (begins : good start) : server.Sound good ok (idle start) := by
  have none : ∀ i session, (Server.idle start : State σ υ π).sessions i ≠ some session :=
    fun i session running => by cases running
  exact ⟨begins, fun i session running => absurd running (none i session),
    fun i j session other _ running => absurd running (none i session)⟩

/-- From an idle server on, everything stays as it should be. -/
theorem Sound.run (discipline : server.Discipline good ok fits apart) {start : σ} (begins : good start)
    (run : server.Run (fun _ => Orderly fits apart) (idle start) final) : server.Sound good ok final := by
  have invariant : server.Sound good ok final ∧ Orderly fits apart final := by
    induction run with
    | refl =>
      refine ⟨.of_idle begins, fun i session running => ?_, fun i j session other _ running => ?_⟩
      · cases running
      · cases running
    | tail _ step ih => exact ⟨ih.1.step discipline ih.2 step.1, step.2⟩
  exact invariant.1

theorem Guarded.step {fits : σ → Session υ π → Prop} (guarded : server.Guarded fits state next) :
    server.Step state next := by
  cases guarded with
  | arrive free admitted => exact .arrive free admitted
  | act input running fit ran unlocked => exact .act input running ran unlocked
  | stop => exact .stop

theorem Step.guarded {fits : σ → Session υ π → Prop} (step : server.Step state next)
    (kept : ∀ i session, state.sessions i = some session → fits state.committed session) :
    server.Guarded fits state next := by
  cases step with
  | arrive free admitted => exact .arrive free admitted
  | act input running ran unlocked => exact .act input running (kept _ _ running) ran unlocked
  | stop => exact .stop

theorem Sound.guarded (discipline : server.Discipline good ok fits fun _ _ _ => True)
    (sound : server.Sound good ok state) (guarded : server.Guarded fits state next) :
    server.Sound good ok next := by
  cases guarded with
  | arrive free admitted => exact sound.arrive discipline admitted
  | act input running fit ran unlocked =>
    exact sound.act discipline running fit (fun _ _ _ _ => ⟨trivial, trivial⟩) ran unlocked
  | stop => exact sound.stop

/-- From an idle server on, guarded steps keep everything as it should be. -/
theorem Sound.guarded_run (discipline : server.Discipline good ok fits fun _ _ _ => True) {start : σ}
    (begins : good start) (run : Relation.ReflTransGen (server.Guarded fits) (Server.idle start) final) :
    server.Sound good ok final := by
  induction run with
  | refl => exact .of_idle begins
  | tail _ step ih => exact ih.guarded discipline step

/-- What any state is. -/
theorem orderly_trivial (state : State σ υ π) : Orderly (fun _ _ => True) (fun _ _ _ => True) state :=
  ⟨fun _ _ _ => trivial, fun _ _ _ _ _ _ _ => trivial⟩

/-- One request alone, for a number of steps. -/
def solo (server : Server ι σ υ κ π) (inputs : Nat → ι) (begin_ : σ × Session υ π) : Nat → σ × Session υ π
  | 0 => begin_
  | n + 1 =>
    let (store, session) := solo server inputs begin_ n
    match server.next (inputs n) session.position (server.view store session) with
    | none => (store, session)
    | some (effect, position) =>
      (server.store store session.pending effect, ⟨position, pending session.pending effect⟩)

/-- What every step of a request alone keeps. -/
theorem solo_invariant (server : Server ι σ υ κ π) {inputs : Nat → ι} {invariant : σ × Session υ π → Prop} {begin_ : σ × Session υ π}
    (starts : invariant begin_)
    (step : ∀ {input store session effect position}, invariant (store, session) →
      server.next input session.position (server.view store session) = some (effect, position) →
        invariant (server.store store session.pending effect, ⟨position, pending session.pending effect⟩))
    (n : Nat) : invariant (server.solo inputs begin_ n) := by
  induction n with
  | zero => exact starts
  | succ n ih =>
    simp only [solo]
    split
    · exact ih
    · rename_i effect position ran
      exact step ih ran

section Schedule

/-- What a schedule does next. -/
inductive Move (ι π : Type) where
  | arrive (i : Nat) (position : π)
  | act (i : Nat) (input : ι)
  | stop (i : Nat)

variable (server) [DecidableEq κ] [DecidablePred server.admits]

def free (n : Nat) (state : State σ υ π) (i : Nat) (effect : Effect υ κ) : Bool :=
  (List.range n).all fun j => decide (j = i) || (state.sessions j).all fun other =>
    (server.waits effect).all fun key => decide (key ∉ server.locked other)

/-- One of `n` requests moves, if it can. -/
def perform (n : Nat) (state : State σ υ π) : Move ι π → Option (State σ υ π)
  | .arrive i position =>
    if i < n ∧ state.sessions i = none ∧ server.admits position then
      some (state.withSession i (some ⟨position, []⟩))
    else none
  | .act i input =>
    (state.sessions i).bind fun session =>
      (server.next input session.position (server.view state.committed session)).bind fun step =>
        if i < n ∧ server.free n state i step.1 then some (server.after state i session step.1 step.2)
        else none
  | .stop i => if i < n then some (state.withSession i none) else none

/-- A schedule, as far as every step of it is as `kept` says. -/
def performAll (n : Nat) (kept : State σ υ π → State σ υ π → Bool) :
    List (Move ι π) → State σ υ π → Option (State σ υ π)
  | [], state => some state
  | move :: rest, state =>
    (server.perform n state move).bind fun next =>
      if kept state next then performAll n kept rest next else none

/-- `Orderly` for `n` requests. -/
def orderly (fits : σ → Session υ π → Bool) (apart : σ → Session υ π → Session υ π → Bool) (n : Nat)
    (state : State σ υ π) : Bool :=
  (List.range n).all fun i => (state.sessions i).all fun session =>
    fits state.committed session && (List.range n).all fun j => decide (i = j) ||
      (state.sessions j).all fun other => apart state.committed session other

def Below (n : Nat) (state : State σ υ π) : Prop := ∀ i, n ≤ i → state.sessions i = none

variable {server}

omit [DecidableEq κ] [DecidablePred server.admits] in
private theorem Below.update {n i : Nat} (below : Below n state) (inside : i < n)
    (session : Option (Session υ π)) (j : Nat) (outside : n ≤ j) :
    Function.update state.sessions i session j = none := by
  rw [Function.update_apply, if_neg (by omega)]
  exact below j outside

omit [DecidablePred server.admits] in
private theorem free_unlocked {n i : Nat} {effect : Effect υ κ} (below : Below n state)
    (unlocked : server.free n state i effect = true) (j : Nat) (other : Session υ π) (apart : j ≠ i)
    (running : state.sessions j = some other) : ∀ key ∈ server.waits effect, key ∉ server.locked other := by
  intro key mem
  by_cases inside : j < n
  · have here := List.all_eq_true.mp unlocked j (List.mem_range.mpr inside)
    simp only [running, Option.all_some, apart, decide_false, Bool.false_or, List.all_eq_true,
      decide_eq_true_eq] at here
    exact here key mem
  · rw [below j (by omega)] at running
    cases running

theorem perform_step {n : Nat} {move : Move ι π} (below : Below n state)
    (performed : server.perform n state move = some next) : server.Step state next ∧ Below n next := by
  cases move with
  | arrive i position =>
    simp only [perform, Option.ite_none_right_eq_some, Option.some.injEq] at performed
    obtain ⟨⟨inside, free, admitted⟩, rfl⟩ := performed
    exact ⟨.arrive free admitted, below.update inside _⟩
  | act i input =>
    simp only [perform, Option.bind_eq_some_iff, Option.ite_none_right_eq_some,
      Option.some.injEq] at performed
    obtain ⟨session, running, ⟨effect, position⟩, ran, ⟨inside, unlocked⟩, rfl⟩ := performed
    exact ⟨.act input running ran (free_unlocked below unlocked), below.update inside _⟩
  | stop i =>
    simp only [perform, Option.ite_none_right_eq_some, Option.some.injEq] at performed
    obtain ⟨inside, rfl⟩ := performed
    exact ⟨.stop, below.update inside _⟩

theorem performAll_run {n : Nat} {kept : State σ υ π → State σ υ π → Bool}
    {moves : List (Move ι π)} (below : Below n state) (performed : server.performAll n kept moves state = some final) :
    server.Run (fun before after => kept before after = true ∧ Below n before ∧ Below n after)
      state final := by
  induction moves generalizing state with
  | nil =>
    cases performed
    exact .refl
  | cons move rest ih =>
    simp only [performAll, Option.bind_eq_some_iff, Option.ite_none_right_eq_some] at performed
    obtain ⟨next, moved, keeps, performed⟩ := performed
    obtain ⟨step, stays⟩ := perform_step below moved
    exact .head ⟨step, keeps, below, stays⟩ (ih stays performed)

theorem performAll_below {n : Nat} {kept : State σ υ π → State σ υ π → Bool}
    {moves : List (Move ι π)} (below : Below n state)
    (performed : server.performAll n kept moves state = some final) : Below n final := by
  have run := performAll_run below performed
  induction run with
  | refl => exact below
  | tail _ step _ => exact step.2.2.2

omit [DecidableEq κ] [DecidablePred server.admits] in
theorem quiet_below {n : Nat} (below : Below n state)
    (closed : ((List.range n).all fun i => (state.sessions i).all fun session =>
      session.pending.isEmpty) = true) : Quiet state := by
  intro i session running
  by_cases inside : i < n
  · have here := List.all_eq_true.mp closed i (List.mem_range.mpr inside)
    rw [running, Option.all_some] at here
    exact List.isEmpty_iff.mp here
  · rw [below i (by omega)] at running
    cases running

omit [DecidableEq κ] [DecidablePred server.admits] in
theorem orderly_sound {fits : σ → Session υ π → Bool} {apart : σ → Session υ π → Session υ π → Bool}
    {n : Nat} (below : Below n state) (checked : orderly fits apart n state = true) :
    Orderly (fun store session => fits store session = true)
      (fun store session other => apart store session other = true) state := by
  have inside : ∀ i session, state.sessions i = some session → i ∈ List.range n := by
    intro i session running
    by_cases small : i < n
    · exact List.mem_range.mpr small
    · rw [below i (by omega)] at running
      cases running
  have each : ∀ i session, state.sessions i = some session → fits state.committed session = true ∧
      ∀ j ∈ List.range n, (decide (i = j) || (state.sessions j).all fun other =>
        apart state.committed session other) := by
    intro i session running
    have here := List.all_eq_true.mp checked i (inside i session running)
    rw [running, Option.all_some, Bool.and_eq_true, List.all_eq_true] at here
    exact here
  refine ⟨fun i session running => (each i session running).1, ?_⟩
  intro i j session other different first second
  have pair := (each i session first).2 j (inside j other second)
  rwa [second, Option.all_some, decide_eq_false different, Bool.false_or] at pair

end Schedule

end Server
end Dropway.Lib
