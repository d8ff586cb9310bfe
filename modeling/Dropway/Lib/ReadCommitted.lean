import Mathlib.Logic.Function.Basic
import Mathlib.Logic.Relation

/-! Transactions at the isolation level READ COMMITTED. Each statement reads what is
committed at the time, under the transaction's own updates, and updates at most one
row, which stays locked until the transaction ends. -/

namespace Dropway.Lib.ReadCommitted

variable {σ υ κ π ε : Type}

/-- Transactions as positions in a program. A statement that fails rolls its
transaction back. -/
structure Program (σ υ κ π ε : Type) where
  initial : π → Prop
  next : π → σ → Except ε (Option υ × π)
  finished : π → Prop
  apply : υ → σ → σ
  locks : υ → List κ

structure Session (υ π : Type) where
  position : π
  pending : List υ

structure State (σ υ π : Type) where
  committed : σ
  sessions : Nat → Option (Session υ π)

def State.Quiet (state : State σ υ π) : Prop := ∀ i, state.sessions i = none

def State.withSession (state : State σ υ π) (i : Nat) (session : Option (Session υ π)) : State σ υ π :=
  { state with sessions := Function.update state.sessions i session }

namespace Program

variable (program : Program σ υ κ π ε)

def applyAll (updates : List υ) (store : σ) : σ :=
  updates.foldl (fun store update => program.apply update store) store

def view (store : σ) (session : Session υ π) : σ := program.applyAll session.pending store

def locked (session : Session υ π) : List κ := session.pending.flatMap program.locks

/-- A transaction may be rolled back at any time. -/
inductive Step : State σ υ π → State σ υ π → Prop
  | start {state : State σ υ π} {i : Nat} {position : π} (free : state.sessions i = none)
      (initial : program.initial position) : Step state (state.withSession i (some ⟨position, []⟩))
  | statement {state : State σ υ π} {i : Nat} {session : Session υ π} {update : Option υ} {position : π}
      (running : state.sessions i = some session)
      (ran : program.next session.position (program.view state.committed session) =
        .ok (update, position))
      (unlocked : ∀ j other, j ≠ i → state.sessions j = some other →
        ∀ key ∈ update.toList.flatMap program.locks, key ∉ program.locked other) :
      Step state (state.withSession i (some ⟨position, session.pending ++ update.toList⟩))
  | commit {state : State σ υ π} {i : Nat} {session : Session υ π}
      (running : state.sessions i = some session) (finished : program.finished session.position) :
      Step state { state.withSession i none with committed := program.view state.committed session }
  | rollback {state : State σ υ π} {i : Nat} : Step state (state.withSession i none)

/-- Every two open transactions are related. -/
def Apart (apart : Session υ π → Session υ π → Prop) (state : State σ υ π) : Prop :=
  ∀ i j session other, i ≠ j → state.sessions i = some session → state.sessions j = some other →
    apart session other

/-- A run all of whose states keep the open transactions apart. -/
def Run (apart : Session υ π → Session υ π → Prop) : State σ υ π → State σ υ π → Prop :=
  Relation.ReflTransGen fun before after => program.Step before after ∧ Apart apart after

/-- What makes an invariant of the committed store: every transaction keeps a
condition of its own, which holds on while the others commit. -/
structure Discipline (good : σ → Prop) (ok : σ → Session υ π → Prop)
    (apart : Session υ π → Session υ π → Prop) : Prop where
  start : ∀ {store position}, good store → program.initial position → ok store ⟨position, []⟩
  statement : ∀ {store session update position}, good store → ok store session →
    program.next session.position (program.view store session) = .ok (update, position) →
      ok store ⟨position, session.pending ++ update.toList⟩
  commit : ∀ {store session}, good store → ok store session → program.finished session.position →
    good (program.view store session)
  stable : ∀ {store session other}, good store → ok store session → ok store other →
    program.finished other.position → apart session other → apart other session →
      ok (program.view store other) session

variable {program} {good : σ → Prop} {ok : σ → Session υ π → Prop}
  {apart : Session υ π → Session υ π → Prop} {state next final : State σ υ π}

/-- The committed store and every open transaction are as they should be. -/
structure Sound (good : σ → Prop) (ok : σ → Session υ π → Prop) (state : State σ υ π) : Prop where
  store : good state.committed
  sessions : ∀ i session, state.sessions i = some session → ok state.committed session

theorem Sound.with (sound : Sound good ok state) {i : Nat} {session : Option (Session υ π)}
    (here : ∀ found, session = some found → ok state.committed found) :
    Sound good ok (state.withSession i session) := by
  refine ⟨sound.store, fun j found running => ?_⟩
  simp only [State.withSession, Function.update_apply] at running
  by_cases same : j = i
  · rw [if_pos same] at running
    exact here found running
  · rw [if_neg same] at running
    exact sound.sessions j found running

theorem Sound.step (discipline : program.Discipline good ok apart) (sound : Sound good ok state)
    (kept : Apart apart state) (step : program.Step state next) : Sound good ok next := by
  cases step with
  | start free initial =>
    apply sound.with
    intro found same
    cases same
    exact discipline.start sound.store initial
  | statement running ran unlocked =>
    apply sound.with
    intro found same
    cases same
    exact discipline.statement sound.store (sound.sessions _ _ running) ran
  | @commit i session running finished =>
    have mine := sound.sessions _ _ running
    refine ⟨discipline.commit sound.store mine finished, fun j other otherRunning => ?_⟩
    simp only [State.withSession, Function.update_apply] at otherRunning
    by_cases same : j = i
    · rw [if_pos same] at otherRunning
      cases otherRunning
    · rw [if_neg same] at otherRunning
      exact discipline.stable sound.store (sound.sessions _ _ otherRunning) mine finished
        (kept j i other session same otherRunning running)
        (kept i j session other (Ne.symm same) running otherRunning)
  | rollback =>
    apply sound.with
    intro found same
    cases same

/-- From a quiet state on, everything stays as it should be. -/
theorem Sound.run (discipline : program.Discipline good ok apart) (quiet : state.Quiet)
    (store : good state.committed) (run : program.Run apart state final) : Sound good ok final := by
  have idle : ∀ i session, state.sessions i ≠ some session := fun i session running => by
    rw [quiet i] at running
    cases running
  have invariant : Sound good ok final ∧ Apart apart final := by
    induction run with
    | refl =>
      refine ⟨⟨store, fun i session running => absurd running (idle i session)⟩, ?_⟩
      intro i j session other _ running
      exact absurd running (idle i session)
    | tail _ step ih => exact ⟨ih.1.step discipline ih.2 step.1, step.2⟩
  exact invariant.1

end Program
end Dropway.Lib.ReadCommitted
