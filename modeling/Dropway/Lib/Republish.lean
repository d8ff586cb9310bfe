import Dropway.Lib.Calls
import Mathlib.Tactic.Common

/-! An object that is compiled from a store. A request commits a change, then
compiles the object from the store as it finds it, and then puts it; between its
steps other requests take theirs. The object follows the store as long as nothing
is put while an older compilation waits. -/

namespace Dropway.Lib.Republish
open Calls

variable {κ ι ρ σ ν : Type} [DecidableEq κ]

/-- The changes that have been committed are counted. -/
structure Store (σ ν : Type) where
  data : σ
  object : ν
  revision : Nat

inductive Stage (ρ ν : Type) where
  | requested (request : ρ)
  | committed
  | compiled (revision : Nat) (object : ν)
  | finished
  deriving DecidableEq

/-- A change that fails ends its request. -/
def program (commit : ι → ρ → σ → Option σ) (compile : σ → ν) : Program ι (Stage ρ ν) (Store σ ν)
  | input, .requested request, store =>
    match commit input request store.data with
    | some data => some (.committed, { store with data, revision := store.revision + 1 })
    | none => some (.finished, store)
  | _, .committed, store => some (.compiled store.revision (compile store.data), store)
  | _, .compiled _ object, store => some (.finished, { store with object })
  | _, .finished, _ => none

def begin (requests : κ → ρ) (data : σ) (object : ν) : State κ (Stage ρ ν) (Store σ ν) :=
  ⟨⟨data, object, 0⟩, fun call => .requested (requests call)⟩

def Finished (state : State κ (Stage ρ ν) (Store σ ν)) : Prop := ∀ call, state.position call = .finished

/-- An object is put only while no other request waits to put one that was
compiled before a later change. -/
def InOrder (state : State κ (Stage ρ ν) (Store σ ν)) (act : Act κ ι) : Prop :=
  ∀ revision object, state.position act.1 = .compiled revision object →
    ∀ other earlier older, state.position other = .compiled earlier older → revision ≤ earlier

variable {commit : ι → ρ → σ → Option σ} {compile : σ → ν}

/-- What a request is owed where it stands, `put` being the revision of the object. -/
def Owed (compile : σ → ν) (put : Int) (store : Store σ ν) : Stage ρ ν → Prop
  | .compiled revision object =>
    put ≤ revision ∧ revision ≤ store.revision ∧ (revision = store.revision → object = compile store.data)
  | _ => True

/-- The latest change is yet to be compiled or to be put. -/
def Pending (store : Store σ ν) : Stage ρ ν → Prop
  | .committed => True
  | .compiled revision _ => revision = store.revision
  | _ => False

/-- The latest change is in the object, or a request will put it there; or there is
none, and the object was not `synced` at the start. -/
structure Follows (compile : σ → ν) (synced : Prop) (state : State κ (Stage ρ ν) (Store σ ν)) (put : Int) : Prop where
  owed : ∀ call, Owed compile put state.store (state.position call)
  past : put ≤ state.store.revision
  right : put = state.store.revision → state.store.object = compile state.store.data
  covered : put = state.store.revision ∨ (∃ call, Pending state.store (state.position call)) ∨
    ¬ synced ∧ state.store.revision = 0

variable {state : State κ (Stage ρ ν) (Store σ ν)} {put : Int} {synced : Prop}

private theorem follows_commit {act : Act κ ι} {request : ρ} {data : σ} (follows : Follows compile synced state put)
    (here : state.position act.1 = .requested request)
    (done : commit act.2 request state.store.data = some data) :
    Follows compile synced (perform (program commit compile) state act) put := by
  have ran : program commit compile act.2 (state.position act.1) state.store =
      some (.committed, { state.store with data, revision := state.store.revision + 1 }) := by
    rw [here, program, done]
  have past := follows.past
  rw [perform_some ran]
  refine ⟨?_, ?_, ?_, .inr (.inl ⟨act.1, ?_⟩)⟩
  · intro call
    by_cases own : call = act.1
    · subst own
      simp only [Function.update_self, Owed]
    · simp only [Function.update_of_ne own]
      have owed := follows.owed call
      cases stage : state.position call with
      | compiled revision object =>
        rw [stage] at owed
        obtain ⟨least, most, -⟩ := owed
        refine ⟨least, Nat.le_succ_of_le most, fun same => ?_⟩
        simp only at same
        omega
      | requested | committed | finished => trivial
  · simp only
    omega
  · intro same
    simp only at same
    omega
  · simp only [Function.update_self, Pending]

private theorem follows_compile {act : Act κ ι} (follows : Follows compile synced state put)
    (here : state.position act.1 = .committed) :
    Follows compile synced (perform (program commit compile) state act) put := by
  have ran : program commit compile act.2 (state.position act.1) state.store =
      some (.compiled state.store.revision (compile state.store.data), state.store) := by
    rw [here, program]
  rw [perform_some ran]
  refine ⟨?_, follows.past, follows.right, .inr (.inl ⟨act.1, ?_⟩)⟩
  · intro call
    by_cases own : call = act.1
    · subst own
      simp only [Function.update_self]
      exact ⟨follows.past, Nat.le_refl _, fun _ => rfl⟩
    · simp only [Function.update_of_ne own]
      exact follows.owed call
  · simp only [Function.update_self, Pending]

private theorem follows_put {act : Act κ ι} {revision : Nat} {object : ν} (follows : Follows compile synced state put)
    (inOrder : InOrder state act) (here : state.position act.1 = .compiled revision object) :
    Follows compile synced (perform (program commit compile) state act) revision := by
  have ran : program commit compile act.2 (state.position act.1) state.store =
      some (.finished, { state.store with object }) := by
    rw [here, program]
  have mine := follows.owed act.1
  rw [here] at mine
  obtain ⟨least, most, current⟩ := mine
  rw [perform_some ran]
  refine ⟨?_, by exact_mod_cast most, fun same => current (by exact_mod_cast same), ?_⟩
  · intro call
    by_cases own : call = act.1
    · subst own
      simp only [Function.update_self, Owed]
    · simp only [Function.update_of_ne own]
      have owed := follows.owed call
      cases stage : state.position call with
      | compiled earlier older =>
        rw [stage] at owed
        exact ⟨by exact_mod_cast inOrder revision object here call earlier older stage, owed.2⟩
      | requested | committed | finished => trivial
  · rcases follows.covered with same | ⟨call, pending⟩ | none
    · refine .inl ?_
      simp only
      omega
    · by_cases own : call = act.1
      · subst own
        rw [here] at pending
        exact .inl (congrArg Nat.cast pending)
      · refine .inr (.inl ⟨call, ?_⟩)
        simp only [Function.update_of_ne own]
        cases stage : state.position call with
        | compiled earlier older =>
          rw [stage] at pending
          exact pending
        | committed => trivial
        | requested | finished =>
          rw [stage] at pending
          exact pending.elim
    · exact .inr (.inr none)

/-- A request that has finished, or whose change fails, leaves everything. -/
private theorem follows_same {act : Act κ ι} (follows : Follows compile synced state put)
    (quiet : ∀ position store, program commit compile act.2 (state.position act.1) state.store =
      some (position, store) → position = .finished ∧ store = state.store)
    (idle : ¬ Pending state.store (state.position act.1)) :
    Follows compile synced (perform (program commit compile) state act) put := by
  cases ran : program commit compile act.2 (state.position act.1) state.store with
  | none => rwa [perform_none ran]
  | some result =>
    obtain ⟨done, same⟩ := quiet _ _ ran
    rw [perform_some ran, done, same]
    refine ⟨?_, follows.past, follows.right, ?_⟩
    · intro call
      by_cases own : call = act.1
      · subst own
        simp only [Function.update_self, Owed]
      · simp only [Function.update_of_ne own]
        exact follows.owed call
    · rcases follows.covered with put | ⟨call, pending⟩ | none
      · exact .inl put
      · have other : call ≠ act.1 := fun own => idle (own ▸ pending)
        refine .inr (.inl ⟨call, ?_⟩)
        simp only [Function.update_of_ne other]
        exact pending
      · exact .inr (.inr none)

theorem follows_step {act : Act κ ι} (follows : ∃ put, Follows compile synced state put) (inOrder : InOrder state act) :
    ∃ put, Follows compile synced (perform (program commit compile) state act) put := by
  obtain ⟨put, follows⟩ := follows
  cases here : state.position act.1 with
  | requested request =>
    cases done : commit act.2 request state.store.data with
    | some data => exact ⟨put, follows_commit follows here done⟩
    | none =>
      refine ⟨put, follows_same follows ?_ (by rw [here]; exact not_false)⟩
      intro position store ran
      rw [here, program, done] at ran
      cases ran
      exact ⟨rfl, rfl⟩
  | committed => exact ⟨put, follows_compile follows here⟩
  | compiled revision object => exact ⟨revision, follows_put follows inOrder here⟩
  | finished =>
    refine ⟨put, follows_same follows ?_ (by rw [here]; exact not_false)⟩
    intro position store ran
    rw [here, program] at ran
    cases ran

omit [DecidableEq κ] in
theorem follows_begin (requests : κ → ρ) (data : σ) (object : ν) :
    ∃ put, Follows compile (object = compile data) (begin requests data object) put := by
  by_cases synced : object = compile data
  · exact ⟨0, fun call => trivial, Int.le_refl _, fun _ => synced, .inl rfl⟩
  · refine ⟨-1, fun call => trivial, ?_, fun same => ?_, .inr (.inr ⟨synced, rfl⟩)⟩
    · simp only [begin]
      omega
    · cases same

/-- Once all requests have finished, the object is what the store compiles to, if
it was so at the start or if a change has been committed. -/
theorem finished_follows {requests : κ → ρ} {data : σ} {object : ν} {schedule : List (Act κ ι)}
    (inOrder : Meets (program commit compile) InOrder schedule (begin requests data object))
    (finished : Finished (performAll (program commit compile) schedule (begin requests data object)))
    (touched : object = compile data ∨
      0 < (performAll (program commit compile) schedule (begin requests data object)).store.revision) :
    (performAll (program commit compile) schedule (begin requests data object)).store.object =
      compile (performAll (program commit compile) schedule (begin requests data object)).store.data := by
  obtain ⟨put, follows⟩ := keeps (fun state => ∃ put, Follows compile (object = compile data) state put)
    (fun _ _ follows inOrder => follows_step follows inOrder) (follows_begin requests data object) inOrder
  rcases follows.covered with current | ⟨call, pending⟩ | ⟨unsynced, none⟩
  · exact follows.right current
  · rw [finished call] at pending
    exact pending.elim
  · rcases touched with synced | changed
    · exact absurd synced unsynced
    · omega

end Dropway.Lib.Republish
