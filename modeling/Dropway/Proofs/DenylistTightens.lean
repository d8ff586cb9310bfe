import Dropway.Projection.Denylist
import Mathlib

/-! Whether the denylist only ever tightens. The writer that holds a lock tightens
it always; the writer of the KV namespace does as long as its calls do not
overtake each other. -/

namespace Dropway.Projection
open Lib Calls

/-! ### One step -/

/-- What a step of a call can do. -/
inductive RevokeStep (call : Revocation) (denylist : Denylist) : Answer → Stage → Stage → Denylist → Prop
  | rejected {answer : Answer} {error : RevokeError} (invalid : call.validate = .error error) :
      RevokeStep call denylist answer .called (.returned (some error)) denylist
  | covered (valid : call.validate = .ok ()) (covers : denylist.covers call = true) :
      RevokeStep call denylist .served .called (.returned none) denylist
  | reads {answer : Answer} (valid : call.validate = .ok ())
      (uncovered : ¬ (answer = .served ∧ denylist.covers call = true)) :
      RevokeStep call denylist answer .called .writing denylist
  | writes : RevokeStep call denylist .served .writing (.returned none) (denylist.set call)
  | unheard : RevokeStep call denylist .lost .writing (.returned (some .unreachable)) (denylist.set call)
  | refused : RevokeStep call denylist .refused .writing (.returned (some .unreachable)) denylist

theorem revoke_step {answer : Answer} {call : Revocation} {stage : Stage} {after : RevokeCall}
    {denylist stored : Denylist} (ran : CloudflareKV.revoke answer ⟨call, stage⟩ denylist = some (after, stored)) :
    after.call = call ∧ RevokeStep call denylist answer stage after.stage stored := by
  cases stage with
  | called =>
    rw [CloudflareKV.revoke] at ran
    cases checked : call.validate with
    | error error =>
      rw [checked] at ran
      cases ran
      exact ⟨rfl, .rejected checked⟩
    | ok =>
      rw [checked] at ran
      by_cases covered : answer = .served ∧ denylist.covers call = true
      · simp only [if_pos covered] at ran
        cases ran
        exact ⟨rfl, covered.1 ▸ .covered checked covered.2⟩
      · simp only [if_neg covered] at ran
        cases ran
        exact ⟨rfl, .reads checked covered⟩
  | writing =>
    cases answer with
    | served =>
      cases ran
      exact ⟨rfl, .writes⟩
    | refused =>
      cases ran
      exact ⟨rfl, .refused⟩
    | lost =>
      cases ran
      exact ⟨rfl, .unheard⟩
  | returned error => cases answer <;> cases ran

theorem minIat_set {denylist : Denylist} {call : Revocation} {key : Text} :
    (denylist.set call).minIat key = if call.key = key then (call.minIAT : WithBot Int) else denylist.minIat key := by
  unfold Denylist.minIat Denylist.set
  by_cases same : call.key = key
  · rw [if_pos same, ← same, Function.update_self]
  · rw [if_neg same, Function.update_of_ne (Ne.symm same)]

theorem covers_iff {denylist : Denylist} {call : Revocation} :
    denylist.covers call = true ↔ (call.minIAT : WithBot Int) ≤ denylist.minIat call.key := by
  unfold Denylist.covers Denylist.minIat
  cases denylist call.key with
  | none => exact iff_of_false Bool.false_ne_true (WithBot.not_coe_le_bot _)
  | some minIAT => exact decide_eq_true_iff.trans WithBot.coe_le_coe.symm

/-! ### In memory -/

theorem Local.revoke_tightens {call : Revocation} {denylist after : Denylist}
    (ok : Local.revoke call denylist = .ok after) (key : Text) :
    after.minIat key = if call.key = key then max (denylist.minIat key) call.minIAT else denylist.minIat key := by
  unfold Local.revoke at ok
  cases checked : call.validate with
  | error error => rw [checked] at ok; cases ok
  | ok =>
    rw [checked] at ok
    cases ok
    by_cases covered : denylist.covers call = true
    · rw [if_pos covered]
      by_cases same : call.key = key
      · subst same
        rw [if_pos rfl, max_eq_left (covers_iff.mp covered)]
      · rw [if_neg same]
    · rw [if_neg covered, minIat_set]
      by_cases same : call.key = key
      · subst same
        rw [if_pos rfl, if_pos rfl, max_eq_right (not_le.mp (covered ∘ covers_iff.mpr)).le]
      · rw [if_neg same, if_neg same]

/-! ### Overlapping calls -/

abbrev Progress (κ : Type) := State κ RevokeCall Denylist

variable {κ : Type} {key : Text} {calls : κ → Revocation} {denylist : Denylist}
variable {schedule : List (Act κ Answer)} {state : Progress κ}

def begin (calls : κ → Revocation) (denylist : Denylist) : Progress κ :=
  ⟨denylist, fun call => ⟨calls call, .called⟩⟩

/-- All calls of the key have returned without an error. -/
def Returned (key : Text) (state : Progress κ) : Prop :=
  ∀ call, (state.position call).call.key = key → (state.position call).stage = .returned none

/-- The entry that was there and what the calls of the key were given. -/
def proposed (key : Text) (calls : κ → Revocation) (denylist : Denylist) : Set (WithBot Int) :=
  { value | value = denylist.minIat key ∨ ∃ call, (calls call).key = key ∧ value = (calls call).minIAT }

/-- A read of the key fails only where no later entry than the call's is stored,
and an entry is written only while no call waits to write an earlier one. -/
structure InOrder (key : Text) (state : Progress κ) (act : Act κ Answer) : Prop where
  reads : ∀ call, state.position act.1 = ⟨call, .called⟩ → call.key = key → call.validate = .ok () →
    act.2 ≠ .served → state.store.minIat key ≤ call.minIAT
  writes : ∀ call, state.position act.1 = ⟨call, .writing⟩ → call.key = key → act.2 ≠ .refused →
    ∀ other waiting, state.position other = ⟨waiting, .writing⟩ → waiting.key = key →
      call.minIAT ≤ waiting.minIAT

/-- What a call of the key is owed where it stands. -/
structure Owed (key : Text) (denylist : Denylist) (position : RevokeCall) : Prop where
  waits : position.call.key = key → position.stage = .writing →
    denylist.minIat key ≤ position.call.minIAT
  counts : position.call.key = key → position.stage = .returned none →
    (position.call.minIAT : WithBot Int) ≤ denylist.minIat key

structure Tight (key : Text) (calls : κ → Revocation) (denylist : Denylist)
    (state : Progress κ) : Prop where
  given : ∀ call, (state.position call).call = calls call
  owed : ∀ call, Owed key state.store (state.position call)
  proposed : state.store.minIat key ∈ proposed key calls denylist
  least : denylist.minIat key ≤ state.store.minIat key

private theorem tight_begin : Tight key calls denylist (begin calls denylist) where
  given _ := rfl
  owed call := ⟨fun _ waits => (by cases waits), fun _ returned => (by cases returned)⟩
  proposed := .inl rfl
  least := le_rfl

private theorem writes_or_keeps {answer : Answer} {call : Revocation} {before after : Stage}
    {stored : Denylist} (step : RevokeStep call denylist answer before after stored) :
    stored = denylist ∨ before = .writing ∧ answer ≠ .refused ∧ stored = denylist.set call := by
  cases step with
  | rejected | covered | reads | refused => exact .inl rfl
  | writes => exact .inr ⟨rfl, (by decide), rfl⟩
  | unheard => exact .inr ⟨rfl, (by decide), rfl⟩

private theorem owed_own {act : Act κ Answer} {call : Revocation} {before : Stage} {after : RevokeCall}
    {stored : Denylist} (inOrder : InOrder key state act) (here : state.position act.1 = ⟨call, before⟩)
    (same : after.call = call) (step : RevokeStep call state.store act.2 before after.stage stored) :
    Owed key stored after := by
  obtain ⟨given, stage⟩ := after
  subst same
  refine ⟨?_, ?_⟩
  · rintro keyed rfl
    generalize answered : act.2 = answer at step
    cases step with
    | reads valid uncovered =>
      by_cases served : answer = .served
      · have earlier := covers_iff.not.mp fun covered => uncovered ⟨served, covered⟩
        rw [keyed] at earlier
        exact (not_le.mp earlier).le
      · exact inOrder.reads given here keyed valid (answered ▸ served)
  · rintro keyed rfl
    generalize act.2 = answer at step
    cases step with
    | covered valid covers => exact keyed ▸ covers_iff.mp covers
    | writes => rw [minIat_set, if_pos keyed]

/-- What a write replaces is no later. -/
private theorem stored_le {act : Act κ Answer} {call : Revocation} {before after : Stage}
    {stored : Denylist} (owed : Owed key state.store (state.position act.1))
    (here : state.position act.1 = ⟨call, before⟩)
    (step : RevokeStep call state.store act.2 before after stored) :
    state.store.minIat key ≤ stored.minIat key := by
  rcases writes_or_keeps step with rfl | ⟨rfl, -, rfl⟩
  · exact le_rfl
  · rw [here] at owed
    rw [minIat_set]
    by_cases keyed : call.key = key
    · rw [if_pos keyed]
      exact owed.waits keyed rfl
    · rw [if_neg keyed]

private theorem owed_other {act : Act κ Answer} {call : Revocation} {before after : Stage}
    {stored : Denylist} {other : κ} (inOrder : InOrder key state act)
    (owed : ∀ call, Owed key state.store (state.position call))
    (here : state.position act.1 = ⟨call, before⟩)
    (step : RevokeStep call state.store act.2 before after stored) :
    Owed key stored (state.position other) := by
  have later := stored_le (owed act.1) here step
  refine ⟨?_, fun keyed returned => ((owed other).counts keyed returned).trans later⟩
  intro keyed waiting
  rcases writes_or_keeps step with rfl | ⟨rfl, heard, rfl⟩
  · exact (owed other).waits keyed waiting
  · rw [minIat_set]
    by_cases own : call.key = key
    · rw [if_pos own]
      refine WithBot.coe_le_coe.mpr (inOrder.writes call here own heard other _ ?_ keyed)
      rw [← waiting]
    · rw [if_neg own]
      exact (owed other).waits keyed waiting

/-- Once all calls of the key have returned, the entry is the latest proposed. -/
private theorem Tight.greatest (tight : Tight key calls denylist state) (returned : Returned key state) :
    IsGreatest (Projection.proposed key calls denylist) (state.store.minIat key) := by
  refine ⟨tight.proposed, ?_⟩
  rintro value (rfl | ⟨call, keyed, rfl⟩)
  · exact tight.least
  · rw [← tight.given call] at keyed ⊢
    exact (tight.owed call).counts keyed (returned call keyed)

variable [DecidableEq κ]

/-- The stored entry does not become earlier. -/
def Tightens (key : Text) (state : Progress κ) (act : Act κ Answer) : Prop :=
  state.store.minIat key ≤ (perform CloudflareKV.revoke state act).store.minIat key

private theorem Tight.tightens {act : Act κ Answer} (tight : Tight key calls denylist state) :
    Tightens key state act := by
  refine perform_store (fun store : Denylist => state.store.minIat key ≤ store.minIat key) le_rfl ?_
  intro position store ran
  exact stored_le (tight.owed act.1) rfl (revoke_step ran).2

private theorem Tight.step {act : Act κ Answer} (tight : Tight key calls denylist state)
    (inOrder : InOrder key state act) :
    Tight key calls denylist (perform CloudflareKV.revoke state act) := by
  refine ⟨?_, ?_, ?_, tight.least.trans tight.tightens⟩
  · apply perform_keeps fun (_ : Denylist) call (position : RevokeCall) => position.call = calls call
    · intro position store ran
      exact (revoke_step ran).1.trans (tight.given act.1)
    · intro _ _ _ call _
      exact tight.given call
    · exact tight.given
  · apply perform_keeps fun store _ position => Owed key store position
    · intro position store ran
      exact owed_own inOrder rfl (revoke_step ran).1 (revoke_step ran).2
    · intro position store ran call _
      exact owed_other inOrder tight.owed rfl (revoke_step ran).2
    · exact tight.owed
  · refine perform_store (fun store : Denylist => store.minIat key ∈ Projection.proposed key calls denylist) tight.proposed ?_
    intro position store ran
    rcases writes_or_keeps (revoke_step ran).2 with rfl | ⟨-, -, rfl⟩
    · exact tight.proposed
    · rw [minIat_set]
      by_cases keyed : (state.position act.1).call.key = key
      · rw [if_pos keyed]
        exact .inr ⟨act.1, tight.given act.1 ▸ keyed, by rw [tight.given]⟩
      · rw [if_neg keyed]
        exact tight.proposed

private theorem tight_run (inOrder : Meets CloudflareKV.revoke (InOrder key) schedule (begin calls denylist)) :
    Tight key calls denylist (performAll CloudflareKV.revoke schedule (begin calls denylist)) :=
  keeps (Tight key calls denylist) (fun _ _ => Tight.step) tight_begin inOrder

/-! ### Where the entry loosens -/

private theorem stored_mono (tightens : Meets CloudflareKV.revoke (Tightens key) schedule state) :
    state.store.minIat key ≤ (performAll CloudflareKV.revoke schedule state).store.minIat key :=
  keeps (fun later : Progress κ => state.store.minIat key ≤ later.store.minIat key)
    (fun _ _ earlier tightens => earlier.trans tightens) le_rfl tightens

private theorem returned_stays {call : κ} {error : Option RevokeError}
    (returned : (state.position call).stage = .returned error) (schedule : List (Act κ Answer)) :
    ((performAll CloudflareKV.revoke schedule state).position call).stage = .returned error := by
  refine keeps_always (fun state : Progress κ => (state.position call).stage = .returned error) ?_ schedule returned
  intro state act before
  by_cases own : call = act.1
  · subst own
    cases ran : CloudflareKV.revoke act.2 (state.position act.1) state.store with
    | none => rw [perform_none ran]; exact before
    | some result =>
      have step := (revoke_step ran).2
      generalize act.2 = answer at step
      rw [before] at step
      cases step
  · rw [perform_other own]
    exact before

/-- A call that returns without an error writes its entry when it is to. -/
private theorem stores_own (act : Act κ Answer) (waits : (state.position act.1).stage = .writing)
    (returned : ((performAll CloudflareKV.revoke schedule (perform CloudflareKV.revoke state act)).position act.1).stage =
      .returned none) :
    (perform CloudflareKV.revoke state act).store = state.store.set (state.position act.1).call := by
  obtain ⟨call, answer⟩ := act
  have fails (error : Option RevokeError) (failed : error ≠ none) (stored : Denylist)
      (ran : CloudflareKV.revoke answer (state.position call) state.store =
        some (⟨(state.position call).call, .returned error⟩, stored)) : False := by
    have stays : ((perform CloudflareKV.revoke state (call, answer)).position call).stage = .returned error := by
      rw [perform_own ran]
    rw [returned_stays stays] at returned
    exact failed (Stage.returned.inj returned)
  have here : state.position call = ⟨(state.position call).call, .writing⟩ := by rw [← waits]
  cases answer with
  | served =>
    have ran : CloudflareKV.revoke .served (state.position call) state.store =
        some (⟨(state.position call).call, .returned none⟩, state.store.set (state.position call).call) := by
      rw [here]
      rfl
    rw [perform_some ran]
  | refused => exact (fails _ (Option.some_ne_none _) _ (by rw [here]; rfl)).elim
  | lost => exact (fails _ (Option.some_ne_none _) _ (by rw [here]; rfl)).elim

/-- A call that waits to write and does so later has an entry at least as late as
the one that is stored, or else its write loosens it. -/
private theorem waiting_le {call : κ} (waits : (state.position call).stage = .writing)
    (keyed : (state.position call).call.key = key)
    (tightens : Meets CloudflareKV.revoke (Tightens key) schedule state)
    (returned : ((performAll CloudflareKV.revoke schedule state).position call).stage = .returned none) :
    state.store.minIat key ≤ (state.position call).call.minIAT := by
  obtain ⟨earlier, input, later, position, store, rfl, here, ran, left⟩ :=
    exists_leaves (fun position => position = state.position call) rfl fun stays => by
      rw [stays, waits] at returned
      cases returned
  rw [meets_append] at tightens
  rw [performAll_append, performAll_cons] at returned
  have stored := stores_own (call, input) (here ▸ waits) returned
  refine (stored_mono tightens.1).trans (tightens.2.1.trans ?_)
  rw [stored, here, minIat_set, if_pos keyed]

private theorem call_stays (call : κ) (schedule : List (Act κ Answer)) :
    ((performAll CloudflareKV.revoke schedule state).position call).call = (state.position call).call := by
  refine keeps_always (fun later : Progress κ => (later.position call).call = (state.position call).call) ?_ schedule rfl
  intro later act same
  by_cases own : call = act.1
  · subst own
    cases ran : CloudflareKV.revoke act.2 (later.position act.1) later.store with
    | none => rw [perform_none ran]; exact same
    | some result =>
      rw [perform_own ran]
      exact (revoke_step ran).1.trans same
  · rw [perform_other own]
    exact same

/-- If the calls all return and loosen nothing, each of their steps is in order. -/
private theorem inOrder_first {act : Act κ Answer}
    (tightens : Meets CloudflareKV.revoke (Tightens key) (act :: schedule) state)
    (returned : Returned key (performAll CloudflareKV.revoke (act :: schedule) state)) :
    InOrder key state act := by
  have returns {call : κ} (keyed : (state.position call).call.key = key) :=
    returned call (by rw [call_stays]; exact keyed)
  refine ⟨?_, ?_⟩
  · intro call here keyed valid fails
    have ran : CloudflareKV.revoke act.2 (state.position act.1) state.store = some (⟨call, .writing⟩, state.store) := by
      rw [here, CloudflareKV.revoke, valid]
      simp only [fails, false_and, if_false]
    have waiting := perform_own ran
    have le := waiting_le (by rw [waiting]) (by rw [waiting]; exact keyed) tightens.2
      (returns (by rw [here]; exact keyed))
    rwa [waiting, perform_some ran] at le
  · intro call here keyed heard other waiting there also
    by_cases own : other = act.1
    · rw [own, here, RevokeCall.mk.injEq] at there
      rw [there.1]
    have stored := stores_own act (by rw [here]) (returns (by rw [here]; exact keyed))
    have stays : (perform CloudflareKV.revoke state act).position other = ⟨waiting, .writing⟩ := by
      rw [perform_other own, there]
    have le := waiting_le (by rw [stays]) (by rw [stays]; exact also) tightens.2
      (returns (by rw [there]; exact also))
    rw [stays, stored, here, minIat_set, if_pos keyed] at le
    exact WithBot.coe_le_coe.mp le

private theorem inOrder_run (tightens : Meets CloudflareKV.revoke (Tightens key) schedule state)
    (returned : Returned key (performAll CloudflareKV.revoke schedule state)) :
    Meets CloudflareKV.revoke (InOrder key) schedule state := by
  induction schedule generalizing state with
  | nil => trivial
  | cons act rest ih => exact ⟨inOrder_first tightens returned, ih tightens.2 returned⟩

/-! ### Runs -/

structure OnlyTightens (key : Text) (calls : κ → Revocation) (denylist : Denylist)
    (schedule : List (Act κ Answer)) : Prop where
  never : Meets CloudflareKV.revoke (Tightens key) schedule (begin calls denylist)
  settles : Returned key (performAll CloudflareKV.revoke schedule (begin calls denylist)) →
    IsGreatest (proposed key calls denylist)
      ((performAll CloudflareKV.revoke schedule (begin calls denylist)).store.minIat key)

/-- Calls whose steps are in order only tighten the denylist. Of calls that all
return without an error, no others do. -/
theorem revokes_tighten (key : Text) (calls : κ → Revocation) (denylist : Denylist)
    (schedule : List (Act κ Answer)) :
    (Meets CloudflareKV.revoke (InOrder key) schedule (begin calls denylist) →
        OnlyTightens key calls denylist schedule) ∧
      (Returned key (performAll CloudflareKV.revoke schedule (begin calls denylist)) →
        OnlyTightens key calls denylist schedule →
          Meets CloudflareKV.revoke (InOrder key) schedule (begin calls denylist)) := by
  refine ⟨fun inOrder => ⟨?_, (tight_run inOrder).greatest⟩, fun returned only => inOrder_run only.never returned⟩
  exact meets_of_keeps (fun _ _ => Tight.step) (fun _ _ tight _ => tight.tightens) tight_begin inOrder

/-! ### An earlier entry over a later one -/

/-- Two policy changes of one site, a minute apart. -/
private def changes (later : Bool) : Revocation := ⟨kindSite, "docs".toList, if later then 1700000060 else 1700000000⟩

/-- Both read before either writes. -/
theorem revoke_loosens :
    ¬ ∀ (calls : Bool → Revocation) (denylist : Denylist) (key : Text) (schedule : List (Act Bool Answer)),
      OnlyTightens key calls denylist schedule := by
  intro tightens
  have never := (tightens changes (fun _ => none) (changes true).key
    [(false, .served), (true, .served), (true, .served), (false, .served)]).never
  exact absurd never.2.2.2.1 (by unfold Tightens; decide +kernel)

end Dropway.Projection
