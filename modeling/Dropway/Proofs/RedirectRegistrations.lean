import Dropway.Proofs.RedirectConfinement

/-! Registrations that overlap. Each call writes the list that it has read with its
own redirect appended; what was appended in between is lost. -/

namespace Dropway.Dashboard
open Lib Calls

variable {κ : Type} [DecidableEq κ] {newUrl : UrlParser} {adapter : Adapter}
variable {requests : κ → Registration} {clients : OAuthClients} {state : Registrations κ}

/-- The call has registered the redirect for the client. -/
structure Registered (state : Registrations κ) (call : κ) (clientId uri : Text) : Prop where
  updated : (state.position call).stage = .returned .updated
  client : given (state.position call).call.clientId = some clientId
  redirect : given (state.position call).call.redirectUri = some uri

/-- Every redirect that has been registered is in its client's list. -/
def NoneLost (state : Registrations κ) : Prop :=
  ∀ call clientId uri, Registered state call clientId uri →
    ∃ list, state.store.listOf clientId = some list ∧ uri ∈ list

/-- A list is written only over one that it contains. -/
def Covers (state : Registrations κ) (act : Act κ DatabaseAnswer) : Prop :=
  ∀ clientId next, (state.position act.1).stage = .writing next →
    given (state.position act.1).call.clientId = some clientId → act.2 ≠ .refused →
      ∀ list, state.store.listOf clientId = some list → list ⊆ next

def Served (act : Act κ DatabaseAnswer) : Prop := act.2 ≠ .refused ∧ act.2 ≠ .lost

/-! ### One step -/

/-- A call writes a list that it has found, with its own redirect appended. -/
theorem written_list {call : Registration} {found : List Text → Prop} {next : List Text}
    (based : Based newUrl found call (.writing next)) :
    ∃ registered uri, found registered ∧ given call.redirectUri = some uri ∧ next = registered ++ [uri] := by
  obtain ⟨registered, uri, found, asked, appended⟩ := based
  refine ⟨registered, uri, found, asked, ?_⟩
  unfold Registration.append at appended
  cases mechanism : call.mechanism with
  | chatgpt consents =>
    rw [mechanism] at appended
    exact (nextRedirectUris_some appended).1
  | loopback =>
    rw [mechanism] at appended
    exact (nextLoopbackRedirectUris_some appended).1

theorem own_redirect {call : Registration} {found : List Text → Prop} {next : List Text} {uri : Text}
    (based : Based newUrl found call (.writing next)) (asked : given call.redirectUri = some uri) : uri ∈ next := by
  obtain ⟨registered, other, -, same, rfl⟩ := written_list based
  rw [asked, Option.some.injEq] at same
  subst same
  exact List.mem_append_right _ (List.mem_singleton_self uri)

omit [DecidableEq κ] in
/-- What a client's list becomes when a list is written for it. -/
theorem AllLawful.listOf_written (lawful : AllLawful newUrl clients state) {clientId : Text} {next : List Text}
    (legal : Lawful newUrl clients clientId next) :
    (state.store.updateRedirects adapter clientId next).listOf clientId = some next := by
  obtain ⟨initial, listed, -⟩ := legal
  have known : (state.store clientId).isSome = true := by
    rw [lawful.present]
    exact listOf_present listed
  obtain ⟨client, known⟩ := Option.isSome_iff_exists.mp known
  rw [listOf_updateRedirects, if_pos rfl, known, Option.map_some]

theorem registered_other {act : Act κ DatabaseAnswer} {call : κ} {clientId uri : Text} (other : call ≠ act.1) :
    Registered (perform (register newUrl adapter) state act) call clientId uri ↔ Registered state call clientId uri := by
  have same : (perform (register newUrl adapter) state act).position call = state.position call := perform_other other
  constructor
  · rintro ⟨updated, client, redirect⟩
    rw [same] at updated client redirect
    exact ⟨updated, client, redirect⟩
  · rintro ⟨updated, client, redirect⟩
    exact ⟨same ▸ updated, same ▸ client, same ▸ redirect⟩

omit [DecidableEq κ] in
/-- A list that is written over one it contains loses nothing. -/
theorem NoneLost.written {clientId : Text} {next : List Text} (none : NoneLost state)
    (lawful : AllLawful newUrl clients state) (legal : Lawful newUrl clients clientId next)
    (covers : ∀ list, state.store.listOf clientId = some list → list ⊆ next)
    {call : κ} {other uri : Text} (registered : Registered state call other uri) :
    ∃ list, (state.store.updateRedirects adapter clientId next).listOf other = some list ∧ uri ∈ list := by
  obtain ⟨list, listed, mem⟩ := none call other uri registered
  by_cases same : other = clientId
  · subst same
    exact ⟨next, lawful.listOf_written legal, covers list listed mem⟩
  · rw [listOf_updateRedirects, if_neg same]
    exact ⟨list, listed, mem⟩

theorem NoneLost.step {act : Act κ DatabaseAnswer} (none : NoneLost state) (lawful : AllLawful newUrl clients state)
    (covers : Covers state act) : NoneLost (perform (register newUrl adapter) state act) := by
  cases ran : register newUrl adapter act.2 (state.position act.1) state.store with
  | none => rwa [perform_none ran]
  | some result =>
    obtain ⟨position, stored⟩ := result
    obtain ⟨same, step⟩ := register_step ran
    have held := lawful.held act.1
    rw [← same] at step held
    have now : (perform (register newUrl adapter) state act).position act.1 = position := perform_own ran
    have left : (perform (register newUrl adapter) state act).store = stored := by rw [perform_some ran]
    intro call clientId uri registered
    rw [left]
    by_cases own : call = act.1
    · subst own
      obtain ⟨updated, client, redirect⟩ := registered
      rw [now] at updated client redirect
      rw [updated] at step
      generalize (state.position act.1).stage = stage at step held
      generalize act.2 = answer at step
      cases step with
      | quiet waiting unfinished based => exact absurd rfl unfinished
      | writes mine =>
        rw [mine, Option.some.injEq] at client
        subst client
        have legal := lawful_next (held _ mine)
        exact ⟨_, lawful.listOf_written legal, own_redirect (held _ mine) redirect⟩
    · rw [registered_other own] at registered
      have before := none call clientId uri registered
      unfold Covers at covers
      rw [← same] at covers
      generalize (state.position act.1).stage = stage at step held covers
      generalize position.stage = after at step
      generalize act.2 = answer at step covers
      cases step with
      | quiet waiting unfinished based => exact before
      | writes mine =>
        exact none.written lawful (lawful_next (held _ mine)) (covers _ _ rfl mine (fun refused => by cases refused)) registered
      | unheard mine =>
        exact none.written lawful (lawful_next (held _ mine)) (covers _ _ rfl mine (fun refused => by cases refused)) registered
      | refused => exact before

/-! ### Where a redirect comes from -/

theorem Registered.stays {call : κ} {clientId uri : Text} (registered : Registered state call clientId uri)
    (act : Act κ DatabaseAnswer) : Registered (perform (register newUrl adapter) state act) call clientId uri := by
  by_cases own : call = act.1
  · subst own
    cases ran : register newUrl adapter act.2 (state.position act.1) state.store with
    | none => rwa [perform_none ran]
    | some result =>
      obtain ⟨position, stored⟩ := result
      obtain ⟨-, step⟩ := register_step ran
      rw [registered.updated] at step
      generalize position.stage = after at step
      generalize act.2 = answer at step
      cases step with
      | quiet waiting => exact waiting.elim
  · exact (registered_other own).mpr registered

theorem Based.imp {found better : List Text → Prop} {call : Registration} {stage : RegistrationStage}
    (based : Based newUrl found call stage) (imp : ∀ list, found list → better list) : Based newUrl better call stage := by
  cases stage with
  | consenting again registered => exact imp registered based
  | writing next =>
    obtain ⟨registered, uri, found, asked, appended⟩ := based
    exact ⟨registered, uri, imp registered found, asked, appended⟩
  | called | reading | returned => trivial

/-- Each redirect of a list was there at the start or is registered. -/
def Accountable (clients : OAuthClients) (state : Registrations κ) (clientId : Text) (list : List Text) : Prop :=
  ∀ uri ∈ list, (∃ initial, clients.listOf clientId = some initial ∧ uri ∈ initial) ∨
    ∃ call, Registered state call clientId uri

theorem Accountable.stays {clientId : Text} {list : List Text} (accountable : Accountable clients state clientId list)
    (act : Act κ DatabaseAnswer) :
    Accountable clients (perform (register newUrl adapter) state act) clientId list := by
  intro uri mem
  rcases accountable uri mem with initially | ⟨call, registered⟩
  · exact .inl initially
  · exact .inr ⟨call, registered.stays act⟩

structure Accounted (newUrl : UrlParser) (clients : OAuthClients) (state : Registrations κ) : Prop where
  stored : ∀ clientId list, state.store.listOf clientId = some list → Accountable clients state clientId list
  held : ∀ call clientId, given (state.position call).call.clientId = some clientId →
    Based newUrl (Accountable clients state clientId) (state.position call).call (state.position call).stage

omit [DecidableEq κ] in
theorem Accounted.begin : Accounted newUrl clients (beginAll requests clients) :=
  ⟨fun _ list listed _ mem => .inl ⟨list, listed, mem⟩, fun _ _ _ => trivial⟩

theorem Accounted.step {act : Act κ DatabaseAnswer} (accounted : Accounted newUrl clients state) (served : Served act) :
    Accounted newUrl clients (perform (register newUrl adapter) state act) := by
  cases ran : register newUrl adapter act.2 (state.position act.1) state.store with
  | none => rwa [perform_none ran]
  | some result =>
    obtain ⟨position, stored⟩ := result
    obtain ⟨same, step⟩ := register_step ran
    have own := accounted.held act.1
    rw [← same] at step own
    have now : (perform (register newUrl adapter) state act).position act.1 = position := perform_own ran
    have left : (perform (register newUrl adapter) state act).store = stored := by rw [perform_some ran]
    -- The others hold what they held.
    have holds (mine : ∀ clientId, given position.call.clientId = some clientId → Based newUrl
        (Accountable clients (perform (register newUrl adapter) state act) clientId) position.call position.stage)
        (call : κ) (clientId : Text) (client : given ((perform (register newUrl adapter) state act).position call).call.clientId =
          some clientId) :
        Based newUrl (Accountable clients (perform (register newUrl adapter) state act) clientId)
          ((perform (register newUrl adapter) state act).position call).call
          ((perform (register newUrl adapter) state act).position call).stage := by
      by_cases moved : call = act.1
      · subst moved
        rw [now] at client ⊢
        exact mine clientId client
      · rw [perform_other moved] at client ⊢
        exact (accounted.held call clientId client).imp fun list accountable => accountable.stays act
    have kept : ∀ clientId list, state.store.listOf clientId = some list →
        Accountable clients (perform (register newUrl adapter) state act) clientId list :=
      fun clientId list listed => (accounted.stored clientId list listed).stays act
    refine ⟨?_, holds ?_⟩
    · rw [left]
      generalize stage : (state.position act.1).stage = before at step own
      generalize outcome : position.stage = after at step
      generalize answered : act.2 = answer at step
      cases step with
      | quiet waiting unfinished based => exact kept
      | @writes clientId next consented mine =>
        intro other list listed
        rw [listOf_updateRedirects] at listed
        by_cases here : other = clientId
        · rw [if_pos here] at listed
          subst here
          obtain ⟨client, -, rfl⟩ := Option.map_eq_some_iff.mp listed
          obtain ⟨registered, uri, accountable, asked, rfl⟩ := written_list (own _ mine)
          intro redirect mem
          rcases List.mem_append.mp mem with old | new
          · exact accountable.stays act redirect old
          · obtain rfl := List.mem_singleton.mp new
            exact .inr ⟨act.1, now ▸ outcome, now ▸ mine, now ▸ asked⟩
        · rw [if_neg here] at listed
          exact kept other list listed
      | unheard mine => exact absurd answered served.2
      | refused => exact kept
    · intro clientId client
      generalize (state.position act.1).stage = before at step own
      generalize position.stage = after at step
      generalize act.2 = answer at step
      cases step with
      | quiet waiting unfinished based =>
        refine based _ ?_ ((own clientId client).imp fun list accountable => accountable.stays act)
        intro other list mine listed
        rw [client, Option.some.injEq] at mine
        exact kept clientId list (mine ▸ listed)
      | writes mine => trivial
      | unheard mine => trivial
      | refused => trivial

theorem writes_list {act : Act κ DatabaseAnswer} {clientId : Text} {next : List Text} {found : List Text → Prop}
    (writing : (state.position act.1).stage = .writing next)
    (client : given (state.position act.1).call.clientId = some clientId)
    (based : Based newUrl found (state.position act.1).call (.writing next)) (heard : act.2 ≠ .refused) :
    (perform (register newUrl adapter) state act).store = state.store.updateRedirects adapter clientId next := by
  obtain ⟨registered, uri, -, asked, -⟩ := based
  have moved : (state.position act.1).call.next newUrl adapter act.2 (.writing next) state.store =
      some (writeList adapter clientId next state.store act.2) := by
    unfold Registration.next
    rw [client, asked]
    cases (state.position act.1).call.mechanism <;> rfl
  have ran : register newUrl adapter act.2 (state.position act.1) state.store =
      some (⟨(state.position act.1).call, (writeList adapter clientId next state.store act.2).1⟩,
        (writeList adapter clientId next state.store act.2).2) := by
    unfold register
    rw [← writing] at moved
    simp only [moved, Option.map_some]
  rw [perform_some ran]
  cases answer : act.2 with
  | served consented => rfl
  | lost => rfl
  | refused => exact absurd answer heard

/-- A list that drops a registered redirect loses it. -/
theorem covers_of_noneLost {act : Act κ DatabaseAnswer} (lawful : AllLawful newUrl clients state)
    (accounted : Accounted newUrl clients state) (none : NoneLost (perform (register newUrl adapter) state act)) : Covers state act := by
  intro clientId next writing client heard list listed uri mem
  have held := lawful.held act.1 clientId client
  rw [writing] at held
  obtain ⟨initial, initially, confined⟩ := lawful_next held
  rcases accounted.stored clientId list listed uri mem with ⟨first, also, firstMem⟩ | ⟨call, registered⟩
  · rw [initially, Option.some.injEq] at also
    exact confined.kept uri (also ▸ firstMem)
  · obtain ⟨now, nowListed, nowMem⟩ := none call clientId uri (registered.stays act)
    rw [writes_list writing client held heard, lawful.listOf_written (lawful_next held), Option.some.injEq] at nowListed
    exact nowListed ▸ nowMem

/-! ### Runs -/

omit [DecidableEq κ] in
theorem noneLost_begin : NoneLost (beginAll requests clients) := by
  intro call clientId uri registered
  have called := registered.updated
  simp only [beginAll] at called
  cases called

/-- No registration is lost in a run whose writes cover what they overwrite. Where
no step fails, no other run keeps every registration in every state. -/
theorem registrations_kept (newUrl : UrlParser) (adapter : Adapter) (requests : κ → Registration)
    (clients : OAuthClients) (schedule : List (Act κ DatabaseAnswer)) :
    (Meets (register newUrl adapter) Covers schedule (beginAll requests clients) →
        NoneLost (performAll (register newUrl adapter) schedule (beginAll requests clients))) ∧
      (Meets (register newUrl adapter)
          (fun state act => Served act ∧ NoneLost (perform (register newUrl adapter) state act))
          schedule (beginAll requests clients) →
        Meets (register newUrl adapter) Covers schedule (beginAll requests clients)) := by
  constructor
  · intro covers
    have both := keeps (fun state => AllLawful newUrl clients state ∧ NoneLost state)
      (fun _ act kept covers => ⟨kept.1.step act, kept.2.step kept.1 covers⟩)
      ⟨AllLawful.begin, noneLost_begin⟩ covers
    exact both.2
  · intro never
    have step (state : Registrations κ) (act : Act κ DatabaseAnswer)
        (kept : AllLawful newUrl clients state ∧ Accounted newUrl clients state)
        (fits : Served act ∧ NoneLost (perform (register newUrl adapter) state act)) :
        AllLawful newUrl clients (perform (register newUrl adapter) state act) ∧
          Accounted newUrl clients (perform (register newUrl adapter) state act) :=
      ⟨kept.1.step act, kept.2.step fits.1⟩
    apply meets_of_keeps step
    · intro state act kept fits
      exact covers_of_noneLost kept.1 kept.2 fits.2
    · exact ⟨AllLawful.begin, Accounted.begin⟩
    · exact never

/-! ### One authorize request over another -/

section Overwritten

def arrays : Adapter where
  surface uris := some (.arr (uris.map fun uri => .str (String.ofList uri)))
  readable uris := by
    change (uris.map fun uri => Json.str (String.ofList uri)).mapM asString = some uris
    induction uris with
    | nil => rfl
    | cons uri rest ih =>
      rw [List.map_cons, List.mapM_cons, ih, asString, String.toList_ofList]
      rfl

private def desktopUrl (host : Text) (port : Nat) : UrlRecord where
  scheme := "http".toList
  username := []
  password := []
  host := some host
  port := some port
  pathname := "/callback".toList
  query := none
  fragment := none

private def numeric : UrlRecord := desktopUrl "127.0.0.1".toList 3118
private def named : UrlRecord := desktopUrl "localhost".toList 64774
private def bracketed : UrlRecord := desktopUrl "[::1]".toList 3118

/-- The three URIs of the run are canonical. -/
private def desktopUrls : UrlParser := fun raw => [numeric, named, bracketed].find? fun url => url.href = raw

private def desktop : OAuthClients :=
  fun id => if id = "desk".toList then some ⟨arrays.surface [numeric.href], none⟩ else none

private def connects (second : Bool) : Registration where
  mechanism := .loopback
  clientId := some "desk".toList
  redirectUri := some (if second then bracketed.href else named.href)

/-- Both read the list twice before either writes it. -/
theorem registration_lost :
    ¬ ∀ (newUrl : UrlParser) (adapter : Adapter) (requests : Bool → Registration) (clients : OAuthClients)
      (schedule : List (Act Bool DatabaseAnswer)), (∀ act ∈ schedule, Served act) →
        (∀ call, ∃ result, ((performAll (register newUrl adapter) schedule (beginAll requests clients)).position call).stage =
          .returned result) →
        NoneLost (performAll (register newUrl adapter) schedule (beginAll requests clients)) := by
  intro kept
  have served : ∀ act ∈ [(false, .served false), (false, .served false), (true, .served false), (true, .served false),
      (false, .served false), (true, .served false)], Served (κ := Bool) act := by
    unfold Served
    decide
  have none := kept desktopUrls arrays connects desktop _ served
    (fun call => ⟨.updated, by cases call <;> decide +kernel⟩)
  obtain ⟨list, listed, mem⟩ := none false "desk".toList named.href
    ⟨by decide +kernel, by decide +kernel, by decide +kernel⟩
  have overwritten : (performAll (register desktopUrls arrays)
      [(false, .served false), (false, .served false), (true, .served false), (true, .served false),
        (false, .served false), (true, .served false)] (beginAll connects desktop)).store.listOf "desk".toList =
      some [numeric.href, bracketed.href] := by
    decide +kernel
  rw [overwritten, Option.some.injEq] at listed
  subst listed
  exact absurd mem (by decide +kernel)

end Overwritten

end Dropway.Dashboard
