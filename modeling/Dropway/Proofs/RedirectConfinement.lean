import Dropway.Dashboard.AuthorizeRedirect

/-! The list of a client's redirects stays confined, however the calls that append
to it overlap: every list that is written extends one that was stored, by a redirect
that the first list already licenses. -/

namespace Dropway.Dashboard
open Lib Calls

variable {newUrl : UrlParser} {adapter : Adapter} {initial list registered next : List Text} {uri : Text}

/-! ### What a list may grow to -/

/-- A canonical http loopback URI whose path is `path`, up to one trailing slash. -/
def LoopbackUri (newUrl : UrlParser) (uri path : Text) : Prop :=
  ∃ url, newUrl uri = some url ∧ url.href = uri ∧ url.protocol = "http:".toList ∧
    isLoopbackHostname url.hostname = true ∧ normalizedPath url.pathname = some path

def LoopbackAlias (newUrl : UrlParser) (initial : List Text) (uri : Text) : Prop :=
  ∃ path, LoopbackUri newUrl uri path ∧ ∃ old ∈ initial, LoopbackUri newUrl old path

/-- The stable callback, which may have a trailing slash, or one with an id. -/
def SpellsCallback (redirect : ChatgptRedirect) (uri : Text) : Prop :=
  uri = canonicalForm redirect ∨ redirect.isStable = true ∧ uri = canonicalForm redirect ++ ['/']

/-- A ChatGPT callback on a host that `initial` has a callback on. -/
structure ChatgptAlias (newUrl : UrlParser) (initial : List Text) (uri : Text) (redirect : ChatgptRedirect) : Prop where
  host : redirect.host ∈ chatgptHosts
  id : ∀ id ∈ redirect.id?, isCallbackId id = true
  spelled : SpellsCallback redirect uri
  parsed : parseChatgptRedirect newUrl uri = some redirect
  licensed : ∃ old ∈ initial, ∃ held, parseChatgptRedirect newUrl old = some held ∧ held.host = redirect.host

def OneCallback (newUrl : UrlParser) (list : List Text) (host : Text) : Prop :=
  ∀ one ∈ callbackIds newUrl host list, ∀ two ∈ callbackIds newUrl host list, one = two

structure Confined (newUrl : UrlParser) (initial list : List Text) : Prop where
  kept : ∀ uri ∈ initial, uri ∈ list
  added : ∀ uri ∈ list, uri ∉ initial → (∃ redirect, ChatgptAlias newUrl initial uri redirect) ∨
    LoopbackAlias newUrl initial uri
  callbacks : ∀ host, OneCallback newUrl initial host → OneCallback newUrl list host

/-! ### What the parsers accept -/

theorem parseChatgpt_some {redirect : ChatgptRedirect} (parsed : parseChatgptRedirect newUrl uri = some redirect) :
    redirect.host ∈ chatgptHosts ∧ (∀ id ∈ redirect.id?, isCallbackId id = true) ∧
      ∃ url, newUrl uri = some url ∧ url.protocol = "https:".toList := by
  unfold parseChatgptRedirect at parsed
  cases record : newUrl uri with
  | none =>
    rw [record] at parsed
    cases parsed
  | some url =>
    rw [record] at parsed
    simp only at parsed
    split_ifs at parsed with secure _ _ _ known _ stable _ id
    · cases parsed
      exact ⟨known, (fun id mem => by cases mem), url, rfl, not_not.mp secure⟩
    · cases parsed
      refine ⟨known, ?_, url, rfl, not_not.mp secure⟩
      intro given mem
      cases mem
      exact id

theorem parseLoopback_some {found : LoopbackRedirect} (parsed : parseLoopbackRedirect newUrl uri = some found) :
    LoopbackUri newUrl uri found.path := by
  unfold parseLoopbackRedirect at parsed
  cases record : newUrl uri with
  | none =>
    rw [record] at parsed
    cases parsed
  | some url =>
    rw [record] at parsed
    simp only at parsed
    cases normal : normalizedPath url.pathname with
    | none =>
      rw [normal] at parsed
      split_ifs at parsed
    | some path =>
      rw [normal] at parsed
      cases path with
      | nil => split_ifs at parsed
      | cons c rest =>
        split_ifs at parsed with plain _ _ loopback canonical
        cases parsed
        exact ⟨url, record, not_not.mp canonical, not_not.mp plain, loopback, normal⟩

/-- No URI is both. -/
theorem not_both {redirect : ChatgptRedirect} {path : Text} (parsed : parseChatgptRedirect newUrl uri = some redirect)
    (loopback : LoopbackUri newUrl uri path) : False := by
  obtain ⟨-, -, url, record, secure⟩ := parseChatgpt_some parsed
  obtain ⟨other, same, -, plain, -, -⟩ := loopback
  rw [record, Option.some.injEq] at same
  rw [← same, secure] at plain
  exact absurd plain (by decide)

theorem acceptable_some {found : Text} (accepted : acceptableRequestedRedirect newUrl uri = some found) :
    found = uri ∧ ∃ redirect, parseChatgptRedirect newUrl uri = some redirect ∧ SpellsCallback redirect uri := by
  unfold acceptableRequestedRedirect at accepted
  cases parsed : parseChatgptRedirect newUrl uri with
  | none =>
    rw [parsed] at accepted
    cases accepted
  | some redirect =>
    rw [parsed] at accepted
    simp only at accepted
    split_ifs at accepted with exact slash
    · cases accepted
      exact ⟨rfl, redirect, rfl, .inl exact⟩
    · cases accepted
      exact ⟨rfl, redirect, rfl, .inr slash⟩

theorem mem_sameHost {host : Text} {held : ChatgptRedirect} :
    held ∈ sameHost newUrl host list ↔ ∃ raw ∈ list, parseChatgptRedirect newUrl raw = some held ∧ held.host = host := by
  rw [sameHost, List.mem_filter, List.mem_filterMap, decide_eq_true_iff]
  constructor
  · rintro ⟨⟨raw, mem, parsed⟩, same⟩
    exact ⟨raw, mem, parsed, same⟩
  · rintro ⟨raw, mem, parsed, same⟩
    exact ⟨⟨raw, mem, parsed⟩, same⟩

theorem mem_callbackIds {host id : Text} :
    id ∈ callbackIds newUrl host list ↔ ∃ raw ∈ list, parseChatgptRedirect newUrl raw = some (.callback host id) := by
  rw [callbackIds, List.mem_filterMap]
  constructor
  · rintro ⟨held, mem, same⟩
    obtain ⟨raw, listed, parsed, rfl⟩ := mem_sameHost.mp mem
    cases held with
    | stable host => cases same
    | callback host other =>
      cases same
      exact ⟨raw, listed, parsed⟩
  · rintro ⟨raw, listed, parsed⟩
    exact ⟨.callback host id, mem_sameHost.mpr ⟨raw, listed, parsed, rfl⟩, rfl⟩

/-! ### Appending -/

/-- What has to hold for a ChatGPT callback to be appended. -/
structure AppendsCallback (newUrl : UrlParser) (registered : List Text) (uri : Text) (redirect : ChatgptRedirect) :
    Prop where
  parsed : parseChatgptRedirect newUrl uri = some redirect
  spelled : SpellsCallback redirect uri
  held : ∃ raw ∈ registered, ∃ held, parseChatgptRedirect newUrl raw = some held ∧ held.host = redirect.host
  alone : ∀ id ∈ redirect.id?, ∀ other ∈ callbackIds newUrl redirect.host registered, other = id

theorem nextRedirectUris_some (appended : nextRedirectUris newUrl uri registered = some next) :
    next = registered ++ [uri] ∧ ∃ redirect, AppendsCallback newUrl registered uri redirect := by
  unfold nextRedirectUris at appended
  obtain ⟨toAdd, added, rfl⟩ := Option.map_eq_some_iff.mp appended
  unfold redirectToRegister at added
  cases accepted : acceptableRequestedRedirect newUrl uri with
  | none =>
    rw [accepted] at added
    cases added
  | some found =>
    obtain ⟨rfl, redirect, parsed, spelled⟩ := acceptable_some accepted
    rw [accepted] at added
    simp only [parsed] at added
    split_ifs at added with _ none
    obtain ⟨held, mem⟩ := List.exists_mem_of_ne_nil _ none
    obtain ⟨raw, listed, was, same⟩ := mem_sameHost.mp mem
    have licensed : ∃ raw ∈ registered, ∃ held, parseChatgptRedirect newUrl raw = some held ∧ held.host = redirect.host :=
      ⟨raw, listed, held, was, same⟩
    cases redirect with
    | stable host =>
      cases added
      exact ⟨rfl, .stable host, parsed, spelled, licensed, fun id mem => by cases mem⟩
    | callback host id =>
      simp only at added
      split_ifs at added with others
      cases added
      refine ⟨rfl, .callback host id, parsed, spelled, licensed, ?_⟩
      intro given mem other listed
      cases mem
      by_contra differs
      exact others (List.any_eq_true.mpr ⟨other, listed, decide_eq_true differs⟩)

theorem nextLoopbackRedirectUris_some (appended : nextLoopbackRedirectUris newUrl uri registered = some next) :
    next = registered ++ [uri] ∧ ∃ path, LoopbackUri newUrl uri path ∧ ∃ raw ∈ registered, LoopbackUri newUrl raw path := by
  unfold nextLoopbackRedirectUris at appended
  obtain ⟨toAdd, added, rfl⟩ := Option.map_eq_some_iff.mp appended
  unfold loopbackRedirectToRegister at added
  cases parsed : parseLoopbackRedirect newUrl uri with
  | none =>
    rw [parsed] at added
    cases added
  | some requested =>
    rw [parsed] at added
    simp only at added
    split_ifs at added with _ sibling
    cases added
    obtain ⟨raw, listed, found⟩ := List.any_eq_true.mp sibling
    obtain ⟨existing, was, same⟩ := (Option.any_eq_true _ _).mp found
    refine ⟨rfl, requested.path, parseLoopback_some parsed, raw, listed, ?_⟩
    exact of_decide_eq_true same ▸ parseLoopback_some was

theorem callbackIds_append {host id : Text} (mem : id ∈ callbackIds newUrl host (registered ++ [uri])) :
    id ∈ callbackIds newUrl host registered ∨ parseChatgptRedirect newUrl uri = some (.callback host id) := by
  obtain ⟨raw, listed, parsed⟩ := mem_callbackIds.mp mem
  rcases List.mem_append.mp listed with old | new
  · exact .inl (mem_callbackIds.mpr ⟨raw, old, parsed⟩)
  · obtain rfl := List.mem_singleton.mp new
    exact .inr parsed

namespace Confined

theorem refl : Confined newUrl initial initial :=
  ⟨fun _ mem => mem, fun _ mem fresh => absurd mem fresh, fun _ one => one⟩

/-- A host that a callback of the list is on has a callback of the first list. -/
theorem licensed (confined : Confined newUrl initial list) {raw : Text} (listed : raw ∈ list)
    {held : ChatgptRedirect} (parsed : parseChatgptRedirect newUrl raw = some held) :
    ∃ old ∈ initial, ∃ first, parseChatgptRedirect newUrl old = some first ∧ first.host = held.host := by
  by_cases first : raw ∈ initial
  · exact ⟨raw, first, held, parsed, rfl⟩
  · rcases confined.added raw listed first with ⟨redirect, callback⟩ | ⟨path, loopback, -⟩
    · have same : redirect = held := Option.some.inj (callback.parsed.symm.trans parsed)
      exact same ▸ callback.licensed
    · exact (not_both parsed loopback).elim

theorem sibling (confined : Confined newUrl initial list) {raw path : Text} (listed : raw ∈ list)
    (loopback : LoopbackUri newUrl raw path) : ∃ old ∈ initial, LoopbackUri newUrl old path := by
  by_cases first : raw ∈ initial
  · exact ⟨raw, first, loopback⟩
  · rcases confined.added raw listed first with ⟨redirect, callback⟩ | ⟨other, also, old, mem, was⟩
    · exact (not_both callback.parsed loopback).elim
    · obtain ⟨url, record, -, -, -, here⟩ := loopback
      obtain ⟨again, same, -, -, -, there⟩ := also
      rw [record, Option.some.injEq] at same
      rw [← same, here, Option.some.injEq] at there
      exact ⟨old, mem, there ▸ was⟩

theorem append (confined : Confined newUrl initial registered)
    (licensed : (∃ redirect, ChatgptAlias newUrl initial uri redirect) ∨ LoopbackAlias newUrl initial uri)
    (alone : ∀ host id, parseChatgptRedirect newUrl uri = some (.callback host id) →
      ∀ other ∈ callbackIds newUrl host registered, other = id) :
    Confined newUrl initial (registered ++ [uri]) := by
  refine ⟨fun old mem => List.mem_append_left _ (confined.kept old mem), ?_, ?_⟩
  · intro added mem fresh
    rcases List.mem_append.mp mem with old | new
    · exact confined.added added old fresh
    · obtain rfl := List.mem_singleton.mp new
      exact licensed
  · intro host first one oneMem two twoMem
    have before := confined.callbacks host first
    rcases callbackIds_append oneMem with oneOld | oneNew
    · rcases callbackIds_append twoMem with twoOld | twoNew
      · exact before one oneOld two twoOld
      · exact alone host two twoNew one oneOld
    · rcases callbackIds_append twoMem with twoOld | twoNew
      · exact (alone host one oneNew two twoOld).symm
      · have same := oneNew.symm.trans twoNew
        rw [Option.some.injEq, ChatgptRedirect.callback.injEq] at same
        exact same.2

theorem chatgpt (confined : Confined newUrl initial registered)
    (appended : nextRedirectUris newUrl uri registered = some next) : Confined newUrl initial next := by
  obtain ⟨rfl, redirect, appends⟩ := nextRedirectUris_some appended
  obtain ⟨raw, listed, held, was, same⟩ := appends.held
  obtain ⟨known, wellFormed, -⟩ := parseChatgpt_some appends.parsed
  have licensed := confined.licensed listed was
  rw [same] at licensed
  refine confined.append (.inl ⟨redirect, known, wellFormed, appends.spelled, appends.parsed, licensed⟩) ?_
  intro host id parsed other mem
  obtain rfl := Option.some.inj (appends.parsed.symm.trans parsed)
  exact appends.alone id rfl other mem

theorem loopback (confined : Confined newUrl initial registered)
    (appended : nextLoopbackRedirectUris newUrl uri registered = some next) : Confined newUrl initial next := by
  obtain ⟨rfl, path, canonical, raw, listed, was⟩ := nextLoopbackRedirectUris_some appended
  refine confined.append (.inr ⟨path, canonical, confined.sibling listed was⟩) ?_
  intro host id parsed
  exact (not_both parsed canonical).elim

end Confined

/-! ### One step -/

def OAuthClients.listOf (clients : OAuthClients) (clientId : Text) : Option (List Text) :=
  (clients clientId).bind fun client => coerceRedirectUris client.redirectUris

/-- The list that a registration makes of one that it finds. -/
def Registration.append (newUrl : UrlParser) (call : Registration) (uri : Text) : List Text → Option (List Text) :=
  match call.mechanism with
  | .chatgpt _ => nextRedirectUris newUrl uri
  | .loopback => nextLoopbackRedirectUris newUrl uri

/-- What a call holds comes from a list that it has found. -/
def Based (newUrl : UrlParser) (found : List Text → Prop) (call : Registration) : RegistrationStage → Prop
  | .consenting _ registered => found registered
  | .writing next => ∃ registered uri, found registered ∧ given call.redirectUri = some uri ∧
      call.append newUrl uri registered = some next
  | _ => True

/-- The call has neither a list to write nor a result. -/
def RegistrationStage.Waiting : RegistrationStage → Prop
  | .writing _ => False
  | .returned _ => False
  | _ => True

/-- A step looks up or asks, and then leaves the clients, or writes what it holds. -/
inductive RegisterStep (newUrl : UrlParser) (adapter : Adapter) (call : Registration) (clients : OAuthClients) :
    DatabaseAnswer → RegistrationStage → RegistrationStage → OAuthClients → Prop
  | quiet {answer : DatabaseAnswer} {stage after : RegistrationStage} (waiting : stage.Waiting)
      (unfinished : after ≠ .returned .updated)
      (based : ∀ found : List Text → Prop,
        (∀ clientId list, given call.clientId = some clientId → clients.listOf clientId = some list → found list) →
        Based newUrl found call stage → Based newUrl found call after) :
      RegisterStep newUrl adapter call clients answer stage after clients
  | writes {clientId : Text} {next : List Text} {consented : Bool} (own : given call.clientId = some clientId) :
      RegisterStep newUrl adapter call clients (.served consented) (.writing next) (.returned .updated)
        (clients.updateRedirects adapter clientId next)
  | unheard {clientId : Text} {next : List Text} (own : given call.clientId = some clientId) :
      RegisterStep newUrl adapter call clients .lost (.writing next) (.returned .threw)
        (clients.updateRedirects adapter clientId next)
  | refused {next : List Text} :
      RegisterStep newUrl adapter call clients .refused (.writing next) (.returned .threw) clients

/-- A stage that a call may be in after it has read. -/
structure Read (newUrl : UrlParser) (call : Registration) (found : Option (List Text)) (after : RegistrationStage) :
    Prop where
  unfinished : after ≠ .returned .updated
  based : ∀ good : List Text → Prop, (∀ list, found = some list → good list) → Based newUrl good call after

private theorem read_returned {call : Registration} {found : Option (List Text)} {result : RegistrationResult}
    (other : result ≠ .updated) : Read newUrl call found (.returned result) :=
  ⟨fun same => other (RegistrationStage.returned.inj same), fun _ _ => trivial⟩

private theorem read_continueWith {call : Registration} (asked : given call.redirectUri = some uri) (again : Bool) :
    Read newUrl call (some registered) (continueWith (call.append newUrl uri registered) again) := by
  cases again with
  | false => exact ⟨(fun same => by cases same), fun _ _ => trivial⟩
  | true =>
    cases appended : call.append newUrl uri registered with
    | none => exact read_returned (by decide)
    | some next =>
      refine ⟨(fun same => by cases same), fun good found => ?_⟩
      exact ⟨registered, uri, found registered rfl, asked, appended⟩

private theorem read_findChatgpt {call : Registration} {consents : Bool} (mechanism : call.mechanism = .chatgpt consents)
    (asked : given call.redirectUri = some uri) (again : Bool) (client : Option OAuthClientRedirectRecord) :
    Read newUrl call (client.bind fun client => coerceRedirectUris client.redirectUris)
      (findChatgpt newUrl consents uri again client) := by
  cases client with
  | none => exact read_returned (by decide)
  | some client =>
    rw [Option.bind_some]
    unfold findChatgpt
    cases readable : coerceRedirectUris client.redirectUris with
    | none =>
      simp only [readable]
      exact read_returned (by decide)
    | some registered =>
      cases verdict : mayStoreRedirect newUrl consents uri registered client.skipConsent with
      | none =>
        simp only [readable, verdict]
        exact ⟨(fun same => by cases same), fun good found => found registered rfl⟩
      | some allowed =>
        cases allowed with
        | false =>
          simp only [readable, verdict]
          exact read_returned (by decide)
        | true =>
          simp only [readable, verdict]
          have continued : Read newUrl call (some registered)
              (continueWith (call.append newUrl uri registered) again) := read_continueWith asked again
          rwa [Registration.append, mechanism] at continued

private theorem read_findLoopback {call : Registration} (mechanism : call.mechanism = .loopback)
    (asked : given call.redirectUri = some uri) (again : Bool) (client : Option OAuthClientRedirectRecord) :
    Read newUrl call (client.bind fun client => coerceRedirectUris client.redirectUris)
      (findLoopback newUrl uri again client) := by
  cases client with
  | none => exact read_returned (by decide)
  | some client =>
    rw [Option.bind_some]
    unfold findLoopback
    cases readable : coerceRedirectUris client.redirectUris with
    | none =>
      simp only [readable]
      exact read_returned (by decide)
    | some registered =>
      have continued : Read newUrl call (some registered)
          (continueWith (call.append newUrl uri registered) again) := read_continueWith asked again
      rw [Registration.append, mechanism] at continued
      cases appended : nextLoopbackRedirectUris newUrl uri registered with
      | none =>
        simp only [readable, appended]
        exact read_returned (by decide)
      | some next =>
        simp only [readable, appended]
        simp only [appended] at continued
        exact continued

section Step

variable {call : Registration} {clients stored : OAuthClients} {answer : DatabaseAnswer}
variable {stage after : RegistrationStage} {clientId : Text}

private theorem step_skipped : RegisterStep newUrl adapter call clients answer .called (.returned .skipped) clients :=
  .quiet trivial (fun same => by cases same) (fun _ _ _ => trivial)

private theorem step_lookUp (own : given call.clientId = some clientId)
    {find : Option OAuthClientRedirectRecord → RegistrationStage} (waiting : stage.Waiting)
    (reads : ∀ client, Read newUrl call (client.bind fun client => coerceRedirectUris client.redirectUris) (find client))
    (ran : some (lookUp find clientId clients answer) = some (after, stored)) :
    RegisterStep newUrl adapter call clients answer stage after stored := by
  have read := reads (clients clientId)
  cases answer with
  | served consented =>
    cases ran
    exact .quiet waiting read.unfinished fun good found _ => read.based good fun list listed => found clientId list own listed
  | refused | lost =>
    cases ran
    exact .quiet waiting (fun same => by cases same) fun _ _ _ => trivial

private theorem step_writeList (own : given call.clientId = some clientId)
    (ran : some (writeList adapter clientId next clients answer) = some (after, stored)) :
    RegisterStep newUrl adapter call clients answer (.writing next) after stored := by
  cases answer with
  | served consented =>
    cases ran
    exact .writes own
  | refused =>
    cases ran
    exact .refused
  | lost =>
    cases ran
    exact .unheard own

private theorem step_chatgpt {consents : Bool} (mechanism : call.mechanism = .chatgpt consents)
    (own : given call.clientId = some clientId) (asked : given call.redirectUri = some uri)
    (ran : registerChatgptAuthorizeRedirect newUrl adapter consents clientId uri answer stage clients =
      some (after, stored)) : RegisterStep newUrl adapter call clients answer stage after stored := by
  cases stage with
  | called =>
    rw [registerChatgptAuthorizeRedirect] at ran
    split_ifs at ran
    · cases ran
      exact step_skipped
    · exact step_lookUp own trivial (read_findChatgpt mechanism asked false) ran
  | reading =>
    exact step_lookUp own trivial (read_findChatgpt mechanism asked true) ran
  | consenting again registered =>
    rw [registerChatgptAuthorizeRedirect] at ran
    split_ifs at ran
    · cases ran
      have continued : Read newUrl call (some registered)
          (continueWith (call.append newUrl uri registered) again) := read_continueWith asked again
      rw [Registration.append, mechanism] at continued
      refine .quiet trivial continued.unfinished fun good found held => ?_
      apply continued.based good
      intro list same
      cases same
      exact held
    · cases ran
      exact .quiet trivial (fun same => by cases same) fun _ _ _ => trivial
  | writing next => exact step_writeList own ran
  | returned result => cases ran

private theorem step_loopback (mechanism : call.mechanism = .loopback)
    (own : given call.clientId = some clientId) (asked : given call.redirectUri = some uri)
    (ran : registerLoopbackAuthorizeRedirect newUrl adapter clientId uri answer stage clients =
      some (after, stored)) : RegisterStep newUrl adapter call clients answer stage after stored := by
  cases stage with
  | called =>
    rw [registerLoopbackAuthorizeRedirect] at ran
    split_ifs at ran
    · cases ran
      exact step_skipped
    · exact step_lookUp own trivial (read_findLoopback mechanism asked false) ran
  | reading =>
    exact step_lookUp own trivial (read_findLoopback mechanism asked true) ran
  | writing next => exact step_writeList own ran
  | consenting again registered => cases ran
  | returned result => cases ran

theorem register_step {position : RegisterCall}
    (ran : register newUrl adapter answer ⟨call, stage⟩ clients = some (position, stored)) :
    position.call = call ∧ RegisterStep newUrl adapter call clients answer stage position.stage stored := by
  unfold register at ran
  obtain ⟨⟨after, clients'⟩, moved, same⟩ := Option.map_eq_some_iff.mp ran
  cases same
  refine ⟨rfl, ?_⟩
  unfold Registration.next at moved
  cases own : given call.clientId with
  | none =>
    rw [own] at moved
    simp only at moved
    split_ifs at moved with here
    cases moved
    exact here ▸ step_skipped
  | some clientId =>
    cases asked : given call.redirectUri with
    | none =>
      rw [own, asked] at moved
      simp only at moved
      split_ifs at moved with here
      cases moved
      exact here ▸ step_skipped
    | some uri =>
      rw [own, asked] at moved
      simp only at moved
      cases mechanism : call.mechanism with
      | chatgpt consents =>
        rw [mechanism] at moved
        exact step_chatgpt mechanism own asked moved
      | loopback =>
        rw [mechanism] at moved
        exact step_loopback mechanism own asked moved

end Step

/-! ### Runs -/

theorem listOf_present {clients : OAuthClients} {clientId : Text} (listed : clients.listOf clientId = some list) :
    (clients clientId).isSome = true := by
  obtain ⟨client, known, -⟩ := Option.bind_eq_some_iff.mp listed
  rw [known]
  rfl

theorem listOf_updateRedirects {clients : OAuthClients} {clientId other : Text} :
    (clients.updateRedirects adapter clientId next).listOf other =
      if other = clientId then (clients clientId).map fun _ => next else clients.listOf other := by
  unfold OAuthClients.listOf OAuthClients.updateRedirects
  by_cases same : other = clientId
  · subst same
    rw [if_pos rfl, Function.update_self]
    cases clients other with
    | none => rfl
    | some client => exact adapter.readable next
  · rw [if_neg same, Function.update_of_ne same]

variable {κ : Type} [DecidableEq κ] {requests : κ → Registration} {clients : OAuthClients}

abbrev Registrations (κ : Type) := State κ RegisterCall OAuthClients

def beginAll (requests : κ → Registration) (clients : OAuthClients) : Registrations κ :=
  ⟨clients, fun call => ⟨requests call, .called⟩⟩

/-- The list is one that the client may come to have. -/
def Lawful (newUrl : UrlParser) (clients : OAuthClients) (clientId : Text) (list : List Text) : Prop :=
  ∃ initial, clients.listOf clientId = some initial ∧ Confined newUrl initial list

/-- Every list that is stored or held is lawful, and no client comes or goes. -/
structure AllLawful (newUrl : UrlParser) (clients : OAuthClients) (state : Registrations κ) : Prop where
  present : ∀ clientId, (state.store clientId).isSome = (clients clientId).isSome
  stored : ∀ clientId, Option.Rel (Confined newUrl) (clients.listOf clientId) (state.store.listOf clientId)
  held : ∀ call clientId, given (state.position call).call.clientId = some clientId →
    Based newUrl (Lawful newUrl clients clientId) (state.position call).call (state.position call).stage

theorem lawful_next {call : Registration} {clientId : Text}
    (based : Based newUrl (Lawful newUrl clients clientId) call (.writing next)) :
    Lawful newUrl clients clientId next := by
  obtain ⟨registered, uri, ⟨initial, listed, confined⟩, -, appended⟩ := based
  refine ⟨initial, listed, ?_⟩
  unfold Registration.append at appended
  cases mechanism : call.mechanism with
  | chatgpt consents =>
    rw [mechanism] at appended
    exact confined.chatgpt appended
  | loopback =>
    rw [mechanism] at appended
    exact confined.loopback appended

namespace AllLawful

variable {state : Registrations κ}

omit [DecidableEq κ] in
theorem begin : AllLawful newUrl clients (beginAll requests clients) := by
  refine ⟨fun _ => rfl, fun clientId => ?_, fun _ _ _ => trivial⟩
  simp only [beginAll]
  cases clients.listOf clientId with
  | none => exact .none
  | some list => exact .some Confined.refl

omit [DecidableEq κ] in
theorem found (lawful : AllLawful newUrl clients state) {clientId : Text}
    (listed : state.store.listOf clientId = some list) : Lawful newUrl clients clientId list := by
  have related := lawful.stored clientId
  rw [listed] at related
  cases initially : clients.listOf clientId with
  | none =>
    rw [initially] at related
    cases related
  | some initial =>
    rw [initially] at related
    cases related with
    | some confined => exact ⟨initial, initially, confined⟩

omit [DecidableEq κ] in
theorem written (adapter : Adapter) (lawful : AllLawful newUrl clients state) {clientId : Text}
    (legal : Lawful newUrl clients clientId next) :
    (∀ other, (state.store.updateRedirects adapter clientId next other).isSome = (clients other).isSome) ∧
      ∀ other, Option.Rel (Confined newUrl) (clients.listOf other)
        ((state.store.updateRedirects adapter clientId next).listOf other) := by
  obtain ⟨initial, listed, confined⟩ := legal
  constructor
  · intro other
    rw [← lawful.present other]
    unfold OAuthClients.updateRedirects
    by_cases same : other = clientId
    · rw [same, Function.update_self, Option.isSome_map]
    · rw [Function.update_of_ne same]
  · intro other
    rw [listOf_updateRedirects]
    by_cases same : other = clientId
    · have known : (state.store clientId).isSome = true := by
        rw [lawful.present]
        exact listOf_present listed
      obtain ⟨client, known⟩ := Option.isSome_iff_exists.mp known
      rw [same, if_pos rfl, listed, known]
      exact .some confined
    · rw [if_neg same]
      exact lawful.stored other

theorem step (lawful : AllLawful newUrl clients state) (act : Act κ DatabaseAnswer) :
    AllLawful newUrl clients (perform (register newUrl adapter) state act) := by
  cases ran : register newUrl adapter act.2 (state.position act.1) state.store with
  | none => rwa [perform_none ran]
  | some result =>
    obtain ⟨position, stored⟩ := result
    have own := lawful.held act.1
    obtain ⟨same, step⟩ := register_step ran
    generalize (state.position act.1).stage = stage at own step
    rw [perform_some ran]
    -- The others hold what they held.
    have holds (now : ∀ clientId, given position.call.clientId = some clientId →
        Based newUrl (Lawful newUrl clients clientId) position.call position.stage) (call : κ) (clientId : Text) :
        given (Function.update state.position act.1 position call).call.clientId = some clientId →
          Based newUrl (Lawful newUrl clients clientId) (Function.update state.position act.1 position call).call
            (Function.update state.position act.1 position call).stage := by
      by_cases mine : call = act.1
      · subst mine
        rw [Function.update_self]
        exact now clientId
      · rw [Function.update_of_ne mine]
        exact lawful.held call clientId
    rw [← same] at own step
    generalize position.stage = after at holds step
    generalize act.2 = answer at step
    cases step with
    | quiet waiting unfinished based =>
      refine ⟨lawful.present, lawful.stored, holds fun clientId mine => based _ ?_ (own clientId mine)⟩
      intro other list also listed
      rw [mine, Option.some.injEq] at also
      exact also ▸ lawful.found (also ▸ listed)
    | writes mine =>
      obtain ⟨present, stored⟩ := lawful.written adapter (lawful_next (own _ mine))
      exact ⟨present, stored, holds fun _ _ => trivial⟩
    | unheard mine =>
      obtain ⟨present, stored⟩ := lawful.written adapter (lawful_next (own _ mine))
      exact ⟨present, stored, holds fun _ _ => trivial⟩
    | refused => exact ⟨lawful.present, lawful.stored, holds fun _ _ => trivial⟩

theorem run (schedule : List (Act κ DatabaseAnswer)) :
    AllLawful newUrl clients (performAll (register newUrl adapter) schedule (beginAll requests clients)) :=
  keeps_always (AllLawful newUrl clients) (fun _ act lawful => lawful.step act) schedule begin

end AllLawful

/-- However the calls overlap, the list of a client is confined by the list that it
began with, and stays unreadable if it was so. -/
theorem redirects_confined (newUrl : UrlParser) (adapter : Adapter) (requests : κ → Registration)
    (clients : OAuthClients) (schedule : List (Act κ DatabaseAnswer)) (clientId : Text) :
    Option.Rel (Confined newUrl) (clients.listOf clientId)
      ((performAll (register newUrl adapter) schedule (beginAll requests clients)).store.listOf clientId) :=
  (AllLawful.run schedule).stored clientId

end Dropway.Dashboard
