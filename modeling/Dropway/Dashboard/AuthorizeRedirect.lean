import Dropway.Dashboard.ChatgptRedirect
import Dropway.Dashboard.LoopbackRedirect
import Dropway.Lib.Calls

/-! The calls that append a requested redirect to a client's stored list before the
authorize endpoint matches it (registerChatgptAuthorizeRedirect,
registerLoopbackAuthorizeRedirect). Each looks the client up twice and then writes
the whole list. -/

namespace Dropway.Dashboard
open Lib

structure OAuthClientRedirectRecord where
  redirectUris : Option Json
  skipConsent : Option Bool

abbrev OAuthClients := Text → Option OAuthClientRedirectRecord

/-- How the database adapter hands back a list that was written: as an array, or as
the JSON text of one. -/
structure Adapter where
  surface : List Text → Option Json
  readable : ∀ uris, coerceRedirectUris (surface uris) = some uris

def OAuthClients.updateRedirects (adapter : Adapter) (clientId : Text) (redirectUris : List Text)
    (clients : OAuthClients) : OAuthClients :=
  Function.update clients clientId
    ((clients clientId).map fun client => { client with redirectUris := adapter.surface redirectUris })

inductive RedirectMechanism where
  /-- The lookup of consents may be missing. -/
  | chatgpt (clientHasConsent : Bool)
  | loopback
  deriving DecidableEq

structure Registration where
  mechanism : RedirectMechanism
  clientId : Option Text
  redirectUri : Option Text
  deriving DecidableEq

inductive RegistrationResult where
  | updated
  | unchanged
  | skipped
  | threw
  deriving DecidableEq

inductive RegistrationStage where
  | called
  /-- Waits for the lookup of consents, before or after the list was read again. -/
  | consenting (again : Bool) (registered : List Text)
  | reading
  | writing (next : List Text)
  | returned (result : RegistrationResult)
  deriving DecidableEq

/-- What becomes of a request to the database: it is served, it is refused, or it is
served and its answer is lost. -/
inductive DatabaseAnswer where
  | served (consented : Bool)
  | refused
  | lost
  deriving DecidableEq

section Calls

variable (newUrl : UrlParser) (adapter : Adapter)

/-- Whether the redirect may be stored; `none` where that is for the lookup of
consents to say. -/
def mayStoreRedirect (clientHasConsent : Bool) (redirectUri : Text) (registered : List Text)
    (skipConsent : Option Bool) : Option Bool :=
  if (nextRedirectUris newUrl redirectUri registered).isNone then some false
  else if ¬ isNewCallbackId newUrl redirectUri registered then some true
  else if skipConsent = some true then some false
  else if ¬ clientHasConsent then some false
  else none

/-- After a list that was read may be appended to. -/
def continueWith (next : Option (List Text)) : Bool → RegistrationStage
  | false => .reading
  | true =>
    match next with
    | none => .returned .unchanged
    | some next => .writing next

def findChatgpt (clientHasConsent : Bool) (redirectUri : Text) (again : Bool) :
    Option OAuthClientRedirectRecord → RegistrationStage
  | none => .returned .skipped
  | some client =>
    match coerceRedirectUris client.redirectUris with
    | none => .returned .skipped
    | some registered =>
      match mayStoreRedirect newUrl clientHasConsent redirectUri registered client.skipConsent with
      | some true => continueWith (nextRedirectUris newUrl redirectUri registered) again
      | some false => .returned .unchanged
      | none => .consenting again registered

def findLoopback (redirectUri : Text) (again : Bool) : Option OAuthClientRedirectRecord → RegistrationStage
  | none => .returned .skipped
  | some client =>
    match coerceRedirectUris client.redirectUris with
    | none => .returned .skipped
    | some registered =>
      match nextLoopbackRedirectUris newUrl redirectUri registered with
      | none => .returned .unchanged
      | some next => continueWith (some next) again

/-- A step that looks the client up. -/
def lookUp (find : Option OAuthClientRedirectRecord → RegistrationStage) (clientId : Text) (clients : OAuthClients) :
    DatabaseAnswer → RegistrationStage × OAuthClients
  | .served _ => (find (clients clientId), clients)
  | _ => (.returned .threw, clients)

def writeList (clientId : Text) (next : List Text) (clients : OAuthClients) :
    DatabaseAnswer → RegistrationStage × OAuthClients
  | .served _ => (.returned .updated, clients.updateRedirects adapter clientId next)
  | .lost => (.returned .threw, clients.updateRedirects adapter clientId next)
  | .refused => (.returned .threw, clients)

def registerChatgptAuthorizeRedirect (clientHasConsent : Bool) (clientId redirectUri : Text) :
    DatabaseAnswer → RegistrationStage → OAuthClients → Option (RegistrationStage × OAuthClients)
  | answer, .called, clients =>
    if (acceptableRequestedRedirect newUrl redirectUri).isNone then some (.returned .skipped, clients)
    else some (lookUp (findChatgpt newUrl clientHasConsent redirectUri false) clientId clients answer)
  | answer, .reading, clients =>
    some (lookUp (findChatgpt newUrl clientHasConsent redirectUri true) clientId clients answer)
  -- A lookup of consents that fails counts as a consent.
  | answer, .consenting again registered, clients =>
    if answer = .served false then
      some (continueWith (nextRedirectUris newUrl redirectUri registered) again, clients)
    else some (.returned .unchanged, clients)
  | answer, .writing next, clients => some (writeList adapter clientId next clients answer)
  | _, .returned _, _ => none

def registerLoopbackAuthorizeRedirect (clientId redirectUri : Text) :
    DatabaseAnswer → RegistrationStage → OAuthClients → Option (RegistrationStage × OAuthClients)
  | answer, .called, clients =>
    if (parseLoopbackRedirect newUrl redirectUri).isNone then some (.returned .skipped, clients)
    else some (lookUp (findLoopback newUrl redirectUri false) clientId clients answer)
  | answer, .reading, clients => some (lookUp (findLoopback newUrl redirectUri true) clientId clients answer)
  | answer, .writing next, clients => some (writeList adapter clientId next clients answer)
  | _, .consenting _ _, _ => none
  | _, .returned _, _ => none

/-- An empty string is as good as none. -/
def given (value : Option Text) : Option Text := value.filter (· ≠ [])

def Registration.next (call : Registration) (answer : DatabaseAnswer) (stage : RegistrationStage)
    (clients : OAuthClients) : Option (RegistrationStage × OAuthClients) :=
  match given call.clientId, given call.redirectUri with
  | some clientId, some redirectUri =>
    match call.mechanism with
    | .chatgpt clientHasConsent =>
      registerChatgptAuthorizeRedirect newUrl adapter clientHasConsent clientId redirectUri answer stage clients
    | .loopback => registerLoopbackAuthorizeRedirect newUrl adapter clientId redirectUri answer stage clients
  | _, _ => if stage = .called then some (.returned .skipped, clients) else none

structure RegisterCall where
  call : Registration
  stage : RegistrationStage
  deriving DecidableEq

def register : Calls.Program DatabaseAnswer RegisterCall OAuthClients
  | answer, ⟨call, stage⟩, clients =>
    (call.next newUrl adapter answer stage clients).map fun after => (⟨call, after.1⟩, after.2)

end Calls

end Dropway.Dashboard
