import Dropway.Lib.JsonRead
import Dropway.Lib.Url

/-! Which ChatGPT callbacks may be appended to a client's redirects
(lib/oauth-chatgpt-redirect.ts). -/

namespace Dropway.Dashboard
open Lib

def chatgptHosts : List Text := ["chatgpt.com".toList, "chat.openai.com".toList]
def stablePath : Text := "/connector_platform_oauth_redirect".toList
def callbackPrefix : Text := "/connector/oauth/".toList

def isCallbackId (id : Text) : Bool :=
  1 ≤ id.length && id.length ≤ 128 && id.all fun c => c.isAlphanum || c = '_' || c = '-'

inductive ChatgptRedirect where
  | stable (host : Text)
  | callback (host id : Text)
  deriving DecidableEq

namespace ChatgptRedirect

def host : ChatgptRedirect → Text
  | stable host => host
  | callback host _ => host

def isStable : ChatgptRedirect → Bool
  | stable _ => true
  | callback _ _ => false

def id? : ChatgptRedirect → Option Text
  | stable _ => none
  | callback _ id => some id

end ChatgptRedirect

def canonicalForm : ChatgptRedirect → Text
  | .stable host => "https://".toList ++ host ++ stablePath
  | .callback host id => "https://".toList ++ host ++ callbackPrefix ++ id

/-- The stable callback may have one trailing slash. -/
def stableOr (path : Text) : Text := if path = stablePath ++ ['/'] then stablePath else path

section Pure

variable (newUrl : UrlParser)

def parseChatgptRedirect (raw : Text) : Option ChatgptRedirect :=
  match newUrl raw with
  | none => none
  | some url =>
    if url.protocol ≠ "https:".toList then none
    else if url.username ≠ [] ∨ url.password ≠ [] then none
    else if url.portText ≠ [] then none
    else if url.search ≠ [] ∨ url.hash ≠ [] then none
    else if Text.lower url.hostname ∉ chatgptHosts then none
    else if '\\' ∈ stableOr url.pathname ∨ "..".toList ∈ (stableOr url.pathname).splitOn '/' then none
    else if stableOr url.pathname = stablePath then some (.stable (Text.lower url.hostname))
    else if ¬ Text.startsWith (stableOr url.pathname) callbackPrefix then none
    else if ¬ isCallbackId ((stableOr url.pathname).drop callbackPrefix.length) then none
    else some (.callback (Text.lower url.hostname) ((stableOr url.pathname).drop callbackPrefix.length))

def acceptableRequestedRedirect (raw : Text) : Option Text :=
  match parseChatgptRedirect newUrl raw with
  | none => none
  | some parsed =>
    if raw = canonicalForm parsed then some raw
    else if parsed.isStable ∧ raw = canonicalForm parsed ++ ['/'] then some raw
    else none

/-- The registered callbacks on a host. -/
def sameHost (host : Text) (registered : List Text) : List ChatgptRedirect :=
  (registered.filterMap (parseChatgptRedirect newUrl)).filter fun parsed => parsed.host = host

def callbackIds (host : Text) (registered : List Text) : List Text :=
  (sameHost newUrl host registered).filterMap ChatgptRedirect.id?

def redirectToRegister (requestedRaw : Text) (registered : List Text) : Option Text :=
  match acceptableRequestedRedirect newUrl requestedRaw with
  | none => none
  | some requestedRawOk =>
    match parseChatgptRedirect newUrl requestedRawOk with
    | none => none
    | some requested =>
      if requestedRawOk ∈ registered then none
      else if sameHost newUrl requested.host registered = [] then none
      else
        match requested with
        | .stable _ => some requestedRawOk
        | .callback host id =>
          if (callbackIds newUrl host registered).any (· ≠ id) then none
          else if id ∈ callbackIds newUrl host registered ∨
              (sameHost newUrl host registered).any ChatgptRedirect.isStable then some requestedRawOk
          else none

/-- A callback id that is not already on the client's list. -/
def isNewCallbackId (requestedRaw : Text) (registered : List Text) : Bool :=
  match parseChatgptRedirect newUrl requestedRaw with
  | some (.callback host id) =>
    ¬ registered.any fun raw => parseChatgptRedirect newUrl raw = some (.callback host id)
  | _ => false

def nextRedirectUris (requested : Text) (registered : List Text) : Option (List Text) :=
  (redirectToRegister newUrl requested registered).map fun toAdd => registered ++ [toAdd]

end Pure

/-! ### The stored list -/

def asString : Json → Option Text
  | .str value => some value.toList
  | _ => none

/-- The number bounds the layers of JSON text. -/
def coerceWithin : Nat → Option Json → Option (List Text)
  | _, some (.arr items) => items.mapM asString
  | layers + 1, some (.str text) =>
    match JsonText.parse text.toList with
    | none => none
    | some doc => coerceWithin layers (some doc.value)
  | _, none => some []
  | _, some .null => some []
  | _, _ => none

/-- Parsing a string leaves a shorter one. -/
def coerceRedirectUris (value : Option Json) : Option (List Text) :=
  match value with
  | some (.str text) => coerceWithin (text.length + 1) value
  | value => coerceWithin 0 value

/-- Only a string has layers. -/
theorem coerceWithin_flat {value : Option Json} (flat : ∀ text, value ≠ some (.str text)) (layers : Nat) :
    coerceWithin layers value = coerceRedirectUris value := by
  unfold coerceRedirectUris
  cases value with
  | none => cases layers <;> rfl
  | some value =>
    cases value with
    | str text => exact absurd rfl (flat text)
    | null | bool | num | arr | obj => cases layers <;> rfl

theorem coerceWithin_enough {layers more : Nat} {text : String} (enough : text.length < layers)
    (also : text.length < more) : coerceWithin layers (some (.str text)) = coerceWithin more (some (.str text)) := by
  induction layers generalizing more text with
  | zero => omega
  | succ layers ih =>
    cases more with
    | zero => omega
    | succ more =>
      rw [coerceWithin, coerceWithin]
      cases parsed : JsonText.parse text.toList with
      | none => rfl
      | some doc =>
        by_cases flat : ∀ inner, some doc.value ≠ some (.str inner)
        · simp only
          rw [coerceWithin_flat flat, coerceWithin_flat flat]
        · obtain ⟨inner, same⟩ := not_forall_not.mp flat
          have shorter := JsonText.parse_shorter parsed (Option.some.inj same)
          rw [String.length_toList] at shorter
          simp only
          rw [same]
          exact ih (by omega) (by omega)

/-- The layers do not run out. -/
theorem coerceRedirectUris_text (text : String) :
    coerceRedirectUris (some (.str text)) =
      (JsonText.parse text.toList).bind fun doc => coerceRedirectUris (some doc.value) := by
  simp only [coerceRedirectUris, coerceWithin]
  cases parsed : JsonText.parse text.toList with
  | none => rfl
  | some doc =>
    rw [Option.bind_some]
    simp only
    by_cases flat : ∀ inner, some doc.value ≠ some (.str inner)
    · exact coerceWithin_flat flat _
    · obtain ⟨inner, same⟩ := not_forall_not.mp flat
      have shorter := JsonText.parse_shorter parsed (Option.some.inj same)
      rw [String.length_toList] at shorter
      rw [same]
      exact coerceWithin_enough shorter (Nat.lt_succ_self _)

end Dropway.Dashboard
