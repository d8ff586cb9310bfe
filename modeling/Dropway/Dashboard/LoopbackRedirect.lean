import Dropway.Lib.JsonRead
import Dropway.Lib.Url

/-! Which loopback redirects may be appended to a client's redirects
(lib/oauth-loopback-redirect.ts). -/

namespace Dropway.Dashboard
open Lib

/-- The IPv6 host name stands in brackets. -/
def unbracket (host : Text) : Text :=
  let front := if host.head? = some '[' then host.tail else host
  if front.getLast? = some ']' then front.dropLast else front

def isOctet (part : Text) : Bool :=
  (part = ['0'] || (part.head?.any (fun c => '1' ≤ c && c ≤ '9') && part.all Char.isDigit && part.length ≤ 3)) &&
    JsonText.natValue part ≤ 255

def isLoopbackHostname (hostname : Text) : Bool :=
  let host := unbracket (Text.lower hostname)
  let parts := host.splitOn '.'
  host = "localhost".toList || host = "::1".toList ||
    (parts.length = 4 && parts.head? = some "127".toList && parts.all isOctet)

/-- One trailing slash does not make a new path. -/
def normalizedPath (pathname : Text) : Option Text :=
  if ¬ Text.startsWith pathname ['/'] then none
  else if '\\' ∈ pathname ∨ "..".toList ∈ pathname.splitOn '/' then none
  else if 1 < pathname.length ∧ pathname.getLast? = some '/' then some pathname.dropLast
  else some pathname

structure LoopbackRedirect where
  href : Text
  path : Text
  deriving DecidableEq

variable (newUrl : UrlParser)

def parseLoopbackRedirect (raw : Text) : Option LoopbackRedirect :=
  match newUrl raw with
  | none => none
  | some url =>
    if url.protocol ≠ "http:".toList then none
    else if url.username ≠ [] ∨ url.password ≠ [] then none
    else if url.search ≠ [] ∨ url.hash ≠ [] then none
    else if ¬ isLoopbackHostname url.hostname then none
    else
      match normalizedPath url.pathname with
      | none => none
      | some [] => none
      | some path => if url.href ≠ raw then none else some ⟨raw, path⟩

def loopbackRedirectToRegister (requestedRaw : Text) (registered : List Text) : Option Text :=
  match parseLoopbackRedirect newUrl requestedRaw with
  | none => none
  | some requested =>
    if requestedRaw ∈ registered then none
    else if registered.any fun raw =>
        (parseLoopbackRedirect newUrl raw).any fun existing => existing.path = requested.path then some requestedRaw
    else none

def nextLoopbackRedirectUris (requested : Text) (registered : List Text) : Option (List Text) :=
  (loopbackRedirectToRegister newUrl requested registered).map fun toAdd => registered ++ [toAdd]

end Dropway.Dashboard
