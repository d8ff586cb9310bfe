import Dropway.Lib.Uri

/-! The dashboard's part of the viewer exchange (lib/authz-host.ts): where a viewer goes
after it, and the callback on the content host. -/

namespace Dropway.Dashboard
open Lib Lib.Uri

def hasControlChar (text : Text) : Bool := text.any fun c => c.toNat ≤ 0x20 || c.toNat = 0x7F

/-- A path on the same site, and `/` for anything else. -/
def safeNextPath (raw : Option Text) : Text :=
  match raw.filter (· ≠ []) with
  | none => "/".toList
  | some raw =>
    let next := Text.trim raw
    if next.head? ≠ some '/' then "/".toList
    else if Text.startsWith next "//".toList || Text.startsWith next "/\\".toList then "/".toList
    else if hasControlChar next then "/".toList
    else next

/-- CONTENT_SCHEME and CONTENT_PORT, empty where they are not set. -/
structure ContentConfig where
  scheme : Text := []
  port : Text := []

def callbackUrl (config : ContentConfig) (host token next : Text) : Url :=
  let url : Url :=
    { protocol := (if config.scheme = [] then "https".toList else config.scheme) ++ ":".toList
      host := host ++ (if config.port = [] then [] else ':' :: config.port)
      path := ⟨["__authz".toList, "callback".toList], by decide, by decide⟩
      query := none }
  (url.withParam "token".toList token).withParam "next".toList next

end Dropway.Dashboard
