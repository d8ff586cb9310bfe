import Dropway.Edge.Content

/-! The denylist behind hard revocation (edge/serving-worker/src/revoke.ts). -/

namespace Dropway.Edge
open Lib

/-- A string read of a KV namespace, which may fail. -/
abbrev KVRead := Text → Except Thrown (Option Text)

def revokedUserPrefix : Text := "revoked:user:".toList
def revokedSitePrefix : Text := "revoked:site:".toList
def revokedOrgPrefix : Text := "revoked:org:".toList

structure RevocationSubject where
  sub : Text
  siteId : Text
  orgId : Text
  iat : Rat

/-- Unix seconds; anything that is no such entry reads as no constraint. -/
def parseRevokedEntry (rt : Runtime) : Option Text → Option Rat
  | none => none
  | some raw =>
    let trimmed := Text.trim raw
    let minIat :=
      if trimmed = [] then none
      else if Text.startsWith trimmed "\x7b".toList then
        match rt.jsonParse trimmed with
        | some (.obj members) =>
          match Json.member members "min_iat" with
          | some (.num minIat) => some minIat
          | _ => none
        | _ => none
      else (Text.parseInt trimmed).map fun minIat => (minIat : Rat)
    minIat.filter fun minIat => decide (0 ≤ minIat)

def denylistKeys (subject : RevocationSubject) : List Text :=
  [revokedUserPrefix ++ subject.sub, revokedSitePrefix ++ subject.siteId,
    revokedOrgPrefix ++ subject.orgId]

/-- A read that fails counts as revoked. -/
def isRevoked (rt : Runtime) (kv : KVRead) (subject : RevocationSubject) : Bool :=
  match (denylistKeys subject).mapM kv with
  | .error _ => true
  | .ok entries => entries.any fun raw =>
      (parseRevokedEntry rt raw).any fun minIat => decide (subject.iat < minIat)

end Dropway.Edge
