import Dropway.Lib.Calls
import Dropway.Lib.JsonRead
import Dropway.Lib.Utf8
import Dropway.Projection.Contract
import Mathlib.Order.WithBot

/-! The writers of the hard-revocation denylist (internal/edgerevoke/edgerevoke.go,
Revoke of internal/projection/cloudflare.go and of internal/projection/local.go). -/

namespace Dropway.Projection
open Lib

/-- What a call of `Revoke` is given. The kind may be any string. -/
structure Revocation where
  kind : Text
  id : Text
  minIAT : Int
  deriving DecidableEq

inductive RevokeError where
  | invalidKind (kind : Text)
  | emptyId
  | minIatNotPositive (minIAT : Int)
  | unreachable
  deriving DecidableEq

def kindUser : Text := "user".toList
def kindSite : Text := "site".toList
def kindOrg : Text := "org".toList

def Revocation.key (call : Revocation) : Text :=
  "revoked:".toList ++ call.kind ++ ":".toList ++ call.id

def Revocation.validate (call : Revocation) : Except RevokeError Unit :=
  if ¬ [kindUser, kindSite, kindOrg].contains call.kind then .error (.invalidKind call.kind)
  else if call.id = [] then .error .emptyId
  else if call.minIAT ≤ 0 then .error (.minIatNotPositive call.minIAT)
  else .ok ()

/-- The entries, by key. -/
abbrev Denylist := Text → Option Int

/-- No entry constrains nothing. -/
def Denylist.minIat (denylist : Denylist) (key : Text) : WithBot Int :=
  match denylist key with
  | none => ⊥
  | some minIAT => minIAT

def Denylist.set (denylist : Denylist) (call : Revocation) : Denylist :=
  Function.update denylist call.key (some call.minIAT)

/-- An entry at least as late is kept. -/
def Denylist.covers (denylist : Denylist) (call : Revocation) : Bool :=
  (denylist call.key).any fun minIAT => decide (call.minIAT ≤ minIAT)

/-! ### In memory -/

/-- The lock is held from the comparison to the write. -/
def Local.revoke (call : Revocation) (denylist : Denylist) : Except RevokeError Denylist := do
  call.validate
  return if denylist.covers call then denylist else denylist.set call

/-! ### In the KV namespace -/

/-- What becomes of a request to the KV API: it is served, it is refused, or it
is served and its answer is lost. -/
inductive Answer where
  | served
  | refused
  | lost
  deriving DecidableEq

inductive Stage where
  | called
  | writing
  | returned (error : Option RevokeError)
  deriving DecidableEq

structure RevokeCall where
  call : Revocation
  stage : Stage
  deriving DecidableEq

def CloudflareKV.revoke : Calls.Program Answer RevokeCall Denylist
  | answer, ⟨call, .called⟩, denylist =>
    match call.validate with
    | .error error => some (⟨call, .returned (some error)⟩, denylist)
    | .ok () =>
      -- A read that fails is taken for a key without an entry.
      if answer = .served ∧ denylist.covers call then some (⟨call, .returned none⟩, denylist)
      else some (⟨call, .writing⟩, denylist)
  | .served, ⟨call, .writing⟩, denylist => some (⟨call, .returned none⟩, denylist.set call)
  | .lost, ⟨call, .writing⟩, denylist => some (⟨call, .returned (some .unreachable)⟩, denylist.set call)
  | .refused, ⟨call, .writing⟩, denylist => some (⟨call, .returned (some .unreachable)⟩, denylist)
  | _, ⟨_, .returned _⟩, _ => none

end Dropway.Projection

/-! The denylist's entries as they stand in the KV namespace, and the Go read of
them (internal/projection/cloudflare.go). -/

namespace Dropway.Projection
open Lib

/-- `json.Marshal` of an entry. -/
def entryText (minIAT : Int) : Text := JsonText.write (.obj [member "min_iat" (.num (intLiteral minIAT))])

def int64Over (value : Int) : Doc → Option Int
  | .null => some value
  | .num literal => parseInt64 literal
  | _ => none

/-- Decoding into an entry; `null` leaves it zero. -/
def decodeEntry (body : Bytes) : Option Int :=
  match goDecode body with
  | some (.obj members, _) => decodeOver "min_iat" int64Over 0 members
  | some (.null, _) => some 0
  | _ => none

/-- What a GET of a KV value comes to. -/
inductive KVResponse where
  | unreachable
  | answered (status : Nat) (body : Bytes)

inductive LookupError where
  | invalidKind (kind : Text)
  | emptyId
  | unreachable
  | status (status : Nat)
  | malformed

def getRevoked : KVResponse → Except LookupError (Option Int)
  | .unreachable => .error .unreachable
  | .answered status body =>
    if status = 404 then .ok none
    else if status < 200 ∨ 300 ≤ status then .error (.status status)
    else
      match decodeEntry body with
      | some minIAT => .ok (some minIAT)
      | none => .error .malformed

/-- The entry of a subject, if it has one. -/
def lookupRevoked (get : Text → KVResponse) (kind id : Text) : Except LookupError (Option Int) :=
  if ¬ [kindUser, kindSite, kindOrg].contains kind then .error (.invalidKind kind)
  else if id = [] then .error .emptyId
  else getRevoked (get ("revoked:".toList ++ kind ++ ":".toList ++ id))

end Dropway.Projection
