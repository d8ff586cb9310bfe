import Dropway.Api.Chats
import Dropway.Lib.Republish
import Dropway.Lib.Strconv

/-! The served transcript of a chat log (handlers/chats.go). A request on the log
commits its change, then compiles the transcript, then puts it in the object store
or deletes it from there (syncChatSurface). -/

namespace Dropway.Api
open Lib Republish

/-- A request that changes the log. No request changes its title. -/
inductive ChatChange where
  | append (batch : ChatBatch)
  | deleteMessage (seq : Int)
  | setSite (siteId : Option Text)
  | setPanel (enabled : Bool)
  | deleteLog
  deriving DecidableEq

structure ChatRequest where
  userId : Text
  change : ChatChange
  deriving DecidableEq

def ChatRequest.transact (orgId logId : Text) (now : Instant) (request : ChatRequest) (db : ChatDb) :
    Except ChatError ChatDb :=
  let t : Tenant := ⟨orgId, request.userId⟩
  match request.change with
  | .append batch => (db.appendChatMessages t logId batch now).map (·.2)
  | .deleteMessage seq => db.deleteChatMessage t logId seq
  | .setSite siteId => db.setChatLogSite t logId siteId
  | .setPanel enabled => db.setChatLogPanel t logId enabled
  | .deleteLog => db.deleteChatLog t logId

/-- The object that a request leaves. Compiling fails for a log that is gone, and
then the object is deleted; it does not depend on the user. -/
def chatSurface (orgId logId : Text) (db : ChatDb) : Option ChatDb.ChatTranscript :=
  (db.compileChatTranscript ⟨orgId, []⟩ logId).toOption

def chatRequests (orgId logId : Text) :
    Calls.Program Instant (Stage ChatRequest (Option ChatDb.ChatTranscript)) (Store ChatDb (Option ChatDb.ChatTranscript)) :=
  program (fun now request db => (request.transact orgId logId now db).toOption) (chatSurface orgId logId)

end Dropway.Api

/-! The messages of a chat log by their numbers: pages of them and the deletion of
one (handlers/chats.go, internal/store/chats.go, cli/internal/cmd/chat.go). -/

namespace Dropway.Api
open Lib Lib.Outcome
open Strconv (atoi itoa)

/-- The organization's switch, and the answer of requireChatLogEditor for the caller. -/
structure ChatAccess where
  enabled : Bool
  mayEdit : ChatLogRow → Bool

inductive ChatRefusal where
  | forbidden
  | badRequest
  | store (error : ChatError)
  deriving DecidableEq

/-- ListChatMessages of the store. -/
def ChatDb.listAfter (db : ChatDb) (t : Tenant) (logId : Text) (afterSeq limit : Int) :
    Except ChatError (List ChatMessageRow) := do
  let limit := if limit ≤ 0 ∨ 1000 < limit then 500 else limit
  let _ ← db.getChatLogTx t logId
  return db.listChatMessages logId t.orgId afterSeq limit

namespace ChatAccess

variable (access : ChatAccess) (db : ChatDb) (t : Tenant) (logId : Text)

/-- The handler takes whatever Atoi answers for the two parameters. -/
def listChatMessages (afterSeq limit : Text) : Except ChatRefusal (List ChatMessageRow) := do
  require (access.enabled = true) .forbidden
  (db.listAfter t logId (int32 (atoi afterSeq).1) (int32 (atoi limit).1)).mapError .store

def deleteChatMessage (seq : Text) : Except ChatRefusal ChatDb := do
  require (access.enabled = true) .forbidden
  require ((atoi seq).2 = none) .badRequest
  let log ← (db.getChatLogTx t logId).mapError .store
  require (access.mayEdit log = true) .forbidden
  (db.deleteChatMessage t logId (int32 (atoi seq).1)).mapError .store

/-- `dropway chat delete-message` sends the number that it has read, as an int32. -/
def cliDeleteMessage (seq : Text) : Except ChatRefusal ChatDb := do
  require ((atoi seq).2 = none) .badRequest
  access.deleteChatMessage db t logId (itoa (int32 (atoi seq).1))

/-- Read pages until one is empty, each after the last number of the one before. -/
def visit (limit : Text) : Nat → Text → Option (List ChatMessageRow)
  | 0, _ => none
  | steps + 1, afterSeq =>
    match access.listChatMessages db t logId afterSeq limit with
    | .error _ => none
    | .ok page =>
      match page.getLast? with
      | none => some []
      | some last => (visit limit steps (itoa last.seq)).map fun later => page ++ later

end ChatAccess

/-- What a request leaves; one that fails leaves the tables as they were. -/
def ChatDb.left (db : ChatDb) (result : Except ChatRefusal ChatDb) : ChatDb :=
  match result with
  | .ok after => after
  | .error _ => db

end Dropway.Api
