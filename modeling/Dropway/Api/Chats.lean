import Dropway.Api.Store
import Dropway.Cloud.Quota

/-! Chat logs (internal/store/chats.go): appends, deletions and the transcript that
is compiled for serving. Each transaction takes the tables and gives those it
commits; an error rolls it back. -/

namespace Dropway.Api
open Lib Lib.Outcome
open Cloud (ExceededError)

structure ActionMeta where
  action : Text
  tool : Text
  paths : List Text
  deriving DecidableEq

structure ChatMessage where
  kind : Text
  role : Text
  content : Text
  actionMeta : Option ActionMeta
  deriving DecidableEq

/-- The messages of one request. Its body is no longer than 8 MiB. -/
structure ChatBatch where
  messages : List ChatMessage
  fits : messages.length < 2 ^ 31
  deriving DecidableEq

structure ChatLogRow where
  id : Text
  orgId : Text
  siteId : Option Text
  title : Text
  sourceTool : Text
  panelEnabled : Bool
  nextSeq : Int
  createdBy : Text
  deriving DecidableEq

structure ChatMessageRow where
  orgId : Text
  chatLogId : Text
  seq : Int
  versionId : Option Text
  createdBy : Text
  role : Text
  kind : Text
  content : Text
  actionMeta : Option ActionMeta
  createdAt : Instant
  deriving DecidableEq

/-- No log has two messages of one number. -/
def ChatMessageRow.place (row : ChatMessageRow) : Text × Int := (row.chatLogId, row.seq)

structure ChatSite where
  id : Text
  orgId : Text
  currentVersionId : Option Text
  deriving DecidableEq

structure ChatDb where
  planTiers : Text → Option Text
  sites : Table ChatSite.id
  logs : Table ChatLogRow.id
  messages : Table ChatMessageRow.place

inductive ChatError where
  | notFound
  | noMessages
  | siteHasChatLog
  | exceeded (error : ExceededError)
  | noRows
  | checkViolation
  | uniqueViolation
  | outOfRange
  deriving DecidableEq

/-- The conversion of Go, which wraps around. -/
def int32 (n : Int) : Int := n.bmod (2 ^ 32)

namespace ChatDb

/-! ### Queries -/

variable (db : ChatDb)

def getPlanTier (orgId : Text) : Text := (db.planTiers orgId).getD Cloud.tierFree

def getChatLog (id orgId : Text) : Option ChatLogRow :=
  (db.logs.get? id).filter fun log => log.orgId = orgId

def getSite (id orgId : Text) : Option ChatSite := (db.sites.get? id).filter fun site => site.orgId = orgId

/-- The messages of a log, in the order they were inserted. -/
def messagesOf (chatLogId orgId : Text) : List ChatMessageRow :=
  db.messages.filter fun row => row.chatLogId = chatLogId ∧ row.orgId = orgId

def countChatMessages (chatLogId orgId : Text) : Int := (db.messagesOf chatLogId orgId).length

def advance (count : Int) (log : ChatLogRow) : ChatLogRow := { log with nextSeq := log.nextSeq + count }

theorem advance_id (count : Int) (log : ChatLogRow) : (advance count log).id = log.id := rfl

/-- Reserve numbers and give the first of them. The column is an int4. -/
def allocateChatSeq (id orgId : Text) (count : Int) : Except ChatError (Int × ChatDb) := do
  let log ← orFail (db.getChatLog id orgId) .noRows
  require (-(2 ^ 31) ≤ log.nextSeq + count ∧ log.nextSeq + count < 2 ^ 31) .outOfRange
  return (log.nextSeq + count - count,
    { db with logs := db.logs.update (fun row => row.id = id ∧ row.orgId = orgId) (advance count) (advance_id count) })

def insertChatMessage (row : ChatMessageRow) : Except ChatError ChatDb := do
  require (["user".toList, "assistant".toList].contains row.role) .checkViolation
  require (["chat".toList, "action".toList].contains row.kind) .checkViolation
  match free : db.messages.get? row.place with
  | some _ => .error .uniqueViolation
  | none => .ok { db with messages := db.messages.insert row free }

/-- The newest numbers of a log. -/
def newestSeqs (chatLogId orgId : Text) (limit : Int) : List Int :=
  (((db.messagesOf chatLogId orgId).map ChatMessageRow.seq).mergeSort fun one two => two ≤ one).take limit.toNat

def pruneChatMessages (chatLogId orgId : Text) (limit : Int) : ChatDb :=
  { db with
    messages := db.messages.delete fun row =>
      row.chatLogId = chatLogId ∧ row.orgId = orgId ∧ ¬ (db.newestSeqs chatLogId orgId limit).contains row.seq }

/-- The messages of a log after a number, up to a limit. -/
def listChatMessages (chatLogId orgId : Text) (afterSeq limit : Int) : List ChatMessageRow :=
  (((db.messagesOf chatLogId orgId).filter fun row => afterSeq < row.seq).mergeSort
    fun one two => one.seq ≤ two.seq).take limit.toNat

/-! ### Transactions -/

/-- The row of a log in the tenant's own organization. -/
def getChatLogTx (t : Tenant) (id : Text) : Except ChatError ChatLogRow := do
  let log ← orFail (db.getChatLog id t.orgId) .notFound
  require (log.orgId = t.orgId) .notFound
  return log

def assertSiteInOrgTx (t : Tenant) : Option Text → Except ChatError Unit
  | none => return ()
  | some siteId => do
    let _ ← orFail (db.getSite siteId t.orgId) .notFound
    return ()

/-- A site has one log at most. -/
def siteTaken (siteId : Option Text) (id : Text) : Bool :=
  siteId.isSome && db.logs.rows.any fun log => log.siteId = siteId ∧ log.id ≠ id

def createChatLog (t : Tenant) (id title sourceTool : Text) (siteId : Option Text) : Except ChatError ChatDb := do
  db.assertSiteInOrgTx t siteId
  require (¬ db.siteTaken siteId id) .siteHasChatLog
  match free : db.logs.get? id with
  | some _ => .error .uniqueViolation
  | none =>
    return { db with
      logs := db.logs.insert
        { id, orgId := t.orgId, siteId, title, sourceTool := if sourceTool = [] then "other".toList else sourceTool
          panelEnabled := true, nextSeq := 1, createdBy := t.userId } free }

structure AppendChatResult where
  messages : List ChatMessageRow
  pruned : Nat
  window : Option Int

/-- The rows of a batch, numbered from `base`. -/
def batchRows (t : Tenant) (logId : Text) (versionId : Option Text) (now : Instant) (base : Int)
    (messages : List ChatMessage) : List ChatMessageRow :=
  messages.mapIdx fun i m =>
    { orgId := t.orgId, chatLogId := logId, seq := int32 (base + int32 i), versionId, createdBy := t.userId
      role := m.role, kind := m.kind, content := m.content, actionMeta := m.actionMeta, createdAt := now }

/-- On a tier with a window nothing is refused. -/
def requireRoom (orgId logId : Text) (n : Int) : Except ChatError Unit :=
  match Cloud.retentionWindow (db.getPlanTier orgId) with
  | some _ => .ok ()
  | none => (Cloud.allowN (db.getPlanTier orgId) (db.countChatMessages logId orgId) n).mapError .exceeded

/-- The version of the site that the log is attached to, if it has one. -/
def versionStamp (orgId : Text) (log : ChatLogRow) : Option Text :=
  (log.siteId.bind fun siteId => db.getSite siteId orgId).bind ChatSite.currentVersionId

structure Retained where
  pruned : Nat
  window : Option Int
  left : ChatDb

/-- Prune the log to the window of its tier. -/
def retain (orgId logId : Text) : Retained :=
  match Cloud.retentionWindow (db.getPlanTier orgId) with
  | none => ⟨0, none, db⟩
  | some limit =>
    let left := db.pruneChatMessages logId orgId (int32 limit)
    ⟨db.messages.rows.length - left.messages.rows.length, some limit, left⟩

def appendChatMessages (t : Tenant) (logId : Text) (batch : ChatBatch) (now : Instant) :
    Except ChatError (AppendChatResult × ChatDb) := do
  require (batch.messages ≠ []) .noMessages
  let log ← db.getChatLogTx t logId
  db.requireRoom t.orgId logId batch.messages.length
  let reserved ← db.allocateChatSeq logId t.orgId (int32 batch.messages.length)
  let rows := batchRows t logId (db.versionStamp t.orgId log) now reserved.1 batch.messages
  let inserted ← rows.foldlM insertChatMessage reserved.2
  let kept := inserted.retain t.orgId logId
  return (⟨rows, kept.pruned, kept.window⟩, kept.left)

def deleteChatMessage (t : Tenant) (logId : Text) (seq : Int) : Except ChatError ChatDb := do
  let _ ← db.getChatLogTx t logId
  let selected := fun row : ChatMessageRow => row.chatLogId = logId ∧ row.seq = seq ∧ row.orgId = t.orgId
  require (db.messages.rows.any fun row => selected row) .notFound
  return { db with messages := db.messages.delete fun row => selected row }

/-- The messages of a log go with it. -/
def deleteChatLog (t : Tenant) (id : Text) : Except ChatError ChatDb := do
  let _ ← db.getChatLogTx t id
  return { db with
    logs := db.logs.delete fun row => row.id = id ∧ row.orgId = t.orgId
    messages := db.messages.delete fun row => row.chatLogId = id }

def attach (siteId : Option Text) (log : ChatLogRow) : ChatLogRow := { log with siteId }

theorem attach_id (siteId : Option Text) (log : ChatLogRow) : (attach siteId log).id = log.id := rfl

def setChatLogSite (t : Tenant) (id : Text) (siteId : Option Text) : Except ChatError ChatDb := do
  let _ ← db.getChatLogTx t id
  db.assertSiteInOrgTx t siteId
  require (¬ db.siteTaken siteId id) .siteHasChatLog
  return { db with
    logs := db.logs.update (fun row => row.id = id ∧ row.orgId = t.orgId) (attach siteId) (attach_id siteId) }

def showPanel (enabled : Bool) (log : ChatLogRow) : ChatLogRow := { log with panelEnabled := enabled }

theorem showPanel_id (enabled : Bool) (log : ChatLogRow) : (showPanel enabled log).id = log.id := rfl

def setChatLogPanel (t : Tenant) (id : Text) (enabled : Bool) : Except ChatError ChatDb := do
  let _ ← db.getChatLogTx t id
  return { db with
    logs := db.logs.update (fun row => row.id = id ∧ row.orgId = t.orgId) (showPanel enabled) (showPanel_id enabled) }

/-! ### The transcript -/

structure ChatTranscriptMessage where
  seq : Int
  role : Text
  kind : Text
  content : Text
  actionMeta : Option ActionMeta
  versionId : Option Text
  createdAt : Instant
  deriving DecidableEq

structure ChatTranscript where
  chatId : Text
  title : Text
  sourceTool : Text
  messages : List ChatTranscriptMessage
  totalAppended : Int
  deriving DecidableEq

def maxImportMessages : Int := 1000

def compileChatTranscript (t : Tenant) (logId : Text) : Except ChatError ChatTranscript := do
  let log ← db.getChatLogTx t logId
  return {
    chatId := log.id, title := log.title, sourceTool := log.sourceTool
    totalAppended := int32 (log.nextSeq - 1)
    messages := (db.listChatMessages logId t.orgId 0 maxImportMessages).map fun row =>
      { seq := row.seq, role := row.role, kind := row.kind, content := row.content
        actionMeta := row.actionMeta, versionId := row.versionId, createdAt := row.createdAt } }

end ChatDb
end Dropway.Api
