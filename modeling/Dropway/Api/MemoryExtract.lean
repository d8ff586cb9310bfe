import Dropway.Api.Chats
import Dropway.Lib.Trim

/-! The memory of an organization (internal/ai/memory.go): a pass over a chat log
sends the messages past the watermark to a model, stores what it distills and then
advances the watermark. -/

namespace Dropway.Api
open Lib

structure ExtractedMemory where
  kind : Text
  content : Text
  deriving DecidableEq

/-- What the surroundings of a pass hand to a step: whether it goes well, or what
the answer of the model parses to. -/
inductive Outside where
  | succeeds
  | fails
  | answers (candidates : List ExtractedMemory)
  | nearDuplicate
  | memoryQuota
  deriving DecidableEq

def maxExtractCandidates : Nat := 10
def maxExtractInput : Nat := 24000

/-- The chat logs and how far each has been read, by its organization and its id. -/
structure MemoryDb where
  chats : ChatDb
  throughSeq : Text × Text → Int

namespace MemoryDb

variable (db : MemoryDb)

def memoryIngestSeq (t : Tenant) (chatLogId : Text) : Int := db.throughSeq (t.orgId, chatLogId)

def advanceMemoryIngest (t : Tenant) (chatLogId : Text) (throughSeq : Int) : MemoryDb :=
  { db with
    throughSeq := Function.update db.throughSeq (t.orgId, chatLogId)
      (max (db.throughSeq (t.orgId, chatLogId)) throughSeq) }

end MemoryDb

/-! ### The transcript -/

def extractable (m : ChatMessageRow) : Bool := m.kind = "chat".toList ∧ Text.trimSpace m.content ≠ []

def extractLine (m : ChatMessageRow) : Text := m.role ++ ": ".toList ++ m.content ++ ['\n']

def extractText (msgs : List ChatMessageRow) : Text := (msgs.filter extractable).flatMap extractLine

def extractThrough (since : Int) (msgs : List ChatMessageRow) : Int :=
  msgs.foldl (fun most m => if most < m.seq then m.seq else most) since

/-- Of a text that is too long, its end is sent. -/
def extractInput (text : Text) : Bytes :=
  let transcript := Utf8.encode (Text.trimSpace text)
  if maxExtractInput < transcript.length then transcript.drop (transcript.length - maxExtractInput) else transcript

/-! ### A pass -/

/-- What a pass has read. The log as it was then is kept for the record: no step
looks at it. -/
structure ExtractSlice where
  log : List ChatMessageRow
  transcript : Bytes
  throughSeq : Int
  deriving DecidableEq

inductive ExtractStage where
  | starting
  | enabled
  | reading (since : Int)
  | sending (slice : ExtractSlice)
  | embedding (slice : ExtractSlice) (candidates : List ExtractedMemory)
  | storing (slice : ExtractSlice) (candidates : List ExtractedMemory)
  | advancing (slice : ExtractSlice)
  /-- The watermark has been advanced. -/
  | completed (slice : ExtractSlice)
  | stopped (log : List ChatMessageRow)
  deriving DecidableEq

/-- The pass lists the log, up to 500 messages. -/
def readSlice (t : Tenant) (chatLogId : Text) (since : Int) (db : MemoryDb) : ExtractStage :=
  let log := db.chats.messagesOf chatLogId t.orgId
  match db.chats.getChatLogTx t chatLogId with
  | .error _ => .stopped log
  | .ok _ =>
    let msgs := db.chats.listChatMessages chatLogId t.orgId (int32 since) 500
    let slice : ExtractSlice := ⟨log, extractInput (extractText msgs), extractThrough since msgs⟩
    if msgs = [] then .stopped log
    else if slice.transcript = [] then .advancing slice
    else .sending slice

/-- A step that fails ends the pass and leaves the watermark, but for a full memory. -/
def extractNext (t : Tenant) (chatLogId : Text) :
    Outside → ExtractStage → MemoryDb → Option (ExtractStage × MemoryDb)
  | .fails, .starting, db => some (.stopped [], db)
  | .fails, .enabled, db => some (.stopped [], db)
  | .fails, .reading _, db => some (.stopped (db.chats.messagesOf chatLogId t.orgId), db)
  | .fails, .sending slice, db => some (.stopped slice.log, db)
  | .fails, .embedding slice _, db => some (.stopped slice.log, db)
  | .fails, .storing slice (_ :: _), db => some (.stopped slice.log, db)
  | .fails, .advancing slice, db => some (.stopped slice.log, db)
  | _, .starting, db => some (.enabled, db)
  | _, .enabled, db => some (.reading (db.memoryIngestSeq t chatLogId), db)
  | _, .reading since, db => some (readSlice t chatLogId since db, db)
  | .answers candidates, .sending slice, db =>
    match candidates.take maxExtractCandidates with
    | [] => some (.advancing slice, db)
    | candidate :: rest => some (.embedding slice (candidate :: rest), db)
  | _, .embedding slice candidates, db => some (.storing slice candidates, db)
  | _, .storing slice (_ :: rest), db => some (.storing slice rest, db)
  | _, .storing slice [], db => some (.advancing slice, db)
  | _, .advancing slice, db =>
    some (.completed slice, db.advanceMemoryIngest t chatLogId slice.throughSeq)
  | _, _, _ => none

end Dropway.Api
