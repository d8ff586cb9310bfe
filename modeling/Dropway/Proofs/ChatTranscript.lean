import Dropway.Api.ChatPages

/-! The served transcript against the log. A request commits, compiles and puts in
three steps, so an older transcript can be put over a newer one. -/

namespace Dropway.Api
open Lib Lib.Outcome Calls Republish
open ChatDb

variable {κ : Type} [DecidableEq κ] {orgId logId : Text} {db : ChatDb}

abbrev ChatState (κ : Type) :=
  State κ (Stage ChatRequest (Option ChatTranscript)) (Store ChatDb (Option ChatTranscript))

/-- A message that is served is one that the log still has. -/
def Serves (db : ChatDb) (orgId logId : Text) (message : ChatTranscriptMessage) : Prop :=
  ∃ row ∈ db.messagesOf logId orgId, row.seq = message.seq ∧ row.content = message.content

/-- The object follows the log in a state: where every request has finished, it is
what the tables compile to. -/
structure TranscriptFollows (orgId logId : Text) (state : ChatState κ) : Prop where
  compiled : state.store.object = chatSurface orgId logId state.store.data
  gone : state.store.data.getChatLog logId orgId = none → state.store.object = none
  stored : ∀ transcript, state.store.object = some transcript →
    ∀ message ∈ transcript.messages, Serves state.store.data orgId logId message

/-! ### What is compiled -/

theorem chatSurface_gone (none : db.getChatLog logId orgId = none) : chatSurface orgId logId db = .none := by
  unfold chatSurface compileChatTranscript getChatLogTx
  rw [none]
  rfl

theorem mem_listChatMessages {afterSeq limit : Int} {row : ChatMessageRow}
    (listed : row ∈ db.listChatMessages logId orgId afterSeq limit) : row ∈ db.messagesOf logId orgId := by
  have sorted := List.mem_mergeSort.mp (List.mem_of_mem_take listed)
  exact (List.mem_filter.mp sorted).1

theorem chatSurface_serves {transcript : ChatTranscript} (compiled : chatSurface orgId logId db = some transcript)
    {message : ChatTranscriptMessage} (mem : message ∈ transcript.messages) : Serves db orgId logId message := by
  unfold chatSurface at compiled
  cases outcome : db.compileChatTranscript ⟨orgId, []⟩ logId with
  | error error =>
    rw [outcome] at compiled
    cases compiled
  | ok result =>
    rw [outcome] at compiled
    cases compiled
    unfold compileChatTranscript at outcome
    obtain ⟨log, -, outcome⟩ := bind_ok.mp outcome
    cases outcome
    obtain ⟨row, listed, rfl⟩ := List.mem_map.mp mem
    exact ⟨row, mem_listChatMessages listed, rfl, rfl⟩

omit [DecidableEq κ] in
theorem follows_of_compiled {state : ChatState κ}
    (compiled : state.store.object = chatSurface orgId logId state.store.data) :
    TranscriptFollows orgId logId state := by
  refine ⟨compiled, ?_, ?_⟩
  · intro none
    rw [compiled]
    exact chatSurface_gone none
  · intro transcript object message mem
    rw [compiled] at object
    exact chatSurface_serves object mem

/-! ### Runs -/

/-- Once all requests have finished the object follows the log, if it did so at the
start or if a change has been committed. -/
def TranscriptSettles (orgId logId : Text) (requests : κ → ChatRequest) (db : ChatDb)
    (object : Option ChatTranscript) (schedule : List (Act κ Instant)) : Prop :=
  Finished (performAll (chatRequests orgId logId) schedule (begin requests db object)) →
    (object = chatSurface orgId logId db ∨
      0 < (performAll (chatRequests orgId logId) schedule (begin requests db object)).store.revision) →
    TranscriptFollows orgId logId (performAll (chatRequests orgId logId) schedule (begin requests db object))

section Stale

private def org : Text := "org".toList
private def log : Text := "log".toList

private def chatLog : ChatLogRow where
  id := log
  orgId := org
  siteId := none
  title := "Plan".toList
  sourceTool := "other".toList
  panelEnabled := true
  nextSeq := 1
  createdBy := "ada".toList

private def oneLog : ChatDb where
  planTiers := fun _ => none
  sites := Table.empty
  logs := Table.singleton chatLog
  messages := Table.empty

private def pasted : ChatMessage where
  kind := "chat".toList
  role := "user".toList
  content := "secret".toList
  actionMeta := none

private def paste : ChatRequest := ⟨"ada".toList, .append ⟨[pasted], by decide⟩⟩
private def remove : ChatRequest := ⟨"ada".toList, .deleteMessage 1⟩

end Stale

end Dropway.Api
