import Dropway.Chatspec.Normalize
import Dropway.Projection.Denylist

/-! A streamed chat completion (internal/openrouter): the lines of the response, the
assembly of its chunks, the goroutine that reads them and the caller that ranges over
its events. -/

namespace Dropway.Openrouter
open Lib
open Projection (int64Over)
open Chatspec (floatOver)

structure FunctionCall where
  name : Text
  arguments : Text
  deriving DecidableEq

structure ToolCall where
  id : Text
  type : Text
  function : FunctionCall
  deriving DecidableEq

structure Message where
  role : Text
  content : Text
  toolCalls : List ToolCall
  deriving DecidableEq

structure Usage where
  generationId : Text
  model : Text
  promptTokens : Int
  completionTokens : Int
  cost : Rat
  deriving DecidableEq

/-! ### Chunks -/

/-- A slice of Go: past its length are elements that it had before. -/
structure Slice (α : Type) where
  items : List α
  spare : List α

/-- Elements are decoded over those that the slice has room for, then over `zero`. -/
def fill {α : Type} (zero : α) (read : α → Doc → Option α) : List α → List Doc → Option (Slice α)
  | room, [] => some ⟨[], room⟩
  | room, item :: rest => do
    let first ← read (room.head?.getD zero) item
    let ⟨items, spare⟩ ← fill zero read room.tail rest
    return ⟨first :: items, spare⟩

def sliceOver {α : Type} (zero : α) (read : α → Doc → Option α) (slice : Slice α) : Doc → Option (Slice α)
  | .null => some ⟨[], []⟩
  | .arr [] => some ⟨[], []⟩
  | .arr items => fill zero read (slice.items ++ slice.spare) items
  | _ => none

def pointerOver {α : Type} (zero : α) (read : α → Doc → Option α) (pointer : Option α) : Doc → Option (Option α)
  | .null => some none
  | doc => (read (pointer.getD zero) doc).map some

def functionOver (function : FunctionCall) : Doc → Option FunctionCall
  | .null => some function
  | .obj members => do
    let name ← decodeOver "name" textOver function.name members
    let arguments ← decodeOver "arguments" textOver function.arguments members
    return { name, arguments }
  | _ => none

/-- A fragment of a tool call. -/
structure ToolCallDelta where
  index : Int
  id : Text
  type : Text
  function : FunctionCall

def toolCallDeltaOver (d : ToolCallDelta) : Doc → Option ToolCallDelta
  | .null => some d
  | .obj members => do
    let index ← decodeOver "index" int64Over d.index members
    let id ← decodeOver "id" textOver d.id members
    let type ← decodeOver "type" textOver d.type members
    let function ← decodeOver "function" functionOver d.function members
    return { index, id, type, function }
  | _ => none

structure StreamDelta where
  content : Text
  toolCalls : Slice ToolCallDelta

def streamDeltaOver (delta : StreamDelta) : Doc → Option StreamDelta
  | .null => some delta
  | .obj members => do
    let content ← decodeOver "content" textOver delta.content members
    let toolCalls ← decodeOver "tool_calls" (sliceOver ⟨0, [], [], ⟨[], []⟩⟩ toolCallDeltaOver) delta.toolCalls members
    return { content, toolCalls }
  | _ => none

structure StreamChoice where
  delta : StreamDelta
  finishReason : Option Text

def streamChoiceOver (choice : StreamChoice) : Doc → Option StreamChoice
  | .null => some choice
  | .obj members => do
    let delta ← decodeOver "delta" streamDeltaOver choice.delta members
    let finishReason ← decodeOver "finish_reason" (pointerOver [] textOver) choice.finishReason members
    return { delta, finishReason }
  | _ => none

structure StreamUsage where
  promptTokens : Int
  completionTokens : Int
  cost : Rat

def streamUsageOver (usage : StreamUsage) : Doc → Option StreamUsage
  | .null => some usage
  | .obj members => do
    let promptTokens ← decodeOver "prompt_tokens" int64Over usage.promptTokens members
    let completionTokens ← decodeOver "completion_tokens" int64Over usage.completionTokens members
    let cost ← decodeOver "cost" floatOver usage.cost members
    return { promptTokens, completionTokens, cost }
  | _ => none

structure StreamChunk where
  id : Text
  model : Text
  choices : Slice StreamChoice
  usage : Option StreamUsage

/-- `json.Unmarshal` of a payload. -/
def decodeChunk (payload : Text) : Option StreamChunk :=
  match JsonText.parse payload with
  | some .null => some ⟨[], [], ⟨[], []⟩, none⟩
  | some (.obj members) => do
    let id ← decodeOver "id" textOver [] members
    let model ← decodeOver "model" textOver [] members
    let choices ← decodeOver "choices" (sliceOver ⟨⟨[], [], []⟩, none⟩ streamChoiceOver) ⟨[], []⟩ members
    let usage ← decodeOver "usage" (pointerOver ⟨0, 0, 0⟩ streamUsageOver) none members
    return { id, model, choices, usage }
  | _ => none

/-! ### The assembler -/

structure Assembler where
  content : Text
  calls : List ToolCall
  usage : Option Usage

def Assembler.empty : Assembler := ⟨[], [], none⟩

/-- What a field is once a fragment was read: an empty text leaves it as it is. -/
def kept (new old : Text) : Text := if new = [] then old else new

def ToolCall.fresh : ToolCall := ⟨[], "function".toList, ⟨[], []⟩⟩

def ToolCall.extend (call : ToolCall) (d : ToolCallDelta) : ToolCall where
  id := kept d.id call.id
  type := kept d.type call.type
  function := ⟨kept d.function.name call.function.name, call.function.arguments ++ d.function.arguments⟩

def applyToolDelta (calls : List ToolCall) (d : ToolCallDelta) : List ToolCall :=
  if d.index < 0 then calls
  else
    let index := d.index.toNat
    (calls ++ List.replicate (index + 1 - calls.length) ToolCall.fresh).modify index (·.extend d)

def Usage.told (usage : Usage) (chunk : StreamChunk) : Usage :=
  let named := { usage with generationId := kept chunk.id usage.generationId, model := kept chunk.model usage.model }
  match chunk.usage with
  | none => named
  | some counts =>
    { named with promptTokens := counts.promptTokens, completionTokens := counts.completionTokens, cost := counts.cost }

/-- The assembly after a chunk, and the text to emit. -/
def Assembler.apply (a : Assembler) (chunk : StreamChunk) : Assembler × Option Text :=
  let usage := (a.usage.getD ⟨[], [], 0, 0, 0⟩).told chunk
  match chunk.choices.items with
  | [] => ({ a with usage := some usage }, none)
  | choice :: _ =>
    let calls := choice.delta.toolCalls.items.foldl applyToolDelta a.calls
    if choice.delta.content = [] then ({ a with calls, usage := some usage }, none)
    else (⟨a.content ++ choice.delta.content, calls, some usage⟩, some choice.delta.content)

def Assembler.finish (a : Assembler) : Message := ⟨"assistant".toList, a.content, a.calls⟩

/-! ### Lines -/

def newline : UInt8 := 0x0A

/-- `strings.TrimRight(line, "\r\n")` -/
def trimBreak (line : Bytes) : Bytes :=
  (line.reverse.dropWhile fun byte => byte == 0x0D || byte == newline).reverse

/-- What a line is to the reader. -/
inductive Line where
  | other
  | done
  | malformed
  | chunk (chunk : StreamChunk)

def dataField : Bytes := Utf8.encode "data:".toList

def readLine (line : Bytes) : Line :=
  let trimmed := trimBreak line
  if dataField.isPrefixOf trimmed then
    let payload := Text.trimSpace (Utf8.runeText (trimmed.drop dataField.length))
    if payload = "[DONE]".toList then .done
    else
      match decodeChunk payload with
      | some chunk => .chunk chunk
      | none => .malformed
  else .other

/-! ### The goroutine and its caller -/

inductive ReadError where
  | eof
  | failed
  deriving DecidableEq

inductive StreamError where
  | canceled
  | malformedChunk
  | read (err : ReadError)
  | endedWithoutResult
  deriving DecidableEq

inductive Event where
  | delta (delta : Text)
  | done (message : Message) (usage : Option Usage)
  | error (err : StreamError)
  deriving DecidableEq

/-- Where the goroutine is: before the next `ReadString`, at the test of its error,
or blocked on the channel. -/
inductive Reader where
  | reading (asm : Assembler)
  | ended (asm : Assembler) (err : ReadError)
  | sending (ev : Event) (next : Reader)
  | exited

/-- `complete` ranges over the events; `done` is the last event of that type. -/
inductive Caller where
  | ranging (done : Option Message)
  | returned (result : Except StreamError Message)
  deriving DecidableEq

/-- `unsent` is the rest of the response; `buffer` has arrived and is unread. -/
structure Stream where
  unsent : Bytes
  arrived : Bytes
  buffer : Bytes
  closed : Option ReadError
  cancelled : Bool
  reader : Reader
  carried : List Event
  caller : Caller

def Stream.start (body : Bytes) : Stream :=
  ⟨body, [], [], none, false, .reading .empty, [], .ranging none⟩

def sendDone (asm : Assembler) : Reader := .sending (.done asm.finish asm.usage) .exited

/-- A cancelled context is the error, whatever else went wrong. -/
def sendError (cancelled : Bool) (err : StreamError) : Reader :=
  .sending (.error (if cancelled then .canceled else err)) .exited

/-- The goroutine has read a line, and goes on to `next`. -/
def process (cancelled : Bool) (asm : Assembler) (line : Bytes) (next : Assembler → Reader) : Reader :=
  match readLine line with
  | .other => next asm
  | .done => sendDone asm
  | .malformed => sendError cancelled .malformedChunk
  | .chunk chunk =>
    match asm.apply chunk with
    | (asm, none) => next asm
    | (asm, some delta) => .sending (.delta delta) (next asm)

/-- What ends the read does, once the last line is dealt with. -/
def finished (cancelled : Bool) (asm : Assembler) (err : ReadError) : Reader :=
  if err = .eof ∧ cancelled = false then sendDone asm else sendError cancelled (.read err)

def Caller.receive (ev : Event) : Caller → Caller
  | .ranging done =>
    match ev with
    | .delta _ => .ranging done
    | .done message _ => .ranging (some message)
    | .error err => .returned (.error err)
  | caller => caller

inductive Action where
  | arrive (size : Nat)
  | close (err : ReadError)
  | cancel
  | read
  | check
  | deliver
  | abandon
  | finish

def Stream.step (s : Stream) : Action → Option Stream
  | .arrive size =>
    if s.closed = none then
      some { s with
        unsent := s.unsent.drop size, arrived := s.arrived ++ s.unsent.take size,
        buffer := s.buffer ++ s.unsent.take size }
    else none
  -- the end of the body is reported once all of it has arrived, a failure at any time
  | .close err =>
    if s.closed = none ∧ (err = .eof → s.unsent = []) then some { s with closed := some err } else none
  | .cancel => some { s with cancelled := true }
  | .read =>
    match s.reader with
    | .reading asm =>
      let line := s.buffer.takeWhile (· ≠ newline)
      match s.buffer.dropWhile (· ≠ newline) with
      | _ :: rest =>
        some { s with buffer := rest, reader := process s.cancelled asm (line ++ [newline]) .reading }
      | [] =>
        s.closed.map fun err =>
          { s with buffer := [], reader := process s.cancelled asm line fun asm => .ended asm err }
    | _ => none
  | .check =>
    match s.reader with
    | .ended asm err => some { s with reader := finished s.cancelled asm err }
    | _ => none
  | .deliver =>
    match s.reader, s.caller with
    | .sending ev next, .ranging done =>
      some { s with reader := next, carried := s.carried ++ [ev], caller := (Caller.ranging done).receive ev }
    | _, _ => none
  | .abandon =>
    match s.reader with
    | .sending _ _ => if s.cancelled then some { s with reader := .exited } else none
    | _ => none
  -- the channel is closed
  | .finish =>
    match s.reader, s.caller with
    | .exited, .ranging done =>
      some { s with caller := .returned (done.elim (.error .endedWithoutResult) .ok) }
    | _, _ => none

def Stream.Next (s later : Stream) : Prop := ∃ action, s.step action = some later

/-- The actions in turn. -/
def Stream.perform (s : Stream) : List Action → Option Stream
  | [] => some s
  | action :: rest => (s.step action).bind (·.perform rest)

end Dropway.Openrouter
