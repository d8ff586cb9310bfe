import Dropway.Chatspec.Message
import Dropway.Lib.JsonRead
import Mathlib.Algebra.Order.Field.Rat
import Mathlib.Data.List.Sort

/-! The import of a conversation export as canonical messages (internal/chatspec, Normalize). -/

namespace Dropway.Chatspec
open Lib

inductive NormalizeError where
  | emptyExport
  | unknownFormat (format : Text)
  | notRecognizable
  | noMessages
  deriving DecidableEq

/-- `strings.ToLower`, as far as its ASCII letters are concerned. -/
def toLower (text : Text) : Text :=
  text.map fun c => if c.toNat = 0x130 then 'i' else if c.toNat = 0x212A then 'k' else c.toLower

/-- One of the two stored roles, or none for what is dropped. -/
def canonicalRole (role eventType : Text) : Option Text :=
  if [roleUser, "human".toList].contains (toLower role) then some roleUser
  else if [roleAssistant, "model".toList, "ai".toList].contains (toLower role) then some roleAssistant
  else if eventType = "user".toList then some roleUser
  else if eventType = "assistant".toList then some roleAssistant
  else none

/-- As much of the text as goes into `size` bytes. -/
def takeBytes (size : Nat) : Text → Text
  | [] => []
  | c :: rest => if c.utf8Size ≤ size then c :: takeBytes (size - c.utf8Size) rest else []

def truncatedMark : Text := "\n\n[truncated]".toList

def truncate (text : Text) : Text :=
  if byteLength text ≤ maxContentBytes then text
  else takeBytes (maxContentBytes - byteLength truncatedMark) text ++ truncatedMark

def nonBlankLines (text : Text) : List Text :=
  ((text.splitOn '\n').filter fun line => !blank line).map Text.trimSpace

/-- Another paragraph. -/
def paragraph (buf text : Text) : Text := if buf = [] then text else buf ++ ['\n', '\n'] ++ text

/-! ### JSONL -/

structure EventMessage where
  role : Text
  content : Option Doc

structure JsonlEvent where
  type : Text
  message : Option EventMessage
  role : Text
  content : Option Doc

structure ContentPart where
  type : Text
  text : Text
  name : Text
  input : Option Doc

/-- A pointer to a struct: an object is decoded over the struct that is there. -/
def eventMessageOver (message : Option EventMessage) : Doc → Option (Option EventMessage)
  | .null => some none
  | .obj members => do
    let start := message.getD ⟨[], none⟩
    let role ← decodeOver "role" textOver start.role members
    let content ← decodeOver "content" rawOver start.content members
    return some ⟨role, content⟩
  | _ => none

def decodeEvent : Doc → Option JsonlEvent
  | .null => some ⟨[], none, [], none⟩
  | .obj members => do
    let type ← decodeOver "type" textOver [] members
    let message ← decodeOver "message" eventMessageOver none members
    let role ← decodeOver "role" textOver [] members
    let content ← decodeOver "content" rawOver none members
    return { type, message, role, content }
  | _ => none

def decodePart : Doc → Option ContentPart
  | .null => some ⟨[], [], [], none⟩
  | .obj members => do
    let type ← decodeOver "type" textOver [] members
    let text ← decodeOver "text" textOver [] members
    let name ← decodeOver "name" textOver [] members
    let input ← decodeOver "input" rawOver none members
    return { type, text, name, input }
  | _ => none

def decodeParts : Doc → Option (List ContentPart)
  | .null => some []
  | .arr items => items.mapM decodePart
  | _ => none

/-- A string field of a struct whose decoding errors are ignored. -/
def tolerantField (field : String) : Option Doc → Text
  | some (.obj members) =>
    (members.filter (names field)).foldl (fun value member => (textOver value member.2).getD value) []
  | _ => []

def editTools : List Text :=
  ["Edit", "Write", "MultiEdit", "NotebookEdit", "str_replace_editor", "create_file"].map String.toList

def inputPath (p : ContentPart) : Text :=
  let filePath := tolerantField "file_path" p.input
  let path := if filePath = [] then tolerantField "path" p.input else filePath
  if path.head? = some '/' then path.tail else path

def deriveAction (p : ContentPart) : Message :=
  let tool := (Utf8.encode p.name).take maxToolNameLen
  let path := inputPath p
  let actionMeta : ActionMeta :=
    if path ≠ [] ∧ cleanPath path = true then
      if p.name ∈ editTools then ⟨actionFileEdit, [], [path]⟩ else ⟨actionToolUse, tool, [path]⟩
    else ⟨actionToolUse, tool, []⟩
  ⟨kindAction, roleAssistant, [], some actionMeta⟩

def flush (role buf : Text) : List Message := if buf = [] then [] else [chat role buf]

/-- The parts of one message; prose gathers in `buf`. -/
def partMessages (deriveActions : Bool) (role : Text) (buf : Text) : List ContentPart → List Message
  | [] => flush role buf
  | p :: rest =>
    if p.type = "text".toList then
      if blank p.text then partMessages deriveActions role buf rest
      else partMessages deriveActions role (paragraph buf p.text) rest
    else if p.type = "tool_use".toList then
      if deriveActions = false ∨ role ≠ roleAssistant then partMessages deriveActions role buf rest
      else flush role buf ++ deriveAction p :: partMessages deriveActions role [] rest
    else partMessages deriveActions role buf rest

/-- The role and the raw content of an event. -/
def JsonlEvent.turn (ev : JsonlEvent) : Option (Text × Doc) := do
  let message := ev.message.getD ⟨ev.role, ev.content⟩
  let role ← canonicalRole message.role ev.type
  let content ← message.content
  return (role, content)

def contentMessages (deriveActions : Bool) (role : Text) (content : Doc) : List Message :=
  match textOver [] content with
  | some text => if blank text then [] else [chat role text]
  | none =>
    match decodeParts content with
    | none => []
    | some parts => partMessages deriveActions role [] parts

def lineMessages (deriveActions : Bool) (line : Text) : List Message :=
  match ((JsonText.parse line).bind decodeEvent).bind JsonlEvent.turn with
  | none => []
  | some (role, content) => contentMessages deriveActions role content

def normalizeJSONL (raw : Text) (deriveActions : Bool) : List Message :=
  (nonBlankLines raw).flatMap (lineMessages deriveActions)

/-! ### ChatGPT -/

structure ExportMessage where
  role : Text
  content : Option Doc

structure NodeMessage where
  role : Text
  createTime : Rat
  parts : List Doc

structure ChatgptExport where
  messages : List ExportMessage
  mapping : List (Text × Option NodeMessage)

def decodeExportMessage : Doc → Option ExportMessage
  | .null => some ⟨[], none⟩
  | .obj members => do
    let role ← decodeOver "role" textOver [] members
    let content ← decodeOver "content" rawOver none members
    return { role, content }
  | _ => none

def exportMessagesOver (_ : List ExportMessage) : Doc → Option (List ExportMessage)
  | .null => some []
  | .arr items => items.mapM decodeExportMessage
  | _ => none

/-- A number, as the nearest double; one beyond their range fails. -/
def floatOver (value : Rat) : Doc → Option Rat
  | .null => some value
  | .num literal => JsonText.nearestDouble (JsonText.literalValue literal)
  | _ => none

def authorOver (role : Text) : Doc → Option Text
  | .null => some role
  | .obj members => decodeOver "role" textOver role members
  | _ => none

def partsOver (_ : List Doc) : Doc → Option (List Doc)
  | .null => some []
  | .arr items => some items
  | _ => none

def contentOver (parts : List Doc) : Doc → Option (List Doc)
  | .null => some parts
  | .obj members => decodeOver "parts" partsOver parts members
  | _ => none

def nodeMessageOver (message : Option NodeMessage) : Doc → Option (Option NodeMessage)
  | .null => some none
  | .obj members => do
    let start := message.getD ⟨[], 0, []⟩
    let role ← decodeOver "author" authorOver start.role members
    let createTime ← decodeOver "create_time" floatOver start.createTime members
    let parts ← decodeOver "content" contentOver start.parts members
    return some { role, createTime, parts }
  | _ => none

def decodeNode : Doc → Option (Option NodeMessage)
  | .null => some none
  | .obj members => decodeOver "message" nodeMessageOver none members
  | _ => none

/-- The members of a map are added to those that are there. -/
def mappingOver (mapping : List (Text × Option NodeMessage)) : Doc →
    Option (List (Text × Option NodeMessage))
  | .null => some []
  | .obj nodes =>
    (nodes.mapM fun node => (decodeNode node.2).map fun message => (goText node.1, message)).map
      (mapping ++ ·)
  | _ => none

def decodeExport : Doc → Option ChatgptExport
  | .null => some ⟨[], []⟩
  | .obj members => do
    let messages ← decodeOver "messages" exportMessagesOver [] members
    let mapping ← decodeOver "mapping" mappingOver [] members
    return { messages, mapping := lastOfEach Prod.fst mapping }
  | _ => none

def exportMessage (m : ExportMessage) : Option Message := do
  let role ← canonicalRole m.role []
  let text ← m.content.bind (textOver [])
  if blank text then none else some (chat role text)

structure Timed where
  at_ : Rat
  role : Text
  text : Text
  deriving DecidableEq

/-- A part that is a string is another paragraph; other parts are skipped. -/
def addPart (buf : Text) (part : Doc) : Text :=
  match textOver [] part with
  | none => buf
  | some text => if blank text then buf else paragraph buf text

def partsText (parts : List Doc) : Text := parts.foldl addPart []

def timedNode (message : Option NodeMessage) : Option Timed := do
  let message ← message
  let role ← canonicalRole message.role []
  let text := partsText message.parts
  if text = [] then none else some ⟨message.createTime, role, text⟩

/-- The order of the sort, which is stable. -/
def Timed.NotAfter (one two : Timed) : Prop := one.at_ ≤ two.at_

instance : DecidableRel Timed.NotAfter := fun one two =>
  inferInstanceAs (Decidable (one.at_ ≤ two.at_))

/-- What is made of an export whose map is iterated in the order of `mapping`. -/
def ChatgptExport.normalize (doc : ChatgptExport) : List Message :=
  match doc.messages.filterMap exportMessage with
  | [] =>
    ((doc.mapping.filterMap fun node => timedNode node.2).insertionSort Timed.NotAfter).map fun node =>
      chat node.role node.text
  | messages => messages

/-- An order of the iteration over a map. -/
structure Iteration where
  order : List (Text × Option NodeMessage) → List (Text × Option NodeMessage)
  perm : ∀ nodes, (order nodes).Perm nodes

def forwards : Iteration := ⟨id, List.Perm.refl⟩

def normalizeChatGPT (iteration : Iteration) (raw : Text) : Except NormalizeError (List Message) :=
  match (JsonText.parse raw).bind decodeExport with
  | none => .error .notRecognizable
  | some doc => .ok ({ doc with mapping := iteration.order doc.mapping } : ChatgptExport).normalize

/-! ### Plain text -/

def speakers : List (Text × Text) :=
  [("user:", roleUser), ("human:", roleUser), ("me:", roleUser), ("assistant:", roleAssistant),
    ("ai:", roleAssistant), ("claude:", roleAssistant), ("chatgpt:", roleAssistant)].map
    fun speaker => (speaker.1.toList, speaker.2)

/-- What follows the first `size` bytes. -/
def dropBytes : Nat → Text → Text
  | 0, text => text
  | _, [] => []
  | size + 1, c :: rest => dropBytes (size + 1 - c.utf8Size) rest

/-- The role a line starts with, and the rest of the line. No prefix is a prefix of another. -/
def speakerMarker (line : Text) : Option (Text × Text) :=
  let trimmed := Text.trimSpace line
  (speakers.find? fun speaker => speaker.1.isPrefixOf (toLower trimmed)).map fun speaker =>
    (speaker.2, Text.trimSpace (dropBytes speaker.1.length trimmed))

/-- `strings.ReplaceAll(s, "\r\n", "\n")` -/
def unixLines : Text → Text
  | '\r' :: '\n' :: rest => '\n' :: unixLines rest
  | c :: rest => c :: unixLines rest
  | [] => []

def flushText (role buf : Text) : List Message :=
  if blank buf then [] else [chat role (Text.trimSpace buf)]

def textMessages (role buf : Text) : List Text → List Message
  | [] => flushText role buf
  | line :: rest =>
    match speakerMarker line with
    | some (speaker, said) => flushText role buf ++ textMessages speaker said rest
    | none => textMessages role (if buf = [] then line else buf ++ '\n' :: line) rest

def normalizeText (text : Text) : List Message :=
  textMessages roleUser [] ((unixLines text).splitOn '\n')

/-! ### The import -/

def detectFormat (raw : Text) : Text :=
  let trimmed := Text.trimSpace raw
  if (trimmed.head? = some '{' ∨ trimmed.head? = some '[') ∧ (JsonText.parse trimmed).isSome = true then
    "chatgpt".toList
  else
    let lines := nonBlankLines trimmed
    if lines ≠ [] ∧ lines.all (fun line => (JsonText.parse line).isSome) = true then
      "claude_code".toList
    else "text".toList

def resolveFormat (raw format : Text) : Text :=
  if format = [] ∨ format = "auto".toList then detectFormat raw else format

def readFormat (iteration : Iteration) (raw format : Text) (deriveActions : Bool) :
    Except NormalizeError (List Message) :=
  if format = "claude_code".toList ∨ format = "jsonl".toList then .ok (normalizeJSONL raw deriveActions)
  else if format = "chatgpt".toList ∨ format = "json".toList then normalizeChatGPT iteration raw
  else if format = "text".toList ∨ format = "markdown".toList then .ok (normalizeText raw)
  else .error (.unknownFormat format)

/-- The newest messages within the import limit, and how many are dropped. -/
def keepNewest (msgs : List Message) : List Message × Nat :=
  (msgs.drop (msgs.length - maxImportMessages), msgs.length - maxImportMessages)

def normalize (iteration : Iteration) (raw format : Text) (deriveActions : Bool) :
    Except NormalizeError (List Message × Nat) :=
  if raw = [] then .error .emptyExport
  else
    match readFormat iteration raw (resolveFormat raw format) deriveActions with
    | .error error => .error error
    | .ok [] => .error .noMessages
    | .ok msgs => .ok (keepNewest (msgs.map fun m => { m with content := truncate m.content }))

end Dropway.Chatspec
