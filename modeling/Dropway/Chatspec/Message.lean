import Mathlib.Data.List.Infix
import Dropway.Lib.Runes
import Dropway.Lib.Trim

/-! What makes a chat message storable (internal/chatspec). A text is valid UTF-8; the
name of a tool may have been cut within a character and is bytes. -/

namespace Dropway.Chatspec
open Lib

def maxContentBytes : Nat := 64 * 1024
def maxActionPaths : Nat := 20
def maxToolNameLen : Nat := 128
def maxImportMessages : Nat := 1000

def kindChat : Text := "chat".toList
def kindAction : Text := "action".toList
def roleUser : Text := "user".toList
def roleAssistant : Text := "assistant".toList
def actionToolUse : Text := "tool_use".toList
def actionFileEdit : Text := "file_edit".toList

structure ActionMeta where
  action : Text
  tool : Bytes
  paths : List Text
  deriving DecidableEq

structure Message where
  kind : Text
  role : Text
  content : Text
  actionMeta : Option ActionMeta
  deriving DecidableEq

inductive Invalid where
  | metaOnChat
  | noMeta
  | unknownKind (kind : Text)
  | unknownRole (role : Text)
  | emptyMessage
  | contentTooLong (bytes : Nat)
  | noToolName
  | noPath
  | unknownAction (action : Text)
  | toolNameTooLong
  | tooManyPaths (number : Nat)
  | invalidPath (path : Text)
  deriving DecidableEq

def byteLength (text : Text) : Nat := (Utf8.encode text).length

/-- Nothing is left when the white space is trimmed. -/
def blank (text : Text) : Bool := (Text.trimSpace text).isEmpty

def cleanPath (path : Text) : Bool :=
  path ≠ [] && decide (byteLength path ≤ 512) && !path.any (fun c => c.toNat = 0 || c = '\\') &&
    path.head? ≠ some '/' && !decide (['/', '/'] <:+: path) &&
    (path.splitOn '/').all fun segment =>
      segment ≠ [] && segment ≠ ['.'] && segment ≠ ['.', '.']

def validateMeta (actionMeta : ActionMeta) : Except Invalid Unit := do
  if actionMeta.action = actionToolUse then
    if blank (Utf8.runeText actionMeta.tool) then throw .noToolName
  else if actionMeta.action = actionFileEdit then
    if actionMeta.paths = [] then throw .noPath
  else throw (.unknownAction actionMeta.action)
  if maxToolNameLen < actionMeta.tool.length then throw .toolNameTooLong
  if maxActionPaths < actionMeta.paths.length then throw (.tooManyPaths actionMeta.paths.length)
  match actionMeta.paths.find? fun path => !cleanPath path with
  | some path => throw (.invalidPath path)
  | none => return

def validate (m : Message) : Except Invalid Unit := do
  if m.kind = kindChat then
    if m.actionMeta.isSome then throw .metaOnChat
  else if m.kind = kindAction then
    match m.actionMeta with
    | none => throw .noMeta
    | some actionMeta => validateMeta actionMeta
  else throw (.unknownKind m.kind)
  if m.role ≠ roleUser ∧ m.role ≠ roleAssistant then throw (.unknownRole m.role)
  if blank m.content ∧ m.kind = kindChat then throw .emptyMessage
  if maxContentBytes < byteLength m.content then throw (.contentTooLong (byteLength m.content))

def chat (role content : Text) : Message := ⟨kindChat, role, content, none⟩

end Dropway.Chatspec
