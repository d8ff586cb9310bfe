import Dropway.Lib.Html
import Dropway.Lib.JsValue
import Dropway.Lib.Utf8
import Mathlib.Data.List.DropRight

/-! The header line of the transcript page (chat.ts). -/

namespace Dropway.Edge
open Lib

/-- What the line says of the messages it stands over. -/
inductive CountLine where
  /-- showing the last N of M -/
  | last (shown total : Int)
  /-- N messages -/
  | all (shown : Int)
  deriving DecidableEq

def countLine (shown total : Int) : CountLine := if shown < total then .last shown total else .all shown

private def number (n : Int) : Text := (toString n).toList

def CountLine.text : CountLine → Text
  | .last shown total => "showing the last ".toList ++ number shown ++ " of ".toList ++ number total
  | .all shown => if shown = 1 then "1 message".toList else number shown ++ " messages".toList

end Dropway.Edge

/-! The page that shows a shared conversation (src/chat.ts): the stored transcript is
checked member by member and written out as markup. -/

namespace Dropway.Edge.ChatPage
open Lib Lib.Units Lib.Html

structure ChatMessage where
  seq : JsNumber
  role : Units
  kind : Units
  content : Units
  action : Option Units
  tool : Option Units
  paths : List Units
  versionId : Units

/-- Without a total of its own a transcript has as many messages as it holds. -/
structure ChatTranscript where
  title : Units
  sourceTool : Units
  totalAppended : Option JsNumber
  messages : List ChatMessage

/-- Members of the wrong type are left out, but `meta` itself has to be an object. -/
def parseMeta : Option JsValue → Option (Option Units × Option Units × List Units)
  | none => some (none, none, [])
  | some .null => some (none, none, [])
  | some (.obj members) =>
    let paths :=
      match JsValue.member members "paths" with
      | some (.arr items) => items.filterMap fun item => JsValue.string? (some item)
      | _ => []
    some (JsValue.string? (JsValue.member members "action"), JsValue.string? (JsValue.member members "tool"), paths)
  | some _ => none

def parseMessage : JsValue → Option ChatMessage
  | .obj members => do
    let seq ← JsValue.finite? (JsValue.member members "seq")
    let role ← JsValue.string? (JsValue.member members "role")
    let kind ← JsValue.string? (JsValue.member members "kind")
    let content ← JsValue.string? (JsValue.member members "content")
    let found ← parseMeta (JsValue.member members "meta")
    let versionId := (JsValue.string? (JsValue.member members "version_id")).getD []
    return { seq, role, kind, content, action := found.1, tool := found.2.1, paths := found.2.2, versionId }
  | _ => none

def parseTranscript : JsValue → Option ChatTranscript
  | .obj members =>
    match JsValue.member members "messages" with
    | some (.arr items) => do
      let messages ← items.mapM parseMessage
      let title := (JsValue.string? (JsValue.member members "title")).getD []
      return { title := if title = [] then lit "Shared session" else title
               sourceTool := (JsValue.string? (JsValue.member members "source_tool")).getD []
               totalAppended := JsValue.finite? (JsValue.member members "total_appended")
               messages }
    | _ => none
  | _ => none

/-! ### Content -/

/-- A text between two literals. -/
def within (before : String) (inner : Units) (behind : String) : Units := lit before ++ (inner ++ lit behind)

def replaceUnit (c : UInt16) (by_ : String) (s : Units) : Units := s.flatMap fun x => if x = c then lit by_ else [x]

def esc (s : Units) : Units :=
  replaceUnit (unit '\'') "&#39;" (replaceUnit (unit '"') "&quot;" (replaceUnit (unit '>') "&gt;"
    (replaceUnit (unit '<') "&lt;" (replaceUnit (unit '&') "&amp;" s))))

/-- `/\r\n?/g` by a line feed; a line feed right after a carriage return belongs to it. -/
def newlines : Bool → Units → Units
  | _, [] => []
  | afterReturn, c :: rest =>
    if c = unit '\r' then unit '\n' :: newlines true rest
    else if c = unit '\n' ∧ afterReturn then newlines false rest
    else c :: newlines false rest

def isFence (line : Units) : Bool := (lit "```").isPrefixOf (line.dropWhile isSpace)

def join (separator : UInt16) : List Units → Units
  | [] => []
  | [line] => line
  | line :: rest => line ++ separator :: join separator rest

def trim (s : Units) : Units := (s.dropWhile isSpace).rdropWhile isSpace

/-- Backticks around a text on one line; `code` is what has come since the last one, if
it may still be closed. -/
def inlineCode : Option Units → Units → Units
  | none, [] => []
  | some code, [] => unit '`' :: code
  | none, c :: rest => if c = unit '`' then inlineCode (some []) rest else c :: inlineCode none rest
  | some code, c :: rest =>
    if c = unit '`' then
      if code = [] then unit '`' :: inlineCode (some []) rest
      else within "<code>" code "</code>" ++ inlineCode none rest
    else if c = unit '\n' then unit '`' :: (code ++ c :: inlineCode none rest)
    else inlineCode (some (code ++ [c])) rest

def flushText (lines : List Units) : List Units :=
  let joined := join (unit '\n') lines
  if trim joined = [] then [] else [within "<p class=\"txt\">" (inlineCode none (esc joined)) "</p>"]

def codeBlock (lines : List Units) : Units :=
  within "<pre>" (within "<code>" (esc (join (unit '\n') lines)) "</code>") "</pre>"

/-- What the lines since the last fence belong to. -/
inductive Block where
  | text (lines : List Units)
  | code (lines : List Units)

/-- The loop over the lines; a fence that is never closed reaches to the end. -/
def renderLines : Block → List Units → List Units
  | .text lines, [] => flushText lines
  | .code lines, [] => [codeBlock lines]
  | .text lines, line :: rest =>
    if isFence line then flushText lines ++ renderLines (.code []) rest else renderLines (.text (lines ++ [line])) rest
  | .code lines, line :: rest =>
    if isFence line then codeBlock lines :: renderLines (.text []) rest else renderLines (.code (lines ++ [line])) rest

def renderChatContent (src : Units) : Units :=
  (renderLines (.text []) ((newlines false src).splitOn (unit '\n'))).flatten

/-! ### The page -/

def sourceToolLabel (tool : Units) : Units :=
  if tool = lit "claude_code" then lit "Claude Code"
  else if tool = lit "chatgpt" then lit "ChatGPT"
  else if tool = lit "cursor" then lit "Cursor"
  else if tool = lit "other" ∨ tool = [] then lit "AI session"
  else esc tool

def number (n : Nat) : Units := (JsonText.decimal n).map unit

def countLine (shown : Nat) (total : Option JsNumber) : Units :=
  let all := if shown = 1 then lit "1 message" else number shown ++ lit " messages"
  match total with
  | none => all
  | some total =>
    if (shown : Rat) < total.value then lit "showing the last " ++ (number shown ++ (lit " of " ++ total.text)) else all

def chip (text : Units) : Units := within "<span class=\"chip\">" (esc text) "</span>"

/-- A `div` with an `id` after its class. -/
def messageDiv (class_ : Units) (seq : JsNumber) (inner : Units) : Units :=
  lit "<div class=\"" ++ (class_ ++ (lit "\" id=\"msg-" ++ (seq.text ++ within "\">" inner "</div>")))

def renderActionRow (m : ChatMessage) : Units :=
  let edit := m.action = some (lit "file_edit")
  let icon := if edit then lit "✎" else lit "⚙"
  let what := if edit then (m.paths.map chip).flatten
    else match m.tool with
      | none => []
      | some tool => if tool = [] then [] else chip tool
  let commentary := renderChatContent m.content
  messageDiv (lit "action") m.seq
    (within "<span class=\"icon\" aria-hidden=\"true\">" icon "</span>" ++
      within "<div class=\"act-body\">" (what ++ commentary) "</div>")

def renderChatBubble (m : ChatMessage) : Units :=
  let side := if m.role = lit "user" then lit "user" else lit "assistant"
  messageDiv (lit "msg " ++ side) m.seq (within "<div class=\"bubble\">" (renderChatContent m.content) "</div>")

def versionDivider : Units :=
  within "<div class=\"divider\" role=\"separator\">"
    (within "<span>" (lit "↑ deployed as new version") "</span>") "</div>"

def renderMessage (m : ChatMessage) : Units :=
  if m.kind = lit "action" then renderActionRow m else renderChatBubble m

/-- The loop over the messages; the last version that was named is carried along. -/
def renderMessages : Units → Bool → List ChatMessage → List Units
  | _, _, [] => []
  | prevVersion, first, m :: rest =>
    let divider := if first = false ∧ m.versionId ≠ [] ∧ m.versionId ≠ prevVersion then [versionDivider] else []
    let version := if m.versionId ≠ [] then m.versionId else prevVersion
    divider ++ renderMessage m :: renderMessages version false rest

def unavailableHtml : List String :=
  ["<!doctype html>",
   "<html lang=\"en\">",
   "<head>",
   "<meta charset=\"utf-8\">",
   "<meta name=\"viewport\" content=\"width=device-width, initial-scale=1\">",
   "<title>Conversation unavailable</title>",
   "<style>",
   "  :root \x7b color-scheme: light dark; \x7d",
   "  body \x7b font: 15px/1.6 system-ui, sans-serif; margin: 0;",
   "         display: grid; place-items: center; min-height: 100vh; \x7d",
   "  main \x7b text-align: center; padding: 2rem; max-width: 32rem; \x7d",
   "  h1 \x7b font-size: 1.4rem; margin: 0 0 .5rem; \x7d",
   "  p \x7b opacity: .7; \x7d",
   "</style>",
   "</head>",
   "<body>",
   "  <main>",
   "    <h1>Conversation unavailable</h1>",
   "    <p>The session transcript for this site can't be shown right now.</p>",
   "  </main>",
   "</body>",
   "</html>"]

def pageCss : List String :=
  [":root \x7b color-scheme: light dark; \x7d",
   "* \x7b box-sizing: border-box; \x7d",
   "body \x7b font: 15px/1.55 -apple-system, BlinkMacSystemFont, \"Segoe UI\", Roboto, Helvetica, Arial, sans-serif;",
   "       margin: 0; background: #fafafa; color: #1a1a1a; \x7d",
   "header \x7b position: sticky; top: 0; z-index: 10; display: flex; flex-wrap: wrap; align-items: baseline;",
   "         gap: 0.4rem 0.6rem; padding: 0.7rem 1.1rem; background: rgba(250,250,250,0.9);",
   "         backdrop-filter: saturate(1.8) blur(8px); border-bottom: 1px solid #e3e3e3; \x7d",
   "header h1 \x7b font-size: 1rem; margin: 0; font-weight: 700; word-break: break-word; \x7d",
   "header .badge \x7b font-size: 0.72rem; font-weight: 600; padding: 0.15rem 0.5rem; border-radius: 999px;",
   "                background: #eef2ff; color: #4f46e5; white-space: nowrap; \x7d",
   "header .count \x7b font-size: 0.78rem; color: #6b7280; margin-left: auto; white-space: nowrap; \x7d",
   "main \x7b max-width: 760px; margin: 0 auto; padding: 1.25rem 1rem 3rem; \x7d",
   ".msg \x7b display: flex; margin: 0.6rem 0; \x7d",
   ".msg.user \x7b justify-content: flex-end; \x7d",
   ".msg.assistant \x7b justify-content: flex-start; \x7d",
   ".bubble \x7b max-width: 85%; padding: 0.55rem 0.85rem; border-radius: 1rem; overflow-wrap: anywhere; \x7d",
   ".msg.user .bubble \x7b background: #4f46e5; color: #fff; border-bottom-right-radius: 0.3rem; \x7d",
   ".msg.assistant .bubble \x7b background: #ececf0; color: #1a1a1a; border-bottom-left-radius: 0.3rem; \x7d",
   ".txt \x7b margin: 0.35rem 0; white-space: pre-wrap; \x7d",
   ".txt:first-child \x7b margin-top: 0; \x7d .txt:last-child \x7b margin-bottom: 0; \x7d",
   "pre \x7b background: rgba(0,0,0,0.28); color: #f4f4f5; padding: 0.6rem 0.8rem; border-radius: 0.5rem;",
   "      overflow-x: auto; margin: 0.4rem 0; \x7d",
   ".msg.assistant pre, .action pre \x7b background: #24262b; \x7d",
   "pre code \x7b background: none; padding: 0; color: inherit; \x7d",
   "code \x7b font-family: ui-monospace, SFMono-Regular, Menlo, Consolas, monospace; font-size: 0.88em;",
   "       background: rgba(135,131,120,0.2); padding: 0.1em 0.3em; border-radius: 0.3rem; \x7d",
   ".msg.user code \x7b background: rgba(255,255,255,0.22); \x7d",
   ".action \x7b display: flex; gap: 0.55rem; align-items: baseline; width: 100%; margin: 0.45rem 0;",
   "          padding: 0.45rem 0.7rem; border: 1px dashed #d6d6dc; border-radius: 0.6rem;",
   "          background: #f4f4f6; font-size: 0.85rem; color: #4b5563; \x7d",
   ".action .icon \x7b flex: none; \x7d",
   ".action .act-body \x7b min-width: 0; overflow-wrap: anywhere; \x7d",
   ".chip \x7b display: inline-block; font-family: ui-monospace, SFMono-Regular, Menlo, Consolas, monospace;",
   "        font-size: 0.75rem; background: #e5e7eb; color: #374151; padding: 0.1rem 0.45rem;",
   "        border-radius: 0.35rem; margin: 0 0.3rem 0.2rem 0; \x7d",
   ".divider \x7b display: flex; align-items: center; gap: 0.6rem; margin: 1rem 0; color: #6b7280;",
   "           font-size: 0.78rem; \x7d",
   ".divider::before, .divider::after \x7b content: \"\"; flex: 1; border-top: 1px solid #d6d6dc; \x7d",
   "footer \x7b text-align: center; padding: 1rem 0 2rem; font-size: 0.8rem; color: #6b7280; \x7d",
   "footer a \x7b color: #4f46e5; font-weight: 600; text-decoration: none; \x7d",
   ".empty \x7b text-align: center; color: #6b7280; padding: 2rem 0; \x7d",
   "@media (prefers-color-scheme: dark) \x7b",
   "  body \x7b background: #16181c; color: #e6e6e6; \x7d",
   "  header \x7b background: rgba(22,24,28,0.9); border-bottom-color: #2a2d34; \x7d",
   "  header .badge \x7b background: #272a4a; color: #a5b4fc; \x7d",
   "  header .count \x7b color: #9aa0a8; \x7d",
   "  .msg.assistant .bubble \x7b background: #23262c; color: #e6e6e6; \x7d",
   "  .action \x7b background: #1d1f24; border-color: #33363d; color: #9aa0a8; \x7d",
   "  .chip \x7b background: #2a2d34; color: #c3c7ce; \x7d",
   "  .divider \x7b color: #9aa0a8; \x7d .divider::before, .divider::after \x7b border-top-color: #33363d; \x7d",
   "  footer \x7b color: #9aa0a8; \x7d footer a \x7b color: #a5b4fc; \x7d",
   "  code \x7b background: rgba(110,118,129,0.3); \x7d",
   "\x7d"]

/-- Lines with their line feeds. -/
def textOf (lines : List String) : Units := lines.flatMap fun line => lit line ++ [unit '\n']

section Page

variable (endsWord : Units → Units → Bool)

def isFree (planTier : Option Units) : Bool := toLowerCase endsWord (trim (planTier.getD [])) = lit "free"

def footer (planTier : Option Units) : Units :=
  if isFree endsWord planTier then
    within "<footer>" (lit "Shared via " ++ within
      "<a href=\"https://dropway.dev\" target=\"_blank\" rel=\"noopener noreferrer\">" (lit "Dropway") "</a>") "</footer>"
  else []

/-- `endsWord` is the rule for the final sigma. -/
def renderChatPage (transcript : JsValue) (host : Units) (planTier : Option Units) : Units :=
  match parseTranscript transcript with
  | none => textOf unavailableHtml
  | some t =>
    let parts := renderMessages [] true t.messages
    let body :=
      if parts = [] then lit "<p class=\"empty\">No messages in this session yet.</p>" else join (unit '\n') parts
    let head := within "<head>"
      (lit "\n<meta charset=\"utf-8\">\n<meta name=\"viewport\" content=\"width=device-width, initial-scale=1\">\n" ++
        (within "<title>" (esc t.title ++ (lit " — " ++ esc host)) "</title>" ++ (lit "\n" ++
          (within "<style>" (lit "\n" ++ textOf pageCss) "</style>" ++ lit "\n")))) "</head>"
    let header := within "<header>"
      (lit "\n" ++ (within "<h1>" (esc t.title) "</h1>" ++ (lit "\n" ++
        (within "<span class=\"badge\">" (sourceToolLabel t.sourceTool) "</span>" ++ (lit "\n" ++
          (within "<span class=\"count\">" (countLine t.messages.length t.totalAppended) "</span>" ++ lit "\n"))))))
      "</header>"
    let main := within "<main>" (lit "\n" ++ (body ++ lit "\n")) "</main>"
    let whole := within "<body>"
      (lit "\n" ++ (header ++ (lit "\n" ++ (main ++ (lit "\n" ++ (footer endsWord planTier ++ lit "\n")))))) "</body>"
    lit "<!doctype html>\n" ++ (within "<html lang=\"en\">"
      (lit "\n" ++ (head ++ (lit "\n" ++ (whole ++ lit "\n")))) "</html>" ++ lit "\n")

end Page

end Dropway.Edge.ChatPage
