import Dropway.Edge.ChatPage
import Dropway.Markdown.Render

/-! The Worker's Markdown viewer (src/markdown.ts), over UTF-16 code units. -/

namespace Dropway.Edge.MarkdownPage
open Lib Lib.Units

def isDot (c : UInt16) : Bool := c.toNat ∉ [0x0A, 0x0D, 0x2028, 0x2029]

/-- `/\r\n?/g` by a line feed. -/
def newlines (source : Units) : Units := ChatPage.newlines false source

def isHR (line : Units) : Bool :=
  match line.filter fun c => !isSpace c with
  | c :: compact =>
    2 ≤ compact.length && (c = unit '-' || c = unit '*' || c = unit '_') && compact.all fun other => other = c
  | [] => false

def dialect : Markdown.Dialect UInt16 where
  code := UInt16.toNat
  char := unit
  space := isSpace
  dot := isDot
  white := isSpace
  indent := isSpace
  newlines := newlines
  esc := ChatPage.esc
  isHR := isHR

def renderMarkdown (fuel : Nat) (source : Units) : Option Units := dialect.renderMarkdown fuel source

end Dropway.Edge.MarkdownPage
