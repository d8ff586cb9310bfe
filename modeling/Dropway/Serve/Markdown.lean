import Dropway.Lib.Lenient
import Dropway.Markdown.Render

/-! The Go port of the Markdown viewer (internal/markdown/markdown.go). Strings are read
rune by rune, and a byte of no character is one of its own. -/

namespace Dropway.Serve.MarkdownPage
open Lib Utf8

/-- What the rune is to a regular expression. -/
def code : Rune → Nat
  | .char c => c.toNat
  | .stray _ => 0xFFFD

/-- `\s` is ASCII only. -/
def isSpace (r : Rune) : Bool := code r ∈ [0x09, 0x0A, 0x0C, 0x0D, 0x20]

/-- `strings.ReplaceAll(source, "\r\n", "\n")` -/
def pairs : List Rune → List Rune
  | .char '\r' :: .char '\n' :: rest => .char '\n' :: pairs rest
  | r :: rest => r :: pairs rest
  | [] => []

def newlines (source : List Rune) : List Rune :=
  (pairs source).map fun r => if r = .char '\r' then .char '\n' else r

def escRune (r : Rune) : List Rune :=
  if r = .char '&' then "&amp;".toList.map .char
  else if r = .char '<' then "&lt;".toList.map .char
  else if r = .char '>' then "&gt;".toList.map .char
  else if r = .char '"' then "&quot;".toList.map .char
  else if r = .char '\'' then "&#39;".toList.map .char
  else [r]

def esc (s : List Rune) : List Rune := s.flatMap escRune

/-- Lengths are in bytes. -/
def isHR (line : List Rune) : Bool :=
  match joined (line.filter fun r => !isSpace r) with
  | c :: compact =>
    2 ≤ compact.length && (c = 0x2D || c = 0x2A || c = 0x5F) && compact.all fun other => other = c
  | [] => false

def dialect : Markdown.Dialect Rune where
  code := code
  char := .char
  space := isSpace
  dot r := code r ≠ 0x0A
  white := Rune.isWhite
  indent r := code r = 0x20 || code r = 0x09
  newlines := newlines
  esc := esc
  isHR := isHR

def RenderMarkdown (fuel : Nat) (source : Bytes) : Option Bytes := (dialect.renderMarkdown fuel (pieces source)).map joined

end Dropway.Serve.MarkdownPage
