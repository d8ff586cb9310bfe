import Mathlib.Data.List.DropRight
import Dropway.Lib.JsonText
import Dropway.Lib.Regex

/-! The Markdown viewer, which the Worker (src/markdown.ts) and the Go server
(internal/markdown/markdown.go) write alike: blocks of lines, and spans within a line. -/

namespace Dropway.Markdown
open Lib Regex

/-- What the ports take from their languages: their characters, with their numbers, `\s` and
`.` of their regular expressions, what they trim, and the functions that they write apart. -/
structure Dialect (α : Type) where
  code : α → Nat
  char : Char → α
  space : α → Bool
  dot : α → Bool
  white : α → Bool
  indent : α → Bool
  newlines : List α → List α
  esc : List α → List α
  isHR : List α → Bool

variable {α : Type} (D : Dialect α)

namespace Dialect

def text (words : String) : List α := words.toList.map D.char

def is (c : Char) (a : α) : Bool := D.code a = c.toNat

def isNot (c : Char) (a : α) : Bool := D.code a ≠ c.toNat

def digit (a : α) : Bool := 0x30 ≤ D.code a && D.code a ≤ 0x39

def letter (a : α) : Bool := (0x41 ≤ D.code a && D.code a ≤ 0x5A) || (0x61 ≤ D.code a && D.code a ≤ 0x7A)

def trim (s : List α) : List α := (s.dropWhile D.white).rdropWhile D.white

def number (n : Nat) : List α := (JsonText.decimal n).map D.char

def value (digits : List α) : Nat := digits.foldl (fun n a => 10 * n + (D.code a - 0x30)) 0

/-! ### Spans -/

def codeSpan : Regex α := seqs [one (D.is '`'), group 1 (some_ (D.isNot '`')), one (D.is '`')]

/-- What a link or an image leads to. -/
def target : Regex α :=
  seqs [one (D.is ']'), one (D.is '('), group 2 (some_ fun a => D.isNot ')' a && !D.space a), one (D.is ')')]

def img : Regex α := seqs [one (D.is '!'), one (D.is '['), group 1 (many (D.isNot ']') true), D.target]

def link : Regex α := seqs [one (D.is '['), group 1 (some_ (D.isNot ']')), D.target]

/-- A text between marks that does not contain them. -/
def between (mark : Char) (marks : Nat) : Regex α :=
  seqs [word (List.replicate marks (D.is mark)), group 1 (some_ (D.isNot mark)), word (List.replicate marks (D.is mark))]

def nul : Char := Char.ofNat 0

def placeholder : Regex α := seqs [one (D.is nul), group 1 (some_ D.digit), one (D.is nul)]

def scheme : Regex α :=
  seqs [group 1 (seq (one D.letter) (many (fun a => D.letter a || D.digit a || D.is '+' a || D.is '.' a || D.is '-' a) true)),
    one (D.is ':')]

/-- The number of the small letter. -/
def lowerCode (code : Nat) : Nat := if 0x41 ≤ code ∧ code ≤ 0x5A then code + 0x20 else code

def schemes : List (List Nat) := ["http", "https", "mailto", "tel"].map fun name => name.toList.map Char.toNat

def safeUrl (url : List α) : List α :=
  let u := D.trim url
  match D.scheme.exec u with
  | none => u
  | some (groups, _) => if (groups.get 1).map (fun a => lowerCode (D.code a)) ∈ schemes then u else D.text "#"

def wrap (before : String) (inner : List α) (behind : String) : List α := D.text before ++ (inner ++ D.text behind)

/-- Code is taken out, as a placeholder each, before anything else is done with the text. -/
def takeCodes (src : List α) : List α × List (List α) :=
  replaceFrom D.codeSpan (fun codes groups =>
    (D.char nul :: (D.number codes.length ++ [D.char nul]), codes ++ [D.wrap "<code>" (D.esc (groups.get 1)) "</code>"]))
    0 [] src

def images (out : List α) : List α :=
  replaceAll D.img (fun groups =>
    D.text "<img src=\"" ++ (D.esc (D.safeUrl (groups.get 2)) ++ (D.text "\" alt=\"" ++ (groups.get 1 ++ D.text "\">")))) out

def links (out : List α) : List α :=
  replaceAll D.link (fun groups =>
    D.text "<a href=\"" ++ (D.esc (D.safeUrl (groups.get 2)) ++
      D.wrap "\" rel=\"nofollow noopener noreferrer\">" (groups.get 1) "</a>")) out

/-- Bold is looked for before italic. -/
def emphasis (out : List α) : List α :=
  let strong (mark : Char) := replaceAll (D.between mark 2) fun groups => D.wrap "<strong>" (groups.get 1) "</strong>"
  let em (mark : Char) := replaceAll (D.between mark 1) fun groups => D.wrap "<em>" (groups.get 1) "</em>"
  em '_' (em '*' (strong '_' (strong '*' out)))

def restore (codes : List (List α)) (out : List α) : List α :=
  replaceAll D.placeholder (fun groups => (codes[D.value (groups.get 1)]?).getD []) out

def renderInline (src : List α) : List α :=
  let taken := D.takeCodes src
  D.restore taken.2 (D.emphasis (D.links (D.images (D.esc taken.1))))

/-! ### Blocks -/

def heading : Regex α :=
  seqs [group 1 (upTo (D.is '#') 5), some_ D.space, group 2 (many D.dot false), many D.space true,
    many (D.is '#') true, many D.space true, atEnd]

def fence : Regex α :=
  seqs [many D.space true, group 1 (alt (word (List.replicate 3 (D.is '`'))) (word (List.replicate 3 (D.is '~')))),
    group 2 (many D.dot true), atEnd]

def ulItem : Regex α :=
  seqs [many D.space true, one (fun a => D.is '-' a || D.is '*' a || D.is '+' a), some_ D.space,
    group 1 (many D.dot true), atEnd]

def olItem : Regex α :=
  seqs [many D.space true, some_ D.digit, one (fun a => D.is '.' a || D.is ')' a), some_ D.space,
    group 1 (many D.dot true), atEnd]

def blockquote : Regex α :=
  seqs [many D.space true, one (D.is '>'), optional D.space, group 1 (many D.dot true), atEnd]

/-- What a group of an expression that matches has matched. -/
def matched (regex : Regex α) (name : Nat) (line : List α) : List α :=
  (regex.exec line).elim [] fun found => found.1.get name

def blank (line : List α) : Bool := (D.trim line).isEmpty

/-- `trimStart().startsWith(marker)` -/
def closes (marker line : List α) : Bool := (marker.map D.code).isPrefixOf ((line.dropWhile D.indent).map D.code)

/-- A line that a paragraph goes on with. -/
def plain (line : List α) : Bool :=
  !D.blank line && !D.fence.test line && !D.heading.test line && !D.isHR line && !D.blockquote.test line &&
    !D.ulItem.test line && !D.olItem.test line

end Dialect

/-- What one pass of the loop over the lines takes. -/
inductive Block (α : Type) where
  | blank (line : List α)
  | fence (opening : List α) (code : List (List α)) (closing : Option (List α))
  | heading (line : List α)
  | rule (line : List α)
  | quote (lines : List (List α))
  | list (ordered : Bool) (lines : List (List α))
  | paragraph (lines : List (List α))

namespace Dialect

/-- One pass, from the line at the index, with what is behind the block. -/
def pass (line : List α) (rest : List (List α)) : Block α × List (List α) :=
  if D.blank line then (.blank line, rest)
  else if D.fence.test line then
    let found := rest.span fun other => !D.closes (matched D.fence 1 line) other
    (.fence line found.1 found.2.head?, found.2.tail)
  else if D.heading.test line then (.heading line, rest)
  else if D.isHR line then (.rule line, rest)
  else if D.blockquote.test line then
    let found := (line :: rest).span D.blockquote.test
    (.quote found.1, found.2)
  else if D.ulItem.test line || D.olItem.test line then
    let ordered := D.olItem.test line && !D.ulItem.test line
    let found := (line :: rest).span (if ordered then D.olItem else D.ulItem).test
    (.list ordered found.1, found.2)
  else
    let found := (line :: rest).span D.plain
    (.paragraph found.1, found.2)

def join (separator : List α) : List (List α) → List α
  | [] => []
  | [last] => last
  | first :: rest => first ++ (separator ++ join separator rest)

def feed : List α := [D.char '\n']

def inner (lines : List (List α)) : List (List α) := lines.map (matched D.blockquote 1)

/-- What a block becomes; a quote needs a rendering of what is in it. -/
def html (render : List α → Option (List (List α))) : Block α → Option (List (List α))
  | .blank _ => some []
  | .fence opening code _ =>
    let lang := (D.trim (matched D.fence 2 opening)).takeWhile fun a => !D.white a
    let cls := if lang.isEmpty then [] else D.wrap " class=\"language-" (D.esc lang) "\""
    some [D.text "<pre><code" ++ (cls ++ D.wrap ">" (D.esc (join D.feed code)) "</code></pre>")]
  | .heading line =>
    let level := D.number (matched D.heading 1 line).length
    some [D.text "<h" ++ (level ++ (D.wrap ">" (D.renderInline (matched D.heading 2 line)) "</h" ++ (level ++ D.text ">")))]
  | .rule _ => some [D.text "<hr>"]
  | .quote lines =>
    (render (join D.feed (D.inner lines))).map fun out => [D.wrap "<blockquote>" (join D.feed out) "</blockquote>"]
  | .list ordered lines =>
    let pattern := if ordered then D.olItem else D.ulItem
    let items := (lines.map fun line => D.wrap "<li>" (D.renderInline (matched pattern 1 line)) "</li>").flatten
    some [if ordered then D.wrap "<ol>" items "</ol>" else D.wrap "<ul>" items "</ul>"]
  | .paragraph lines => some [D.wrap "<p>" (join (D.text "<br>\n") (lines.map D.renderInline)) "</p>"]

def lines (source : List α) : List (List α) := (D.newlines source).splitOnP (D.is '\n')

/-- The loop; without fuel it has not ended. -/
def run : Nat → List (List α) → Option (List (List α))
  | _, [] => some []
  | 0, _ :: _ => none
  | fuel + 1, line :: rest => do
    let here ← D.html (fun source => run fuel (D.lines source)) (D.pass line rest).1
    let later ← run fuel (D.pass line rest).2
    return here ++ later

/-- `none` if the loop has not ended. -/
def renderMarkdown (fuel : Nat) (source : List α) : Option (List α) := (D.run fuel (D.lines source)).map (join D.feed)

end Dialect
end Dropway.Markdown
