import Mathlib.Data.List.Basic
import Mathlib.Data.String.Basic
import Mathlib.Tactic.IntervalCases

/-! Text is a list of Unicode scalar values, and bytes are decoded the way the
web platform decodes them: a malformed sequence becomes U+FFFD and the byte
that broke it is read again. -/

namespace Dropway.Lib

abbrev Text := List Char

instance : LawfulBEq Text := inferInstance

abbrev Bytes := List UInt8

namespace Text

/-- What `String.prototype.trim` takes away. -/
def isSpace (c : Char) : Bool :=
  (0x09 ≤ c.toNat && c.toNat ≤ 0x0D) || (0x2000 ≤ c.toNat && c.toNat ≤ 0x200A) ||
    [0x20, 0xA0, 0x1680, 0x2028, 0x2029, 0x202F, 0x205F, 0x3000, 0xFEFF].contains c.toNat

def trim (text : Text) : Text :=
  ((text.dropWhile isSpace).reverse.dropWhile isSpace).reverse

/-- Lowercase, as far as ASCII is concerned: the Kelvin sign is the only other
character whose lowercase form is an ASCII letter. -/
def lower (text : Text) : Text := text.map fun c => if c.toNat = 0x212A then 'k' else c.toLower

def startsWith (text start : Text) : Bool := start.isPrefixOf text

def includes (text part : Text) : Bool := text.tails.any fun rest => part.isPrefixOf rest

/-- The code units strings of the web platform are made of. -/
def utf16 (text : Text) : List Nat :=
  text.flatMap fun c =>
    if c.toNat < 0x10000 then [c.toNat]
    else [0xD800 + (c.toNat - 0x10000) / 0x400, 0xDC00 + (c.toNat - 0x10000) % 0x400]

/-- The order of `Array.prototype.sort`. -/
def sortsBefore (a b : Text) : Bool := decide (a.utf16 ≤ b.utf16)

/-- `Number.parseInt(text, 10)`, and nothing where the result is not finite. -/
def parseInt (text : Text) : Option Int :=
  let body := text.dropWhile isSpace
  let negative := body.head? = some '-'
  let digits := ((if negative ∨ body.head? = some '+' then body.tail else body).takeWhile Char.isDigit)
  let value := digits.foldl (fun n c => n * 10 + (c.toNat - '0'.toNat)) 0
  if digits = [] ∨ 2 ^ 1024 - 2 ^ 970 ≤ value then none
  else some (if negative then -value else value)

end Text

namespace Utf8

def replacement : Char := Char.ofNat 0xFFFD

def encode (text : Text) : Bytes := text.flatMap String.utf8EncodeChar

/-- What the decoder has read of an unfinished sequence. -/
structure Pending where
  needed : Nat := 0
  point : Nat := 0
  lower : Nat := 0x80
  upper : Nat := 0xBF
  deriving Repr, DecidableEq

/-- The first byte of a sequence. -/
def lead (byte : UInt8) : Text × Pending :=
  let b := byte.toNat
  if b < 0x80 then ([Char.ofNat b], {})
  else if 0xC2 ≤ b ∧ b ≤ 0xDF then ([], { needed := 1, point := b - 0xC0 })
  else if 0xE0 ≤ b ∧ b ≤ 0xEF then
    ([], { needed := 2, point := b - 0xE0, lower := if b = 0xE0 then 0xA0 else 0x80,
           upper := if b = 0xED then 0x9F else 0xBF })
  else if 0xF0 ≤ b ∧ b ≤ 0xF4 then
    ([], { needed := 3, point := b - 0xF0, lower := if b = 0xF0 then 0x90 else 0x80,
           upper := if b = 0xF4 then 0x8F else 0xBF })
  else ([replacement], {})

def decodeFrom : Pending → Bytes → Text
  | pending, [] => if pending.needed = 0 then [] else [replacement]
  | pending, byte :: rest =>
    match pending.needed with
    | 0 => (lead byte).1 ++ decodeFrom (lead byte).2 rest
    | more + 1 =>
      if pending.lower ≤ byte.toNat ∧ byte.toNat ≤ pending.upper then
        let point := pending.point * 64 + (byte.toNat - 0x80)
        if more = 0 then Char.ofNat point :: decodeFrom {} rest
        else decodeFrom { needed := more, point } rest
      else replacement :: (lead byte).1 ++ decodeFrom (lead byte).2 rest

/-- Lossy UTF-8 decoding. -/
def decode (bytes : Bytes) : Text := decodeFrom {} bytes

/-- `Response.text()`, which drops a byte order mark. -/
def bodyText (bytes : Bytes) : Text :=
  decode (if [0xEF, 0xBB, 0xBF].isPrefixOf bytes then bytes.drop 3 else bytes)

end Utf8
end Dropway.Lib
