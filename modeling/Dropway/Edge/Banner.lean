import Dropway.Lib.LowerCase

/-! Markup that is put into a page (src/banner.ts): right after the body tag, which is
looked for in a lowercased copy of the page. Strings are code units; where the source
answers -1 there is nothing. -/

namespace Dropway.Edge
open Lib Units

/-- The end of a tag, `j` being where the units stand in the page. -/
def tagEndFrom : Option UInt16 → Nat → Units → Option Nat
  | _, _, [] => none
  | some quote, j, c :: rest => tagEndFrom (if c = quote then none else some quote) (j + 1) rest
  | none, j, c :: rest =>
    if c = unit '"' ∨ c = unit '\'' then tagEndFrom (some c) (j + 1) rest
    else if c = unit '>' then some (j + 1)
    else tagEndFrom none (j + 1) rest

def tagEnd (html : Units) (start : Nat) : Option Nat := tagEndFrom none start (html.drop start)

/-- What may follow the name of a tag. -/
def endsTagName : Option UInt16 → Bool
  | none => true
  | some after => after = unit '>' || after = unit '/' || isSpace after

/-- The loop, at index `i` of the lowercased page; it leaves out `skip` units. -/
def bodyOpenFrom (html : Units) : Nat → Nat → Units → Option Nat
  | _, _, [] => none
  | skip + 1, i, _ :: rest => bodyOpenFrom html skip (i + 1) rest
  | 0, i, first :: rest =>
    if (ofText "<!--".toList).isPrefixOf (first :: rest) then
      match indexOf (ofText "-->".toList) ((first :: rest).drop 4) with
      | none => none
      | some found => bodyOpenFrom html (found + 6) (i + 1) rest
    else if (ofText "<body".toList).isPrefixOf (first :: rest) && endsTagName (first :: rest)[5]? then tagEnd html i
    else bodyOpenFrom html 0 (i + 1) rest

section Inject

variable (endsWord : Units → Units → Bool)

def bodyOpenEnd (html : Units) : Option Nat := bodyOpenFrom html 0 0 (toLowerCase endsWord html)

def injectAfterBodyOpen (html markup : Units) : Units :=
  match bodyOpenEnd endsWord html with
  | none => markup ++ html
  | some at_ => html.take at_ ++ markup ++ html.drop at_

end Inject
end Dropway.Edge
