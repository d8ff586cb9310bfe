import Dropway.Lib.Hyphens
import Dropway.Lib.RuneCase
import Dropway.Lib.Separated
import Dropway.Lib.Utf8

/-! The grammar of site and organisation slugs (internal/slug). -/

namespace Dropway.Api
open Lib

def isSlugChar (c : Char) : Bool := c.isLower || c.isDigit

/-- `^[a-z0-9](?:[a-z0-9-]{0,61}[a-z0-9])?$` -/
def slugPattern (text : Text) : Bool :=
  match text with
  | [] => false
  | first :: rest =>
    isSlugChar first &&
      match rest.getLast? with
      | none => true
      | some last =>
        decide (rest.length ≤ 62) && rest.dropLast.all (fun c => isSlugChar c || c = '-') &&
          isSlugChar last

def validSlug (text : Text) : Bool := slugPattern text && !decide (['-', '-'] <:+: text)

structure Slug where
  text : Text
  wf : validSlug text
  deriving DecidableEq

end Dropway.Api

/-! Making a slug of any name: Slugify of internal/slug, and what the dashboard proposes
for a skill (lib/skills-shared.ts), on the code units of its strings. -/

namespace Dropway.Api
open Lib Lib.Hyphens

/-- `[^a-z0-9-]` -/
def nonSlug (c : Char) : Bool := !(isSlugChar c || c = '-')

/-- Only ASCII is left to be cut, so bytes and characters are the same. -/
def slugify (text : Text) : Text :=
  let lower := RuneCase.lowered text
  let marked := replaceRuns nonSlug '-' 1 [] lower
  let collapsed := replaceRuns (· = '-') '-' 1 [] marked
  let trimmed := trim '-' collapsed
  if 63 < trimmed.length then (trimmed.take 63).rdropWhile (· = '-') else trimmed

end Dropway.Api

namespace Dropway.Dashboard
open Lib Lib.Hyphens Lib.Units

def isSlugUnit (unit : UInt16) : Bool :=
  (0x61 ≤ unit.toNat && unit.toNat ≤ 0x7A) || (0x30 ≤ unit.toNat && unit.toNat ≤ 0x39)

def nonSlugUnit (unit : UInt16) : Bool := !(isSlugUnit unit || unit = 0x2D)

/-- `endsWord` is the rule for the final sigma. -/
def slugify (endsWord : Units → Units → Bool) (name : Units) : Units :=
  let lower := toLowerCase endsWord name
  let marked := replaceRuns nonSlugUnit 0x2D 1 [] lower
  let collapsed := replaceRuns (· = 0x2D) 0x2D 2 [] marked
  (trim 0x2D collapsed).take 63

end Dropway.Dashboard
