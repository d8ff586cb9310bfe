import Mathlib.Data.List.Infix
import Mathlib.Tactic.Common

/-! Regular expressions over any characters, matched by backtracking: of the ways to match,
the one that is preferred is the first in the order in which alternatives are tried. -/

namespace Dropway.Lib

variable {α β : Type}

/-- A class of characters may be repeated, either as often as it can or as seldom. -/
inductive Regex (α : Type) where
  | empty
  | one (accepts : α → Bool)
  | many (accepts : α → Bool) (greedy : Bool)
  | seq (first second : Regex α)
  | alt (first second : Regex α)
  | group (name : Nat) (inner : Regex α)
  | atEnd

namespace Regex

/-- What groups have matched, the last first. -/
abbrev Groups (α : Type) := List (Nat × List α)

/-- One more character as long as there is one, unless what follows matches before. -/
def repeated (accepts : α → Bool) (greedy : Bool) (next : List α → Option β) : List α → Option β
  | [] => next []
  | c :: rest =>
    let more := if accepts c then repeated accepts greedy next rest else none
    if greedy then more.or (next (c :: rest)) else (next (c :: rest)).or more

def run : Regex α → (Groups α → List α → Option β) → Groups α → List α → Option β
  | empty, next, groups, text => next groups text
  | one _, _, _, [] => none
  | one accepts, next, groups, c :: rest => if accepts c then next groups rest else none
  | many accepts greedy, next, groups, text => repeated accepts greedy (next groups) text
  | seq first second, next, groups, text => first.run (second.run next) groups text
  | alt first second, next, groups, text => (first.run next groups text).or (second.run next groups text)
  | group name inner, next, groups, text =>
    inner.run (fun groups rest => next ((name, text.take (text.length - rest.length)) :: groups) rest) groups text
  | atEnd, next, groups, text => if text.isEmpty then next groups text else none

/-- A match that begins where the text does, and what is behind it. -/
def exec (regex : Regex α) (text : List α) : Option (Groups α × List α) :=
  regex.run (fun groups rest => some (groups, rest)) [] text

def test (regex : Regex α) (text : List α) : Bool := (regex.exec text).isSome

/-- What a group has matched. -/
def Groups.get (groups : Groups α) (name : Nat) : List α := (groups.lookup name).getD []

section Replace

variable {σ : Type}

/-- Matches from the left, each behind the one before; what they become may depend on
those before. The first `skip` characters belong to the last match. No match is empty. -/
def replaceFrom (regex : Regex α) (by_ : σ → Groups α → List α × σ) : Nat → σ → List α → List α × σ
  | _, state, [] => ([], state)
  | skip + 1, state, _ :: rest => replaceFrom regex by_ skip state rest
  | 0, state, c :: rest =>
    match regex.exec (c :: rest) with
    | none =>
      let later := replaceFrom regex by_ 0 state rest
      (c :: later.1, later.2)
    | some (groups, behind) =>
      let here := by_ state groups
      let later := replaceFrom regex by_ (rest.length - behind.length) here.2 rest
      (here.1 ++ later.1, later.2)

def replaceAll (regex : Regex α) (by_ : Groups α → List α) (text : List α) : List α :=
  (replaceFrom regex (fun _ groups => (by_ groups, ())) 0 () text).1

end Replace

/-! ### Expressions -/

def seqs : List (Regex α) → Regex α
  | [] => empty
  | [last] => last
  | first :: rest => seq first (seqs rest)

/-- At least one. -/
def some_ (accepts : α → Bool) : Regex α := seq (one accepts) (many accepts true)

def optional (accepts : α → Bool) : Regex α := alt (one accepts) empty

/-- From one to so many more. -/
def upTo (accepts : α → Bool) : Nat → Regex α
  | 0 => one accepts
  | n + 1 => seq (one accepts) (alt (upTo accepts n) empty)

def word : List (α → Bool) → Regex α
  | [] => empty
  | accepts :: rest => seq (one accepts) (word rest)

/-! ### What a match leaves -/

theorem repeated_some {accepts : α → Bool} {greedy : Bool} {next : List α → Option β} {text : List α} {answer : β}
    (found : repeated accepts greedy next text = some answer) : ∃ rest, rest <:+ text ∧ next rest = some answer := by
  induction text with
  | nil => exact ⟨[], List.suffix_rfl, found⟩
  | cons c text ih =>
    have further (more : (if accepts c then repeated accepts greedy next text else none) = some answer) :
        ∃ rest, rest <:+ c :: text ∧ next rest = some answer := by
      by_cases accepted : accepts c = true
      · rw [if_pos accepted] at more
        obtain ⟨rest, suffix, followed⟩ := ih more
        exact ⟨rest, suffix.trans (List.suffix_cons c text), followed⟩
      · rw [if_neg accepted] at more
        cases more
    unfold repeated at found
    cases greedy with
    | true =>
      obtain more | ⟨-, here⟩ := Option.or_eq_some_iff.mp found
      · exact further more
      · exact ⟨_, List.suffix_rfl, here⟩
    | false =>
      obtain here | ⟨-, more⟩ := Option.or_eq_some_iff.mp found
      · exact ⟨_, List.suffix_rfl, here⟩
      · exact further more

theorem run_one {accepts : α → Bool} {next : Groups α → List α → Option β} {groups : Groups α} {text : List α} {answer : β}
    (found : (one accepts).run next groups text = some answer) :
    ∃ c rest, text = c :: rest ∧ accepts c = true ∧ next groups rest = some answer := by
  cases text with
  | nil => cases found
  | cons c rest =>
    rw [run] at found
    by_cases accepted : accepts c = true
    · rw [if_pos accepted] at found
      exact ⟨c, rest, rfl, accepted, found⟩
    · rw [if_neg accepted] at found
      cases found

/-- A match ends with the text or before it. -/
theorem run_suffix {regex : Regex α} {next : Groups α → List α → Option β} {groups : Groups α} {text : List α} {answer : β}
    (found : regex.run next groups text = some answer) :
    ∃ groups' rest, rest <:+ text ∧ next groups' rest = some answer := by
  induction regex generalizing next groups text with
  | empty => exact ⟨groups, text, List.suffix_rfl, found⟩
  | one accepts =>
    obtain ⟨c, rest, rfl, -, followed⟩ := run_one found
    exact ⟨groups, rest, List.suffix_cons c rest, followed⟩
  | many accepts greedy =>
    obtain ⟨rest, suffix, followed⟩ := repeated_some found
    exact ⟨groups, rest, suffix, followed⟩
  | seq first second firstIh secondIh =>
    obtain ⟨groups', rest, suffix, followed⟩ := firstIh found
    obtain ⟨groups'', rest', suffix', followed'⟩ := secondIh followed
    exact ⟨groups'', rest', suffix'.trans suffix, followed'⟩
  | alt first second firstIh secondIh =>
    rw [run] at found
    obtain here | ⟨-, here⟩ := Option.or_eq_some_iff.mp found
    · exact firstIh here
    · exact secondIh here
  | group name inner ih =>
    obtain ⟨groups', rest, suffix, followed⟩ := ih found
    exact ⟨_, rest, suffix, followed⟩
  | atEnd =>
    rw [run] at found
    by_cases ended : text.isEmpty = true
    · rw [if_pos ended] at found
      exact ⟨groups, text, List.suffix_rfl, found⟩
    · rw [if_neg ended] at found
      cases found

end Regex
end Dropway.Lib
