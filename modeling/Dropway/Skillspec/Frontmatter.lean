import Dropway.Lib.Runes
import Dropway.Lib.Trim
import Mathlib.Data.List.Forall2

/-! The frontmatter of a SKILL.md (ParseFrontmatter of internal/skillspec). -/

namespace Dropway.Skillspec
open Lib
open Text (trimSpace)

def maxFrontmatterBytes : Nat := 64 * 2 ^ 10

structure Frontmatter where
  name : Text := []
  description : Text := []
  deriving DecidableEq

def isQuote (c : Char) : Bool := c = '"' || c = '\''

/-- `strings.Trim` of both quotes. -/
def trimQuotes (text : Text) : Text := ((text.dropWhile isQuote).reverse.dropWhile isQuote).reverse

/-- `strings.Cut`, at the first mark. -/
def cut (mark : Char) (text : Text) : Option (Text × Text) :=
  if mark ∈ text then some (text.takeWhile (· ≠ mark), (text.dropWhile (· ≠ mark)).tail) else none

/-- Every CR LF becomes LF. -/
def replaceCRLF : Text → Text
  | '\r' :: '\n' :: rest => '\n' :: replaceCRLF rest
  | c :: rest => c :: replaceCRLF rest
  | [] => []

def dashes : Text := "---".toList

/-- What a line of the block sets. -/
def Frontmatter.readLine (fm : Frontmatter) (line : Text) : Frontmatter :=
  match cut ':' line with
  | none => fm
  | some (key, val) =>
    let val := trimQuotes (trimSpace val)
    if trimSpace key = "name".toList then { fm with name := val }
    else if trimSpace key = "description".toList then { fm with description := val }
    else fm

def Frontmatter.readLines (fm : Frontmatter) : List Text → Frontmatter
  | [] => fm
  | line :: rest => if trimSpace line = dashes then fm else (fm.readLine line).readLines rest

def parseLines : List Text → Frontmatter
  | first :: rest => if trimSpace first = dashes then Frontmatter.readLines {} rest else {}
  | [] => {}

/-- Bytes that are no valid UTF-8 have no frontmatter. -/
def parseFrontmatter (b : Bytes) : Frontmatter :=
  let b := b.take maxFrontmatterBytes
  if Utf8.Valid b then parseLines ((replaceCRLF (Utf8.runeText b)).splitOn '\n') else {}

/-! ### Carriage returns -/

theorem trimSpace_return (line : Text) : trimSpace (line ++ ['\r']) = trimSpace line := by
  apply Text.trimSpace_append_white
  intro c mem
  rw [List.mem_singleton.mp mem]
  rfl

theorem cut_append {mark : Char} {tail : Text} (free : mark ∉ tail) (line : Text) :
    cut mark (line ++ tail) = (cut mark line).map fun parts => (parts.1, parts.2 ++ tail) := by
  induction line with
  | nil =>
    rw [List.nil_append, cut, cut, if_neg free, if_neg List.not_mem_nil]
    rfl
  | cons c rest ih =>
    unfold cut at ih ⊢
    rw [List.cons_append]
    by_cases same : c = mark
    · subst same
      simp
    · have apart : mark ≠ c := Ne.symm same
      simp only [List.mem_cons, apart, false_or, List.takeWhile_cons, List.dropWhile_cons, same, ne_eq,
        not_false_eq_true, decide_true, if_true]
      by_cases here : mark ∈ rest
      · rw [if_pos here, if_pos (List.mem_append_left _ here)] at ih
        obtain ⟨front, back⟩ := Prod.mk.inj (Option.some.inj ih)
        simp only [ne_eq] at front back
        rw [if_pos here, if_pos (List.mem_append_left _ here), front, back]
        rfl
      · have nowhere : mark ∉ rest ++ tail := fun mem => (List.mem_append.mp mem).elim here free
        rw [if_neg here, if_neg nowhere]
        rfl

theorem readLine_return (fm : Frontmatter) (line : Text) : fm.readLine (line ++ ['\r']) = fm.readLine line := by
  unfold Frontmatter.readLine
  rw [cut_append (by decide)]
  cases cut ':' line with
  | none => rfl
  | some parts => simp only [Option.map_some, trimSpace_return]

/-- A line, as it is or with a carriage return behind it. -/
def Returned (line raw : Text) : Prop := raw = line ∨ raw = line ++ ['\r']

private theorem replaced_lines (text : Text) :
    List.Forall₂ Returned ((replaceCRLF text).splitOn '\n') (text.splitOn '\n') := by
  induction text using replaceCRLF.induct with
  | case1 rest ih =>
    rw [replaceCRLF]
    exact .cons (.inr rfl) ih
  | case2 c rest other ih =>
    rw [replaceCRLF.eq_2 c rest other, List.splitOn_cons_eq_if_modifyHead, List.splitOn_cons_eq_if_modifyHead]
    split
    · exact .cons (.inl rfl) ih
    · generalize (replaceCRLF rest).splitOn '\n' = lines at ih ⊢
      generalize rest.splitOn '\n' = raws at ih ⊢
      cases ih with
      | nil => exact .nil
      | cons first later =>
        refine .cons ?_ later
        rcases first with same | returned
        · exact .inl (congrArg (c :: ·) same)
        · exact .inr (congrArg (c :: ·) returned)
  | case3 => exact .cons (.inl rfl) .nil

private theorem Returned.trim {line raw : Text} (returned : Returned line raw) : trimSpace raw = trimSpace line := by
  rcases returned with rfl | rfl
  · rfl
  · exact trimSpace_return line

private theorem Returned.read {line raw : Text} (returned : Returned line raw) (fm : Frontmatter) :
    fm.readLine raw = fm.readLine line := by
  rcases returned with rfl | rfl
  · rfl
  · exact readLine_return fm line

private theorem readLines_returned {lines raws : List Text} (returned : List.Forall₂ Returned lines raws)
    (fm : Frontmatter) : fm.readLines lines = fm.readLines raws := by
  induction returned generalizing fm with
  | nil => rfl
  | cons first _ ih =>
    rw [Frontmatter.readLines, Frontmatter.readLines, first.trim, first.read, ih]

/-- Carriage returns at the ends of lines make no difference. -/
theorem parseLines_replaced (text : Text) :
    parseLines ((replaceCRLF text).splitOn '\n') = parseLines (text.splitOn '\n') := by
  have returned := replaced_lines text
  generalize (replaceCRLF text).splitOn '\n' = lines at returned ⊢
  generalize text.splitOn '\n' = raws at returned ⊢
  cases returned with
  | nil => rfl
  | cons first later => rw [parseLines, parseLines, first.trim, readLines_returned later]

theorem parseFrontmatter_encode {text : Text} (short : (Utf8.encode text).length ≤ maxFrontmatterBytes) :
    parseFrontmatter (Utf8.encode text) = parseLines (text.splitOn '\n') := by
  unfold parseFrontmatter
  rw [List.take_of_length_le short, if_pos (Utf8.valid_encode text), Utf8.runeText_encode, parseLines_replaced]

/-! ### The block -/

/-- A text that is a block of frontmatter: a line of dashes, lines that are none, and a line
of dashes. -/
structure Block (block : Text) (inner : List Text) : Prop where
  lines : ∃ first last, block.splitOn '\n' = first :: inner ++ [last] ∧
    trimSpace first = dashes ∧ trimSpace last = dashes
  unclosed : ∀ line ∈ inner, trimSpace line ≠ dashes

theorem readLines_block {inner : List Text} {last : Text} (unclosed : ∀ line ∈ inner, trimSpace line ≠ dashes)
    (closing : trimSpace last = dashes) (fm : Frontmatter) (more : List Text) :
    fm.readLines (inner ++ last :: more) = inner.foldl Frontmatter.readLine fm := by
  induction inner generalizing fm with
  | nil => exact if_pos closing
  | cons line rest ih =>
    obtain ⟨here, later⟩ := List.forall_mem_cons.mp unclosed
    rw [List.cons_append, Frontmatter.readLines, if_neg here, ih later, List.foldl_cons]

/-- What a block sets, whatever follows its last line. -/
theorem Block.parse {block : Text} {inner : List Text} (framed : Block block inner) {rest : Text}
    (ended : rest = [] ∨ rest.head? = some '\n') :
    parseLines ((block ++ rest).splitOn '\n') = inner.foldl Frontmatter.readLine {} := by
  obtain ⟨⟨first, last, lines, opening, closing⟩, inside⟩ := framed
  have more : ∃ more, (block ++ rest).splitOn '\n' = first :: (inner ++ last :: more) := by
    cases rest with
    | nil => exact ⟨[], by rw [List.append_nil, lines, List.cons_append]⟩
    | cons c rest =>
      rcases ended with none | mark
      · cases none
      · cases mark
        refine ⟨rest.splitOn '\n', ?_⟩
        rw [List.splitOn_append_cons_self, lines]
        simp
  obtain ⟨more, shape⟩ := more
  rw [shape, parseLines, if_pos opening, readLines_block inside closing]

end Dropway.Skillspec
