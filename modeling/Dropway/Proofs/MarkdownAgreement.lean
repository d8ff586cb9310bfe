import Dropway.Lib.Ascii
import Dropway.Lib.RegexAlike
import Dropway.Lib.Scalars
import Dropway.Proofs.ChatMarkup
import Dropway.Proofs.MarkdownBlocks

/-! The two ports of the Markdown viewer render ASCII alike: step by step they do the same
with related texts, and on ASCII their languages tell characters apart in the same way. -/

namespace Dropway.Markdown
open Lib Regex Dialect

variable {α β : Type}

/-- What the dialects have in common, on related characters; a line feed is not one to
stand before a fence. -/
structure Corresponds (R : α → β → Prop) (D : Dialect α) (E : Dialect β) : Prop where
  code : ∀ a b, R a b → D.code a = E.code b
  char : ∀ c : Char, c.toNat < 0x80 → c.toNat ∉ [0x0B, 0x0C, 0x0D] → R (D.char c) (E.char c)
  space : Agree R D.space E.space
  dot : Agree R D.dot E.dot
  white : Agree R D.white E.white
  indent : ∀ a b, R a b → D.code a ≠ 0x0A → D.indent a = E.indent b
  esc : ∀ s t, List.Forall₂ R s t → List.Forall₂ R (D.esc s) (E.esc t)
  isHR : ∀ s t, List.Forall₂ R s t → D.isHR s = E.isHR t

variable {R : α → β → Prop} {D : Dialect α} {E : Dialect β}

/-! ### Related lists -/

theorem dropWhile_alike {γ δ : Type} {S : γ → δ → Prop} {p : γ → Bool} {q : δ → Bool} (same : Agree S p q) {s : List γ}
    {t : List δ} (related : List.Forall₂ S s t) : List.Forall₂ S (s.dropWhile p) (t.dropWhile q) := by
  induction related with
  | nil => exact .nil
  | cons first later ih =>
    rw [List.dropWhile_cons, List.dropWhile_cons, same _ _ first]
    split
    · exact ih
    · exact .cons first later

theorem takeWhile_alike {γ δ : Type} {S : γ → δ → Prop} {p : γ → Bool} {q : δ → Bool} (same : Agree S p q) {s : List γ}
    {t : List δ} (related : List.Forall₂ S s t) : List.Forall₂ S (s.takeWhile p) (t.takeWhile q) := by
  induction related with
  | nil => exact .nil
  | cons first later ih =>
    rw [List.takeWhile_cons, List.takeWhile_cons, same _ _ first]
    split
    · exact .cons first ih
    · exact .nil

theorem isEmpty_alike {γ δ : Type} {S : γ → δ → Prop} {s : List γ} {t : List δ} (related : List.Forall₂ S s t) :
    s.isEmpty = t.isEmpty := by
  cases related with
  | nil => rfl
  | cons first later => rfl

theorem map_alike {γ δ γ' δ' : Type} {S : γ → δ → Prop} {T : γ' → δ' → Prop} {f : γ → γ'} {g : δ → δ'}
    (images : ∀ a b, S a b → T (f a) (g b)) {s : List γ} {t : List δ} (related : List.Forall₂ S s t) :
    List.Forall₂ T (s.map f) (t.map g) := by
  induction related with
  | nil => exact .nil
  | cons first later ih => exact .cons (images _ _ first) ih

theorem join_alike {separator : List α} {separator' : List β} (between : List.Forall₂ R separator separator')
    {parts : List (List α)} {parts' : List (List β)} (related : List.Forall₂ (List.Forall₂ R) parts parts') :
    List.Forall₂ R (join separator parts) (join separator' parts') := by
  induction related with
  | nil => exact .nil
  | cons first later ih =>
    cases later with
    | nil => exact first
    | cons second later => exact List.rel_append first (List.rel_append between ih)

theorem splitOnP_alike {p : α → Bool} {q : β → Bool} (same : Agree R p q) {source : List α} {source' : List β}
    (related : List.Forall₂ R source source') :
    List.Forall₂ (List.Forall₂ R) (source.splitOnP p) (source'.splitOnP q) := by
  induction related with
  | nil => exact .cons .nil .nil
  | cons first later ih =>
    rw [List.splitOnP_cons_eq_if_modifyHead, List.splitOnP_cons_eq_if_modifyHead, same _ _ first]
    split
    · exact .cons .nil ih
    · generalize List.splitOnP p _ = parts at ih
      generalize List.splitOnP q _ = parts' at ih
      cases ih with
      | nil => exact .nil
      | cons head tail => exact .cons (.cons first head) tail

/-! ### Classes and literals -/

section

variable (C : Corresponds R D E)
include C

theorem codes_alike {s : List α} {t : List β} (related : List.Forall₂ R s t) : s.map D.code = t.map E.code := by
  induction related with
  | nil => rfl
  | cons first later ih => rw [List.map_cons, List.map_cons, ih, C.code _ _ first]

theorem is_alike (c : Char) : Agree R (D.is c) (E.is c) := by
  intro a b related
  unfold Dialect.is
  rw [C.code a b related]

theorem isNot_alike (c : Char) : Agree R (D.isNot c) (E.isNot c) := by
  intro a b related
  unfold Dialect.isNot
  rw [C.code a b related]

theorem digit_alike : Agree R D.digit E.digit := by
  intro a b related
  unfold Dialect.digit
  rw [C.code a b related]

theorem letter_alike : Agree R D.letter E.letter := by
  intro a b related
  unfold Dialect.letter
  rw [C.code a b related]

theorem text_alike {words : String}
    (ascii : words.toList.all (fun c => decide (c.toNat < 0x80 ∧ c.toNat ∉ [0x0B, 0x0C, 0x0D])) = true) :
    List.Forall₂ R (D.text words) (E.text words) := by
  unfold Dialect.text
  generalize words.toList = letters at ascii
  induction letters with
  | nil => exact .nil
  | cons c letters ih =>
    rw [List.all_cons, Bool.and_eq_true, decide_eq_true_eq] at ascii
    exact .cons (C.char c ascii.1.1 ascii.1.2) (ih ascii.2)

theorem wrap_alike {before behind : String} {inner : List α} {inner' : List β}
    (first : before.toList.all (fun c => decide (c.toNat < 0x80 ∧ c.toNat ∉ [0x0B, 0x0C, 0x0D])) = true)
    (last : behind.toList.all (fun c => decide (c.toNat < 0x80 ∧ c.toNat ∉ [0x0B, 0x0C, 0x0D])) = true)
    (related : List.Forall₂ R inner inner') :
    List.Forall₂ R (D.wrap before inner behind) (E.wrap before inner' behind) :=
  List.rel_append (text_alike C first) (List.rel_append related (text_alike C last))

theorem number_alike (n : Nat) : List.Forall₂ R (D.number n) (E.number n) := by
  have digits := (JsonText.decimal_digits n).2
  unfold Dialect.number
  generalize JsonText.decimal n = letters at digits
  induction letters with
  | nil => exact .nil
  | cons c letters ih =>
    obtain ⟨digit, later⟩ := List.forall_mem_cons.mp digits
    unfold Char.isDigit at digit
    simp only [Bool.and_eq_true, decide_eq_true_eq] at digit
    have least : 0x30 ≤ c.toNat := digit.1
    have most : c.toNat ≤ 0x39 := digit.2
    refine .cons (C.char c (by omega) ?_) (ih later)
    simp only [List.mem_cons, List.not_mem_nil, or_false]
    omega

theorem value_alike {s : List α} {t : List β} (related : List.Forall₂ R s t) : D.value s = E.value t := by
  have from_ (n : Nat) : s.foldl (fun n a => 10 * n + (D.code a - 0x30)) n =
      t.foldl (fun n b => 10 * n + (E.code b - 0x30)) n := by
    induction related generalizing n with
    | nil => rfl
    | cons first later ih => rw [List.foldl_cons, List.foldl_cons, C.code _ _ first, ih]
  exact from_ 0

theorem trim_alike {s : List α} {t : List β} (related : List.Forall₂ R s t) : List.Forall₂ R (D.trim s) (E.trim t) := by
  unfold Dialect.trim List.rdropWhile
  exact List.rel_reverse (dropWhile_alike C.white (List.rel_reverse (dropWhile_alike C.white related)))

/-! ### Spans -/

theorem codeSpan_alike : Alike R D.codeSpan E.codeSpan :=
  .seq (.one (is_alike C _)) (.seq (.group (.some_ (isNot_alike C _))) (.one (is_alike C _)))

theorem target_alike : Alike R D.target E.target := by
  have outside : Agree R (fun a => D.isNot ')' a && !D.space a) (fun b => E.isNot ')' b && !E.space b) := by
    intro a b related
    dsimp only
    rw [isNot_alike C _ a b related, C.space a b related]
  exact .seq (.one (is_alike C _)) (.seq (.one (is_alike C _)) (.seq (.group (.some_ outside)) (.one (is_alike C _))))

theorem img_alike : Alike R D.img E.img :=
  .seq (.one (is_alike C _)) (.seq (.one (is_alike C _)) (.seq (.group (.many (isNot_alike C _))) (target_alike C)))

theorem link_alike : Alike R D.link E.link :=
  .seq (.one (is_alike C _)) (.seq (.group (.some_ (isNot_alike C _))) (target_alike C))

theorem between_alike (mark : Char) (marks : Nat) : Alike R (D.between mark marks) (E.between mark marks) :=
  .seq (.word (is_alike C mark) marks) (.seq (.group (.some_ (isNot_alike C mark))) (.word (is_alike C mark) marks))

theorem placeholder_alike : Alike R D.placeholder E.placeholder :=
  .seq (.one (is_alike C _)) (.seq (.group (.some_ (digit_alike C))) (.one (is_alike C _)))

theorem scheme_alike : Alike R D.scheme E.scheme := by
  have later : Agree R (fun a => D.letter a || D.digit a || D.is '+' a || D.is '.' a || D.is '-' a)
      (fun b => E.letter b || E.digit b || E.is '+' b || E.is '.' b || E.is '-' b) := by
    intro a b related
    dsimp only
    rw [letter_alike C a b related, digit_alike C a b related, is_alike C _ a b related, is_alike C _ a b related,
      is_alike C _ a b related]
  exact .seq (.group (.seq (.one (letter_alike C)) (.many later))) (.one (is_alike C _))

theorem safeUrl_alike {url : List α} {url' : List β} (related : List.Forall₂ R url url') :
    List.Forall₂ R (D.safeUrl url) (E.safeUrl url') := by
  have trimmed := trim_alike C related
  have found := exec_alike (scheme_alike C) trimmed
  unfold Dialect.safeUrl
  dsimp only
  generalize D.scheme.exec (D.trim url) = one at found
  generalize E.scheme.exec (E.trim url') = other at found
  cases found with
  | none => exact trimmed
  | @some one other both =>
    have codes := codes_alike C (get_alike both.1 1)
    have lower : (one.1.get 1).map (fun a => lowerCode (D.code a)) = (other.1.get 1).map fun b => lowerCode (E.code b) := by
      have mapped := congrArg (List.map lowerCode) codes
      rw [List.map_map, List.map_map] at mapped
      exact mapped
    dsimp only
    rw [lower]
    split
    · exact trimmed
    · exact text_alike C (by decide)

theorem takeCodes_alike {src : List α} {src' : List β} (related : List.Forall₂ R src src') :
    List.Forall₂ R (D.takeCodes src).1 (E.takeCodes src').1 ∧
      List.Forall₂ (List.Forall₂ R) (D.takeCodes src).2 (E.takeCodes src').2 := by
  refine replaceFrom_alike (S := List.Forall₂ (List.Forall₂ R)) (codeSpan_alike C) ?_ 0 .nil related
  intro codes codes' groups groups' taken known
  have nul := C.char nul (by decide) (by decide)
  refine ⟨.cons nul (List.rel_append ?_ (.cons nul .nil)), List.rel_append taken (.cons ?_ .nil)⟩
  · rw [taken.length_eq]
    exact number_alike C _
  · exact wrap_alike C (by decide) (by decide) (C.esc _ _ (get_alike known 1))

theorem images_alike {out : List α} {out' : List β} (related : List.Forall₂ R out out') :
    List.Forall₂ R (D.images out) (E.images out') := by
  refine replaceAll_alike (img_alike C) (fun groups groups' known => ?_) related
  refine List.rel_append (text_alike C (by decide)) (List.rel_append ?_ ?_)
  · exact C.esc _ _ (safeUrl_alike C (get_alike known 2))
  · exact List.rel_append (text_alike C (by decide)) (List.rel_append (get_alike known 1) (text_alike C (by decide)))

theorem links_alike {out : List α} {out' : List β} (related : List.Forall₂ R out out') :
    List.Forall₂ R (D.links out) (E.links out') := by
  refine replaceAll_alike (link_alike C) (fun groups groups' known => ?_) related
  refine List.rel_append (text_alike C (by decide)) (List.rel_append ?_ ?_)
  · exact C.esc _ _ (safeUrl_alike C (get_alike known 2))
  · exact wrap_alike C (by decide) (by decide) (get_alike known 1)

theorem emphasis_alike {out : List α} {out' : List β} (related : List.Forall₂ R out out') :
    List.Forall₂ R (D.emphasis out) (E.emphasis out') := by
  have strong (mark : Char) {out : List α} {out' : List β} (related : List.Forall₂ R out out') :
      List.Forall₂ R (replaceAll (D.between mark 2) (fun groups => D.wrap "<strong>" (groups.get 1) "</strong>") out)
        (replaceAll (E.between mark 2) (fun groups => E.wrap "<strong>" (groups.get 1) "</strong>") out') :=
    replaceAll_alike (between_alike C mark 2)
      (fun _ _ known => wrap_alike C (by decide) (by decide) (get_alike known 1)) related
  have em (mark : Char) {out : List α} {out' : List β} (related : List.Forall₂ R out out') :
      List.Forall₂ R (replaceAll (D.between mark 1) (fun groups => D.wrap "<em>" (groups.get 1) "</em>") out)
        (replaceAll (E.between mark 1) (fun groups => E.wrap "<em>" (groups.get 1) "</em>") out') :=
    replaceAll_alike (between_alike C mark 1)
      (fun _ _ known => wrap_alike C (by decide) (by decide) (get_alike known 1)) related
  exact em '_' (em '*' (strong '_' (strong '*' related)))

theorem restore_alike {codes : List (List α)} {codes' : List (List β)} (taken : List.Forall₂ (List.Forall₂ R) codes codes')
    {out : List α} {out' : List β} (related : List.Forall₂ R out out') :
    List.Forall₂ R (D.restore codes out) (E.restore codes' out') := by
  refine replaceAll_alike (placeholder_alike C) (fun groups groups' known => ?_) related
  rw [value_alike C (get_alike known 1)]
  generalize E.value (groups'.get 1) = index
  induction taken generalizing index with
  | nil => exact .nil
  | cons first later ih =>
    cases index with
    | zero => exact first
    | succ index => exact ih index

theorem renderInline_alike {src : List α} {src' : List β} (related : List.Forall₂ R src src') :
    List.Forall₂ R (D.renderInline src) (E.renderInline src') := by
  obtain ⟨text, codes⟩ := takeCodes_alike C related
  exact restore_alike C codes (emphasis_alike C (links_alike C (images_alike C (C.esc _ _ text))))

/-! ### Blocks -/

theorem heading_alike : Alike R D.heading E.heading :=
  .seq (.group (.upTo (is_alike C _) 5)) (.seq (.some_ C.space) (.seq (.group (.many C.dot)) (.seq (.many C.space)
    (.seq (.many (is_alike C _)) (.seq (.many C.space) .atEnd)))))

theorem fence_alike : Alike R D.fence E.fence :=
  .seq (.many C.space) (.seq (.group (.alt (.word (is_alike C _) 3) (.word (is_alike C _) 3)))
    (.seq (.group (.many C.dot)) .atEnd))

theorem ulItem_alike : Alike R D.ulItem E.ulItem := by
  have mark : Agree R (fun a => D.is '-' a || D.is '*' a || D.is '+' a) (fun b => E.is '-' b || E.is '*' b || E.is '+' b) := by
    intro a b related
    dsimp only
    rw [is_alike C _ a b related, is_alike C _ a b related, is_alike C _ a b related]
  exact .seq (.many C.space) (.seq (.one mark) (.seq (.some_ C.space) (.seq (.group (.many C.dot)) .atEnd)))

theorem olItem_alike : Alike R D.olItem E.olItem := by
  have mark : Agree R (fun a => D.is '.' a || D.is ')' a) (fun b => E.is '.' b || E.is ')' b) := by
    intro a b related
    dsimp only
    rw [is_alike C _ a b related, is_alike C _ a b related]
  exact .seq (.many C.space) (.seq (.some_ (digit_alike C)) (.seq (.one mark) (.seq (.some_ C.space)
    (.seq (.group (.many C.dot)) .atEnd))))

theorem blockquote_alike : Alike R D.blockquote E.blockquote :=
  .seq (.many C.space) (.seq (.one (is_alike C _)) (.seq (.optional C.space) (.seq (.group (.many C.dot)) .atEnd)))

end

theorem matched_alike {regex : Regex α} {regex' : Regex β} (alike : Alike R regex regex') (name : Nat) {line : List α}
    {line' : List β} (related : List.Forall₂ R line line') :
    List.Forall₂ R (matched regex name line) (matched regex' name line') := by
  have found := exec_alike alike related
  unfold matched
  generalize regex.exec line = one at found
  generalize regex'.exec line' = other at found
  cases found with
  | none => exact .nil
  | some both => exact get_alike both.1 name

/-- Related lines, each a single one. -/
def Line (R : α → β → Prop) (D : Dialect α) (line : List α) (line' : List β) : Prop :=
  List.Forall₂ R line line' ∧ Single D line

/-- Blocks of the same kind with related lines. -/
inductive BlockAlike (R : α → β → Prop) (D : Dialect α) : Block α → Block β → Prop
  | blank {line : List α} {line' : List β} (related : Line R D line line') : BlockAlike R D (.blank line) (.blank line')
  | fence {opening : List α} {opening' : List β} {code : List (List α)} {code' : List (List β)} {closing : Option (List α)}
      {closing' : Option (List β)} (opens : Line R D opening opening') (within : List.Forall₂ (Line R D) code code') :
      BlockAlike R D (.fence opening code closing) (.fence opening' code' closing')
  | heading {line : List α} {line' : List β} (related : Line R D line line') :
      BlockAlike R D (.heading line) (.heading line')
  | rule {line : List α} {line' : List β} : BlockAlike R D (.rule line) (.rule line')
  | quote {lines : List (List α)} {lines' : List (List β)} (related : List.Forall₂ (Line R D) lines lines') :
      BlockAlike R D (.quote lines) (.quote lines')
  | list {ordered : Bool} {lines : List (List α)} {lines' : List (List β)} (related : List.Forall₂ (Line R D) lines lines') :
      BlockAlike R D (.list ordered lines) (.list ordered lines')
  | paragraph {lines : List (List α)} {lines' : List (List β)} (related : List.Forall₂ (Line R D) lines lines') :
      BlockAlike R D (.paragraph lines) (.paragraph lines')

theorem regex_alike {regex : Regex α} {regex' : Regex β} (alike : Alike R regex regex') :
    Agree (Line R D) regex.test regex'.test := fun _ _ related => test_alike alike related.1

theorem single_alike (code : ∀ a b, R a b → D.code a = E.code b) {line : List α} {line' : List β}
    (related : Line R D line line') : Single E line' := by
  obtain ⟨related, single⟩ := related
  unfold Single at *
  induction related with
  | nil => exact List.forall_mem_nil _
  | cons first later ih =>
    obtain ⟨here, more⟩ := List.forall_mem_cons.mp single
    rw [code _ _ first] at here
    exact List.forall_mem_cons.mpr ⟨here, ih more⟩

theorem single_left {lines : List (List α)} {lines' : List (List β)} (related : List.Forall₂ (Line R D) lines lines') :
    ∀ line ∈ lines, Single D line := by
  induction related with
  | nil => exact List.forall_mem_nil _
  | cons first later ih => exact List.forall_mem_cons.mpr ⟨first.2, ih⟩

theorem single_right (code : ∀ a b, R a b → D.code a = E.code b) {lines : List (List α)} {lines' : List (List β)}
    (related : List.Forall₂ (Line R D) lines lines') : ∀ line ∈ lines', Single E line := by
  induction related with
  | nil => exact List.forall_mem_nil _
  | cons first later ih => exact List.forall_mem_cons.mpr ⟨single_alike code first, ih⟩

theorem line_alike {lines : List (List α)} {lines' : List (List β)} (related : List.Forall₂ (List.Forall₂ R) lines lines')
    (single : ∀ line ∈ lines, Single D line) : List.Forall₂ (Line R D) lines lines' := by
  induction related with
  | nil => exact .nil
  | cons first later ih =>
    obtain ⟨here, more⟩ := List.forall_mem_cons.mp single
    exact .cons ⟨first, here⟩ (ih more)

theorem span_alike {p : List α → Bool} {q : List β → Bool} (same : Agree (Line R D) p q) {lines : List (List α)}
    {lines' : List (List β)} (related : List.Forall₂ (Line R D) lines lines') :
    List.Forall₂ (Line R D) (lines.span p).1 (lines'.span q).1 ∧ List.Forall₂ (Line R D) (lines.span p).2 (lines'.span q).2 := by
  rw [List.span_eq_takeWhile_dropWhile, List.span_eq_takeWhile_dropWhile]
  exact ⟨takeWhile_alike same related, dropWhile_alike same related⟩

section

variable (C : Corresponds R D E)
include C

theorem blank_alike : Agree (Line R D) D.blank E.blank :=
  fun _ _ related => isEmpty_alike (trim_alike C related.1)

theorem closes_alike {marker : List α} {marker' : List β} (mark : List.Forall₂ R marker marker') :
    Agree (Line R D) (D.closes marker) (E.closes marker') := by
  intro line line' related
  obtain ⟨related, single⟩ := related
  have indented : List.Forall₂ R (line.dropWhile D.indent) (line'.dropWhile E.indent) := by
    induction related with
    | nil => exact .nil
    | cons first later ih =>
      obtain ⟨here, more⟩ := List.forall_mem_cons.mp single
      rw [List.dropWhile_cons, List.dropWhile_cons, C.indent _ _ first here.1]
      split
      · exact ih more
      · exact .cons first later
  unfold Dialect.closes
  rw [codes_alike C mark, codes_alike C indented]

theorem plain_alike : Agree (Line R D) D.plain E.plain := by
  intro line line' related
  unfold Dialect.plain
  rw [blank_alike C line line' related, regex_alike (fence_alike C) line line' related,
    regex_alike (heading_alike C) line line' related, C.isHR line line' related.1,
    regex_alike (blockquote_alike C) line line' related, regex_alike (ulItem_alike C) line line' related,
    regex_alike (olItem_alike C) line line' related]

theorem pass_alike {line : List α} {line' : List β} (first : Line R D line line') {rest : List (List α)}
    {rest' : List (List β)} (later : List.Forall₂ (Line R D) rest rest') :
    BlockAlike R D (D.pass line rest).1 (E.pass line' rest').1 ∧
      List.Forall₂ (Line R D) (D.pass line rest).2 (E.pass line' rest').2 := by
  unfold Dialect.pass
  rw [blank_alike C line line' first, regex_alike (fence_alike C) line line' first,
    regex_alike (heading_alike C) line line' first, C.isHR line line' first.1,
    regex_alike (blockquote_alike C) line line' first, regex_alike (ulItem_alike C) line line' first,
    regex_alike (olItem_alike C) line line' first]
  split
  · exact ⟨.blank first, later⟩
  split
  · have open_ : Agree (Line R D) (fun other => !D.closes (matched D.fence 1 line) other)
        (fun other => !E.closes (matched E.fence 1 line') other) := by
      intro other other' related
      dsimp only
      rw [closes_alike C (matched_alike (fence_alike C) 1 first.1) other other' related]
    obtain ⟨code, behind⟩ := span_alike open_ later
    refine ⟨.fence first code, ?_⟩
    dsimp only
    generalize (rest.span fun other => !D.closes (matched D.fence 1 line) other).2 = one at behind
    generalize (rest'.span fun other => !E.closes (matched E.fence 1 line') other).2 = other at behind
    cases behind with
    | nil => exact .nil
    | cons closing behind => exact behind
  split
  · exact ⟨.heading first, later⟩
  split
  · exact ⟨.rule, later⟩
  split
  · obtain ⟨taken, left⟩ := span_alike (regex_alike (blockquote_alike C)) (.cons first later)
    exact ⟨.quote taken, left⟩
  split
  · generalize (E.olItem.test line' && !E.ulItem.test line') = ordered
    have pattern : Alike R (if ordered = true then D.olItem else D.ulItem) (if ordered = true then E.olItem else E.ulItem) := by
      split
      · exact olItem_alike C
      · exact ulItem_alike C
    obtain ⟨taken, left⟩ := span_alike (regex_alike pattern) (.cons first later)
    exact ⟨.list taken, left⟩
  · obtain ⟨taken, left⟩ := span_alike (plain_alike C) (.cons first later)
    exact ⟨.paragraph taken, left⟩

theorem feed_alike : List.Forall₂ R D.feed E.feed := .cons (C.char _ (by decide) (by decide)) .nil

theorem rendered_alike {lines : List (List α)} {lines' : List (List β)} (related : List.Forall₂ (Line R D) lines lines') :
    List.Forall₂ (List.Forall₂ R) (lines.map D.renderInline) (lines'.map E.renderInline) :=
  map_alike (fun _ _ related => renderInline_alike C related.1) related

theorem inner_alike {lines : List (List α)} {lines' : List (List β)} (related : List.Forall₂ (Line R D) lines lines') :
    List.Forall₂ (List.Forall₂ R) (D.inner lines) (E.inner lines') :=
  map_alike (fun _ _ related => matched_alike (blockquote_alike C) 1 related.1) related

/-- Blocks become the same, if what is in quotes does. -/
theorem html_alike {block : Block α} {block' : Block β} (alike : BlockAlike R D block block')
    {render : List α → Option (List (List α))} {render' : List β → Option (List (List β))}
    (quotes : ∀ quoted quoted', block = .quote quoted → block' = .quote quoted' →
      Option.Rel (List.Forall₂ (List.Forall₂ R)) (render (join D.feed (D.inner quoted)))
        (render' (join E.feed (E.inner quoted')))) :
    Option.Rel (List.Forall₂ (List.Forall₂ R)) (D.html render block) (E.html render' block') := by
  cases alike with
  | blank related => exact .some .nil
  | @fence opening opening' code code' _ _ opens within =>
    have lang : List.Forall₂ R ((D.trim (matched D.fence 2 opening)).takeWhile fun a => !D.white a)
        ((E.trim (matched E.fence 2 opening')).takeWhile fun b => !E.white b) := by
      apply takeWhile_alike
      · intro a b related
        dsimp only
        rw [C.white a b related]
      · exact trim_alike C (matched_alike (fence_alike C) 2 opens.1)
    have listed : List.Forall₂ (List.Forall₂ R) code code' := within.imp fun _ _ related => related.1
    refine .some (.cons (List.rel_append (text_alike C (by decide)) (List.rel_append ?_ ?_)) .nil)
    · rw [isEmpty_alike lang]
      split
      · exact .nil
      · exact wrap_alike C (by decide) (by decide) (C.esc _ _ lang)
    · exact wrap_alike C (by decide) (by decide) (C.esc _ _ (join_alike (feed_alike C) listed))
  | @heading line line' related =>
    have level := matched_alike (heading_alike C) 1 related.1
    have text := renderInline_alike C (matched_alike (heading_alike C) 2 related.1)
    refine .some (.cons (List.rel_append (text_alike C (by decide)) ?_) .nil)
    rw [level.length_eq]
    apply List.rel_append (number_alike C _)
    apply List.rel_append (wrap_alike C (by decide) (by decide) text)
    exact List.rel_append (number_alike C _) (text_alike C (by decide))
  | rule => exact .some (.cons (text_alike C (by decide)) .nil)
  | @quote lines lines' related =>
    rw [html_quote, html_quote]
    have within := quotes lines lines' rfl rfl
    generalize render (join D.feed (D.inner lines)) = one at within
    generalize render' (join E.feed (E.inner lines')) = other at within
    cases within with
    | none => exact .none
    | some out => exact .some (.cons (wrap_alike C (by decide) (by decide) (join_alike (feed_alike C) out)) .nil)
  | @list ordered lines lines' related =>
    have pattern : Alike R (if ordered = true then D.olItem else D.ulItem) (if ordered = true then E.olItem else E.ulItem) := by
      split
      · exact olItem_alike C
      · exact ulItem_alike C
    have item (line : List α) (line' : List β) (related : Line R D line line') :
        List.Forall₂ R (D.wrap "<li>" (D.renderInline (matched (if ordered = true then D.olItem else D.ulItem) 1 line)) "</li>")
          (E.wrap "<li>" (E.renderInline (matched (if ordered = true then E.olItem else E.ulItem) 1 line')) "</li>") :=
      wrap_alike C (by decide) (by decide) (renderInline_alike C (matched_alike pattern 1 related.1))
    have items := List.rel_flatten (map_alike item related)
    refine .some (.cons ?_ .nil)
    cases ordered with
    | true => exact wrap_alike C (by decide) (by decide) items
    | false => exact wrap_alike C (by decide) (by decide) items
  | paragraph related =>
    exact .some (.cons (wrap_alike C (by decide) (by decide)
      (join_alike (text_alike C (by decide)) (rendered_alike C related))) .nil)

/-- The loop does the same on related lines. -/
theorem loop_alike (lawful : Lawful D) (lawful' : Lawful E) (fuel : Nat) {lines : List (List α)} {lines' : List (List β)}
    (related : List.Forall₂ (Line R D) lines lines') :
    Option.Rel (List.Forall₂ (List.Forall₂ R)) (D.run fuel lines) (E.run fuel lines') := by
  induction fuel generalizing lines lines' with
  | zero =>
    cases related with
    | nil => exact .some .nil
    | cons first later => exact .none
  | succ fuel ih =>
    cases related with
    | nil => exact .some .nil
    | @cons line line' rest rest' first later =>
      have whole := pass_lines (D := D) line rest
      have fits := pass_fits (D := D) line rest
      have some_ := pass_lines_ne_nil (D := D) line rest
      obtain ⟨block, left⟩ := pass_alike C first later
      have here : Option.Rel (List.Forall₂ (List.Forall₂ R))
          (D.html (fun source => D.run fuel (D.lines source)) (D.pass line rest).1)
          (E.html (fun source => E.run fuel (E.lines source)) (E.pass line' rest').1) := by
        apply html_alike C block
        intro quoted quoted' same same'
        rw [same] at whole fits some_ block
        rw [same'] at block
        cases block with
        | quote taken =>
          -- the lines of a quote are split again where they were joined
          have part := single_left (R := R) (D := D) (.cons first later)
          have within := line_alike (inner_alike C taken) (inner_single fits fun other mem =>
            part other (whole ▸ List.mem_append_left _ mem))
          have filled : D.inner quoted ≠ [] := fun none => some_ (List.map_eq_nil_iff.mp none)
          have filled' : E.inner quoted' ≠ [] := fun none =>
            filled (List.length_eq_zero_iff.mp (within.length_eq.trans (List.length_eq_zero_iff.mpr none)))
          rw [lines_join lawful filled (single_left within), lines_join lawful' filled' (single_right C.code within)]
          exact ih within
      have more := ih left
      rw [Dialect.run, Dialect.run]
      generalize D.html (fun source => D.run fuel (D.lines source)) (D.pass line rest).1 = one at here
      generalize E.html (fun source => E.run fuel (E.lines source)) (E.pass line' rest').1 = other at here
      generalize D.run fuel (D.pass line rest).2 = next at more
      generalize E.run fuel (E.pass line' rest').2 = next' at more
      cases here with
      | none => exact .none
      | some out =>
        cases more with
        | none => exact .none
        | some others => exact .some (List.rel_append out others)

/-- Sources that are the same once their lines end alike. -/
theorem renderMarkdown_alike (lawful : Lawful D) (lawful' : Lawful E) (fuel : Nat) {source : List α} {source' : List β}
    (related : List.Forall₂ R (D.newlines source) (E.newlines source')) :
    Option.Rel (List.Forall₂ R) (D.renderMarkdown fuel source) (E.renderMarkdown fuel source') := by
  have lines : List.Forall₂ (Line R D) (D.lines source) (E.lines source') :=
    line_alike (splitOnP_alike (is_alike C '\n') related) (lines_single lawful source)
  have ran := loop_alike C lawful lawful' fuel lines
  unfold Dialect.renderMarkdown
  generalize D.run fuel (D.lines source) = one at ran
  generalize E.run fuel (E.lines source') = other at ran
  cases ran with
  | none => exact .none
  | some out => exact .some (join_alike (feed_alike C) out)

end

/-! ### The ports on ASCII -/

open Units Utf8

/-- One character in both ports, with those left out that their white space takes differently. -/
def SameChar (u : UInt16) (r : Rune) : Prop :=
  ∃ c : Char, c.toNat < 0x80 ∧ c.toNat ∉ [0x0B, 0x0C, 0x0D] ∧ u = unit c ∧ r = .char c

theorem unit_toNat {c : Char} (small : c.toNat < 0x80) : (unit c).toNat = c.toNat := toNat_ofNat (by omega)

theorem unit_eq_iff {c d : Char} (small : c.toNat < 0x80) (other : d.toNat < 0x80) : unit c = unit d ↔ c = d := by
  constructor
  · intro same
    have numbers := congrArg UInt16.toNat same
    rw [unit_toNat small, unit_toNat other] at numbers
    exact Char.toNat_inj.mp numbers
  · exact congrArg unit

/-- Classes that hold of the same numbers below 128, but for those left out. -/
theorem agree_of_numbers {p : UInt16 → Bool} {q : Rune → Bool} (f g : Nat → Bool)
    (left : ∀ u, p u = f u.toNat) (right : ∀ c : Char, q (.char c) = g c.toNat)
    (same : ∀ n < 0x80, n ∉ [0x0B, 0x0C, 0x0D] → f n = g n) : Agree SameChar p q := by
  intro u r related
  obtain ⟨c, small, kept, rfl, rfl⟩ := related
  rw [left, right, unit_toNat small, same _ small kept]

theorem space_same : Agree SameChar isSpace Serve.MarkdownPage.isSpace :=
  agree_of_numbers (fun n => spaces.contains n) (fun n => decide (n ∈ [0x09, 0x0A, 0x0C, 0x0D, 0x20]))
    (fun _ => rfl) (fun _ => rfl) (by decide)

theorem white_same : Agree SameChar isSpace Rune.isWhite :=
  agree_of_numbers (fun n => spaces.contains n)
    (fun n => (0x09 ≤ n && n ≤ 0x0D) || (0x2000 ≤ n && n ≤ 0x200A) ||
      [0x20, 0x85, 0xA0, 0x1680, 0x2028, 0x2029, 0x202F, 0x205F, 0x3000].contains n)
    (fun _ => rfl) (fun _ => rfl) (by decide)

theorem dot_same : Agree SameChar Edge.MarkdownPage.isDot Serve.MarkdownPage.dialect.dot :=
  agree_of_numbers (fun n => decide (n ∉ [0x0A, 0x0D, 0x2028, 0x2029])) (fun n => decide (n ≠ 0x0A))
    (fun _ => rfl) (fun _ => rfl) (by decide)

theorem letters_same (letters : Text)
    (ascii : letters.all (fun c => decide (c.toNat < 0x80 ∧ c.toNat ∉ [0x0B, 0x0C, 0x0D])) = true) :
    List.Forall₂ SameChar (letters.map unit) (letters.map .char) := by
  induction letters with
  | nil => exact .nil
  | cons c letters ih =>
    rw [List.all_cons, Bool.and_eq_true, decide_eq_true_eq] at ascii
    exact .cons ⟨c, ascii.1.1, ascii.1.2, rfl, rfl⟩ (ih ascii.2)

theorem escape_same {u : UInt16} {r : Rune} (related : SameChar u r) :
    List.Forall₂ SameChar (Html.escapeUnit u) (Serve.MarkdownPage.escRune r) := by
  obtain ⟨c, small, kept, rfl, rfl⟩ := related
  have char {d : Char} (other : d.toNat < 0x80) : unit c = unit d ↔ Rune.char c = Rune.char d := by
    rw [unit_eq_iff small other, Rune.char.injEq]
  unfold Html.escapeUnit Serve.MarkdownPage.escRune
  simp only [char (d := '&') (by decide), char (d := '<') (by decide), char (d := '>') (by decide),
    char (d := '"') (by decide), char (d := '\'') (by decide)]
  split
  · exact letters_same ['&', 'a', 'm', 'p', ';'] (by decide)
  split
  · exact letters_same ['&', 'l', 't', ';'] (by decide)
  split
  · exact letters_same ['&', 'g', 't', ';'] (by decide)
  split
  · exact letters_same ['&', 'q', 'u', 'o', 't', ';'] (by decide)
  split
  · exact letters_same ['&', '#', '3', '9', ';'] (by decide)
  · exact .cons ⟨c, small, kept, rfl, rfl⟩ .nil

/-- Related texts are one text of ASCII. -/
theorem text_of_same {s : Units} {t : List Rune} (related : List.Forall₂ SameChar s t) :
    ∃ text : Text, (∀ c ∈ text, c.toNat < 0x80 ∧ c.toNat ∉ [0x0B, 0x0C, 0x0D]) ∧ s = text.map unit ∧ t = text.map .char := by
  induction related with
  | nil => exact ⟨[], List.forall_mem_nil _, rfl, rfl⟩
  | cons first later ih =>
    obtain ⟨c, small, kept, rfl, rfl⟩ := first
    obtain ⟨text, ascii, rfl, rfl⟩ := ih
    exact ⟨c :: text, List.forall_mem_cons.mpr ⟨⟨small, kept⟩, ascii⟩, rfl, rfl⟩

theorem byteOf_eq_iff {c d : Char} (small : c.toNat < 0x80) (other : d.toNat < 0x80) : byteOf c = byteOf d ↔ c = d := by
  constructor
  · intro same
    have numbers := congrArg UInt8.toNat same
    rw [byteOf_toNat small, byteOf_toNat other] at numbers
    exact Char.toNat_inj.mp numbers
  · exact congrArg byteOf

theorem encode_ascii {text : Text} (ascii : ∀ c ∈ text, c.toNat < 0x80) : encode text = text.map byteOf := by
  induction text with
  | nil => rfl
  | cons c text ih =>
    obtain ⟨small, later⟩ := List.forall_mem_cons.mp ascii
    rw [encode_cons, encodeChar_ascii small, ih later, List.map_cons, List.singleton_append]

theorem isHR_same {s : Units} {t : List Rune} (related : List.Forall₂ SameChar s t) :
    Edge.MarkdownPage.isHR s = Serve.MarkdownPage.isHR t := by
  have compact : List.Forall₂ SameChar (s.filter fun c => !isSpace c) (t.filter fun r => !Serve.MarkdownPage.isSpace r) := by
    apply List.rel_filter _ related
    intro u r same
    dsimp only
    rw [space_same u r same]
  obtain ⟨text, ascii, units, runes⟩ := text_of_same compact
  unfold Edge.MarkdownPage.isHR Serve.MarkdownPage.isHR
  rw [units, runes, joined_chars, encode_ascii fun c mem => (ascii c mem).1]
  cases text with
  | nil => rfl
  | cons c rest =>
    obtain ⟨first, later⟩ := List.forall_mem_cons.mp ascii
    have mark {d : Char} (other : d.toNat < 0x80) : decide (unit c = unit d) = decide (byteOf c = byteOf d) := by
      apply decide_eq_decide.mpr
      rw [unit_eq_iff first.1 other, byteOf_eq_iff first.1 other]
    have all : (rest.map unit).all (fun other => decide (other = unit c)) =
        (rest.map byteOf).all fun other => decide (other = byteOf c) := by
      clear units runes ascii
      induction rest with
      | nil => rfl
      | cons d rest ih =>
        obtain ⟨here, more⟩ := List.forall_mem_cons.mp later
        have one : decide (unit d = unit c) = decide (byteOf d = byteOf c) := by
          apply decide_eq_decide.mpr
          rw [unit_eq_iff here.1 first.1, byteOf_eq_iff here.1 first.1]
        rw [List.map_cons, List.map_cons, List.all_cons, List.all_cons, ih more, one]
    change (decide (2 ≤ (rest.map unit).length) &&
        (decide (unit c = unit '-') || decide (unit c = unit '*') || decide (unit c = unit '_')) && _) =
      (decide (2 ≤ (rest.map byteOf).length) &&
        (decide (byteOf c = byteOf '-') || decide (byteOf c = byteOf '*') || decide (byteOf c = byteOf '_')) && _)
    rw [all, mark (by decide), mark (by decide), mark (by decide), List.length_map, List.length_map]

theorem ports_correspond : Corresponds SameChar Edge.MarkdownPage.dialect Serve.MarkdownPage.dialect where
  code := by
    intro u r related
    obtain ⟨c, small, -, rfl, rfl⟩ := related
    exact unit_toNat small
  char c small kept := ⟨c, small, kept, rfl, rfl⟩
  space := space_same
  dot := dot_same
  white := white_same
  indent := by
    intro u r related feed
    obtain ⟨c, small, kept, rfl, rfl⟩ := related
    have number : (unit c).toNat = c.toNat := unit_toNat small
    have same : ∀ n < 0x80, n ∉ [0x0A, 0x0B, 0x0C, 0x0D] → spaces.contains n = (decide (n = 0x20) || decide (n = 0x09)) := by
      decide
    change spaces.contains (unit c).toNat = (decide (c.toNat = 0x20) || decide (c.toNat = 0x09))
    have other : c.toNat ≠ 0x0A := fun line => feed (number.trans line)
    rw [number]
    exact same c.toNat small fun mem => (List.mem_cons.mp mem).elim other kept
  esc := by
    intro s t related
    change List.Forall₂ SameChar (Edge.ChatPage.esc s) (Serve.MarkdownPage.esc t)
    rw [Edge.ChatPage.esc_eq]
    exact List.rel_flatMap related fun _ _ same => escape_same same
  isHR := fun _ _ => isHR_same

/-- What follows a carriage return, without the line feed that belongs to it. -/
def dropFeed : Text → Text
  | '\n' :: rest => rest
  | text => text

theorem newlines_return (rest : Text) : Serve.MarkdownPage.newlines (('\r' :: rest).map .char) =
    .char '\n' :: Serve.MarkdownPage.newlines ((dropFeed rest).map .char) := by
  by_cases feed : ∃ more, rest = '\n' :: more
  · obtain ⟨more, rfl⟩ := feed
    rfl
  · have kept : dropFeed rest = rest := by
      unfold dropFeed
      split
      · exact absurd ⟨_, rfl⟩ feed
      · rfl
    rw [kept, List.map_cons]
    unfold Serve.MarkdownPage.newlines
    rw [Serve.MarkdownPage.pairs]
    · rfl
    · intro more first second
      cases rest with
      | nil => cases second
      | cons c rest =>
        obtain ⟨head, tail⟩ := List.cons.inj second
        exact feed ⟨rest, by rw [Rune.char.inj head]⟩

theorem newlines_other {c : Char} (other : c ≠ '\r') (rest : Text) :
    Serve.MarkdownPage.newlines ((c :: rest).map .char) = .char c :: Serve.MarkdownPage.newlines (rest.map .char) := by
  have apart : Rune.char c ≠ Rune.char '\r' := fun same => other (Rune.char.inj same)
  rw [List.map_cons]
  unfold Serve.MarkdownPage.newlines
  rw [Serve.MarkdownPage.pairs]
  · rw [List.map_cons, if_neg apart]
  · intro more first second
    exact apart first

theorem newlines_same {text : Text} (ascii : ∀ c ∈ text, c.toNat < 0x80 ∧ c.toNat ∉ [0x0B, 0x0C]) :
    List.Forall₂ SameChar (Edge.ChatPage.newlines false (text.map unit)) (Serve.MarkdownPage.newlines (text.map .char)) ∧
      List.Forall₂ SameChar (Edge.ChatPage.newlines true (text.map unit))
        (Serve.MarkdownPage.newlines ((dropFeed text).map .char)) := by
  induction text with
  | nil => exact ⟨.nil, .nil⟩
  | cons c rest ih =>
    obtain ⟨here, later⟩ := List.forall_mem_cons.mp ascii
    obtain ⟨plain, returned⟩ := ih later
    have feed : SameChar (unit '\n') (.char '\n') := ⟨'\n', by decide, by decide, rfl, rfl⟩
    by_cases first : c = '\r'
    · subst first
      have both (b : Bool) : Edge.ChatPage.newlines b (unit '\r' :: rest.map unit) =
          unit '\n' :: Edge.ChatPage.newlines true (rest.map unit) := by
        rw [Edge.ChatPage.newlines, if_pos rfl]
      have whole : dropFeed ('\r' :: rest) = '\r' :: rest := rfl
      rw [whole, newlines_return, List.map_cons, both, both]
      exact ⟨.cons feed returned, .cons feed returned⟩
    · have other : unit c ≠ unit '\r' := fun same => first ((unit_eq_iff here.1 (by decide)).mp same)
      have own : SameChar (unit c) (.char c) := by
        refine ⟨c, here.1, fun mem => ?_, rfl, rfl⟩
        have number : c.toNat ≠ '\r'.toNat := fun same => first (Char.toNat_inj.mp same)
        simp only [List.mem_cons, List.not_mem_nil, or_false] at mem
        obtain tab | form | return_ := mem
        · exact here.2 (by rw [tab]; decide)
        · exact here.2 (by rw [form]; decide)
        · exact number return_
      have next : List.Forall₂ SameChar (unit c :: Edge.ChatPage.newlines false (rest.map unit))
          (Serve.MarkdownPage.newlines ((c :: rest).map .char)) := by
        rw [newlines_other first]
        exact .cons own plain
      rw [List.map_cons, Edge.ChatPage.newlines, if_neg other, Edge.ChatPage.newlines, if_neg other]
      by_cases line : c = '\n'
      · subst line
        rw [if_neg (fun both => Bool.false_ne_true both.2), if_pos ⟨rfl, rfl⟩]
        exact ⟨next, plain⟩
      · have apart : unit c ≠ unit '\n' := fun same => line ((unit_eq_iff here.1 (by decide)).mp same)
        have whole : dropFeed (c :: rest) = c :: rest := by
          unfold dropFeed
          split
          · rename_i same
            exact absurd (List.cons.inj same).1 line
          · rfl
        rw [if_neg (fun both => apart both.1), if_neg (fun both => apart both.1), whole]
        exact ⟨next, next⟩

/-- Printable ASCII, spaces, tabs and the ends of lines. -/
def Printable (c : Char) : Prop := 0x20 ≤ c.toNat ∧ c.toNat ≤ 0x7E ∨ c = '\t' ∨ c = '\n' ∨ c = '\r'

instance (c : Char) : Decidable (Printable c) := inferInstanceAs (Decidable (_ ∨ _))

theorem ofText_ascii {text : Text} (ascii : ∀ c ∈ text, c.toNat < 0x80) : ofText text = text.map unit := by
  induction text with
  | nil => rfl
  | cons c text ih =>
    obtain ⟨small, later⟩ := List.forall_mem_cons.mp ascii
    rw [ofText_cons, ih later, ofChar, if_pos (by omega), List.map_cons, List.singleton_append]

/-- The ports render one source into one page. -/
theorem ports_agree {text : Text} (printable : ∀ c ∈ text, Printable c) :
    ∃ html : Text, ∃ enough, ∀ fuel, enough ≤ fuel →
      Edge.MarkdownPage.renderMarkdown fuel (ofText text) = some (ofText html) ∧
        Serve.MarkdownPage.RenderMarkdown fuel (encode text) = some (encode html) := by
  have ascii : ∀ c ∈ text, c.toNat < 0x80 ∧ c.toNat ∉ [0x0B, 0x0C] := by
    intro c mem
    obtain ⟨least, most⟩ | rfl | rfl | rfl := printable c mem
    · refine ⟨by omega, ?_⟩
      simp only [List.mem_cons, List.not_mem_nil, or_false]
      omega
    · decide
    · decide
    · decide
  obtain ⟨out, -, enough, ran⟩ := loop_takes edge_lawful (text.map unit)
  obtain ⟨out', -, enough', ran'⟩ := loop_takes serve_lawful (text.map .char)
  have same := renderMarkdown_alike ports_correspond edge_lawful serve_lawful (max enough enough') (newlines_same ascii).1
  rw [ran _ (Nat.le_max_left _ _), ran' _ (Nat.le_max_right _ _)] at same
  cases same with
  | some related =>
    obtain ⟨html, small, units, runes⟩ := text_of_same related
    refine ⟨html, max enough enough', fun fuel more => ?_⟩
    rw [ofText_ascii fun c mem => (ascii c mem).1, ofText_ascii fun c mem => (small c mem).1]
    constructor
    · unfold Edge.MarkdownPage.renderMarkdown
      rw [ran fuel (Nat.le_trans (Nat.le_max_left _ _) more), units]
    · unfold Serve.MarkdownPage.RenderMarkdown
      rw [pieces_encode, ran' fuel (Nat.le_trans (Nat.le_max_right _ _) more), Option.map_some, runes, joined_chars]

theorem ports_agree_on_quote : (∀ c ∈ "> - *a*\r\n> b".toList, Printable c) ∧
    ∃ html : Text, ∃ enough, ∀ fuel, enough ≤ fuel →
      Edge.MarkdownPage.renderMarkdown fuel (ofText "> - *a*\r\n> b".toList) = some (ofText html) ∧
        Serve.MarkdownPage.RenderMarkdown fuel (encode "> - *a*\r\n> b".toList) = some (encode html) := by
  have every : ("> - *a*\r\n> b".toList.all fun c => decide (Printable c)) = true := by decide
  have printable : ∀ c ∈ "> - *a*\r\n> b".toList, Printable c :=
    fun c listed => of_decide_eq_true (List.all_eq_true.mp every c listed)
  exact ⟨printable, ports_agree printable⟩

end Dropway.Markdown
