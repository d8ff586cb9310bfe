import Dropway.Edge.Markdown
import Dropway.Serve.Markdown

/-! The loop over the lines of a Markdown document ends, in the document and in each quote
within it, and every line is in one block, in the order of the lines. -/

namespace Dropway.Markdown
open Lib Regex Dialect

variable {α : Type} {D : Dialect α}

/-! ### What a pass takes -/

/-- The lines of a block, in their order. -/
def Block.lines : Block α → List (List α)
  | .blank line => [line]
  | .fence opening code closing => opening :: (code ++ closing.toList)
  | .heading line => [line]
  | .rule line => [line]
  | .quote lines => lines
  | .list _ lines => lines
  | .paragraph lines => lines

/-- Each line has its part in the block; only white space is passed over. -/
def Block.Fits (D : Dialect α) : Block α → Prop
  | .blank line => D.blank line = true
  | .fence opening code closing =>
    D.fence.test opening = true ∧ (∀ line ∈ code, D.closes (matched D.fence 1 opening) line = false) ∧
      ∀ line, closing = some line → D.closes (matched D.fence 1 opening) line = true
  | .heading line => D.heading.test line = true
  | .rule line => D.isHR line = true
  | .quote lines => ∀ line ∈ lines, D.blockquote.test line = true
  | .list ordered lines => ∀ line ∈ lines, (if ordered then D.olItem else D.ulItem).test line = true
  | .paragraph lines => ∀ line ∈ lines, D.plain line = true

variable {line : List α} {rest : List (List α)}

theorem span_lines (p : List α → Bool) (lines : List (List α)) : (lines.span p).1 ++ (lines.span p).2 = lines := by
  rw [List.span_eq_takeWhile_dropWhile, List.takeWhile_append_dropWhile]

theorem span_mem (p : List α → Bool) (lines : List (List α)) : ∀ line ∈ (lines.span p).1, p line = true := by
  rw [List.span_eq_takeWhile_dropWhile]
  intro line mem
  exact List.mem_takeWhile_imp mem

theorem span_first {p : List α → Bool} (first : p line = true) : ((line :: rest).span p).1 ≠ [] := by
  rw [List.span_eq_takeWhile_dropWhile, List.takeWhile_cons, if_pos first]
  exact List.cons_ne_nil _ _

/-- What comes first behind the lines that pass does not. -/
theorem span_head {p : List α → Bool} {lines : List (List α)} (next : (lines.span p).2.head? = some line) :
    p line = false := by
  rw [List.span_eq_takeWhile_dropWhile] at next
  have fails := List.head?_dropWhile_not p lines
  rw [next] at fails
  exact fails

theorem pass_lines (line : List α) (rest : List (List α)) :
    (D.pass line rest).1.lines ++ (D.pass line rest).2 = line :: rest := by
  unfold Dialect.pass
  split
  · rfl
  split
  · have whole := span_lines (fun other => !D.closes (matched D.fence 1 line) other) rest
    dsimp only [Block.lines]
    generalize rest.span (fun other => !D.closes (matched D.fence 1 line) other) = found at whole
    obtain ⟨code, behind⟩ := found
    cases behind with
    | nil => rw [← whole]; simp
    | cons closing behind => rw [← whole]; simp
  split
  · rfl
  split
  · rfl
  split
  · exact span_lines _ _
  split
  · exact span_lines _ _
  · exact span_lines _ _

theorem pass_fits (line : List α) (rest : List (List α)) : (D.pass line rest).1.Fits D := by
  unfold Dialect.pass
  split
  · assumption
  split
  · rename_i opening
    refine ⟨opening, ?_, ?_⟩
    · intro other mem
      have open_ := span_mem _ _ other mem
      exact Bool.not_eq_true' _ ▸ open_
    · intro other next
      have closed := span_head next
      exact Bool.not_eq_false' _ ▸ closed
  split
  · assumption
  split
  · assumption
  split
  · exact span_mem _ _
  split
  · exact span_mem _ _
  · exact span_mem _ _

/-- Every pass moves on: the tests of a paragraph are those that came before. -/
theorem pass_lines_ne_nil (line : List α) (rest : List (List α)) : (D.pass line rest).1.lines ≠ [] := by
  unfold Dialect.pass
  split
  · exact List.cons_ne_nil _ _
  rename_i visible
  split
  · exact List.cons_ne_nil _ _
  rename_i fence
  split
  · exact List.cons_ne_nil _ _
  rename_i heading
  split
  · exact List.cons_ne_nil _ _
  rename_i rule
  split
  · rename_i quote
    exact span_first quote
  rename_i quote
  split
  · rename_i item
    apply span_first
    cases unordered : D.ulItem.test line with
    | true => rw [Bool.not_true, Bool.and_false, if_neg Bool.false_ne_true]; exact unordered
    | false =>
      rw [unordered, Bool.false_or] at item
      rw [item, Bool.not_false, Bool.and_true, if_pos rfl]
      exact item
  · rename_i item
    apply span_first
    rw [Bool.not_eq_true, Bool.or_eq_false_iff] at item
    rw [Bool.not_eq_true] at visible fence heading rule quote
    unfold Dialect.plain
    rw [visible, fence, heading, rule, quote, item.1, item.2]
    rfl

/-! ### Lines -/

/-- What the ports' own functions keep to. -/
structure Lawful (D : Dialect α) : Prop where
  feed : D.code (D.char '\n') = 0x0A
  returns : ∀ source, ∀ a ∈ D.newlines source, D.code a ≠ 0x0D
  settled : ∀ source, (∀ a ∈ source, D.code a ≠ 0x0D) → D.newlines source = source

/-- No line ends within the line. -/
def Single (D : Dialect α) (line : List α) : Prop := ∀ a ∈ line, D.code a ≠ 0x0A ∧ D.code a ≠ 0x0D

theorem mem_splitOnP {p : α → Bool} {source line : List α} (mem : line ∈ source.splitOnP p) :
    ∀ a ∈ line, a ∈ source ∧ p a = false := by
  induction source generalizing line with
  | nil =>
    rw [List.splitOnP_nil, List.mem_singleton] at mem
    rw [mem]
    exact fun a inside => absurd inside List.not_mem_nil
  | cons c source ih =>
    rw [List.splitOnP_cons_eq_if_modifyHead] at mem
    have later {other : List α} (listed : other ∈ source.splitOnP p) : ∀ a ∈ other, a ∈ c :: source ∧ p a = false :=
      fun a inside => ⟨List.mem_cons_of_mem c (ih listed a inside).1, (ih listed a inside).2⟩
    by_cases separates : p c = true
    · rw [if_pos separates] at mem
      obtain rfl | mem := List.mem_cons.mp mem
      · exact fun a inside => absurd inside List.not_mem_nil
      · exact later mem
    · rw [if_neg separates] at mem
      cases split : source.splitOnP p with
      | nil => exact absurd split (List.splitOnP_ne_nil p source)
      | cons first others =>
        rw [split, List.modifyHead_cons] at mem
        rw [split] at later
        obtain rfl | mem := List.mem_cons.mp mem
        · intro a inside
          obtain rfl | inside := List.mem_cons.mp inside
          · exact ⟨List.mem_cons_self, Bool.eq_false_iff.mpr separates⟩
          · exact later List.mem_cons_self a inside
        · exact later (List.mem_cons_of_mem first mem)

theorem is_feed {a : α} : D.is '\n' a = true ↔ D.code a = 0x0A := decide_eq_true_iff

theorem lines_single (lawful : Lawful D) (source : List α) : ∀ line ∈ D.lines source, Single D line := by
  intro line mem a inside
  obtain ⟨listed, other⟩ := mem_splitOnP mem a inside
  refine ⟨fun feed => ?_, lawful.returns source a listed⟩
  rw [is_feed.mpr feed] at other
  cases other

/-- Lines that are joined are the lines again. -/
theorem lines_join (lawful : Lawful D) {lines : List (List α)} (some_ : lines ≠ [])
    (single : ∀ line ∈ lines, Single D line) : D.lines (join D.feed lines) = lines := by
  have apart {line : List α} (one : Single D line) : ∀ a ∈ line, D.is '\n' a = false := by
    intro a mem
    rw [Bool.eq_false_iff]
    exact fun feed => (one a mem).1 (is_feed.mp feed)
  have kept : ∀ a ∈ join D.feed lines, D.code a ≠ 0x0D := by
    have feed : D.code (D.char '\n') ≠ 0x0D := by
      rw [lawful.feed]
      decide
    clear some_
    induction lines with
    | nil => exact fun a mem => absurd mem List.not_mem_nil
    | cons first others ih =>
      obtain ⟨one, more⟩ := List.forall_mem_cons.mp single
      cases others with
      | nil => exact fun a mem => (one a mem).2
      | cons second others =>
        intro a mem
        obtain mem | mem := List.mem_append.mp mem
        · exact (one a mem).2
        obtain mem | mem := List.mem_append.mp mem
        · rw [List.mem_singleton.mp mem]
          exact feed
        · exact ih more a mem
  unfold Dialect.lines
  rw [lawful.settled _ kept]
  clear kept
  induction lines with
  | nil => exact absurd rfl some_
  | cons first others ih =>
    obtain ⟨one, more⟩ := List.forall_mem_cons.mp single
    cases others with
    | nil => exact List.splitOnP_eq_singleton (apart one)
    | cons second others =>
      change (first ++ D.char '\n' :: join D.feed (second :: others)).splitOnP _ = _
      rw [List.splitOnP_append_cons_of_forall_mem (apart one) _ (is_feed.mpr lawful.feed),
        ih (List.cons_ne_nil _ _) more]

/-! ### Quotes -/

/-- What is behind the mark is part of the line, and shorter. -/
theorem quoted_part {line : List α} (quote : D.blockquote.test line = true) :
    matched D.blockquote 1 line <:+: line ∧ (matched D.blockquote 1 line).length < line.length := by
  obtain ⟨answer, found⟩ := Option.isSome_iff_exists.mp quote
  obtain ⟨front, suffix, marked⟩ := repeated_some found
  obtain ⟨mark, behind, rfl, -, spaced⟩ := run_one marked
  have skipped : (optional D.space).run ((seq (group 1 (many D.dot true)) atEnd).run fun groups rest => some (groups, rest))
      [] behind = some answer := spaced
  obtain ⟨groups, text, suffix', grouped⟩ := run_suffix skipped
  obtain ⟨rest, -, ended⟩ := repeated_some grouped
  have answered : answer.1.get 1 = text.take (text.length - rest.length) := by
    change (if rest.isEmpty = true then some (_, rest) else none) = some answer at ended
    split at ended
    · cases ended
      rfl
    · cases ended
  have same : matched D.blockquote 1 line = text.take (text.length - rest.length) := by
    unfold matched
    rw [show D.blockquote.exec line = some answer from found, Option.elim_some, answered]
  have later : text <:+ line := (suffix'.trans (List.suffix_cons mark behind)).trans suffix
  rw [same]
  refine ⟨(List.take_prefix _ text).isInfix.trans later.isInfix, ?_⟩
  have part := (List.take_prefix (text.length - rest.length) text).length_le
  have less := suffix'.length_le
  have more := suffix.length_le
  rw [List.length_cons] at more
  omega

/-- A bound on the passes, with those of the quotes. -/
def cost (lines : List (List α)) : Nat := (lines.map fun line => line.length + 1).sum

theorem cost_append (front back : List (List α)) : cost (front ++ back) = cost front + cost back := by
  unfold cost
  rw [List.map_append, List.sum_append]

theorem cost_cons (line : List α) (rest : List (List α)) : cost (line :: rest) = line.length + 1 + cost rest := rfl

theorem cost_pos {lines : List (List α)} (some_ : lines ≠ []) : 0 < cost lines := by
  cases lines with
  | nil => exact absurd rfl some_
  | cons line rest =>
    rw [cost_cons]
    omega

theorem cost_inner {lines : List (List α)} (some_ : lines ≠ []) (quote : ∀ line ∈ lines, D.blockquote.test line = true) :
    cost (D.inner lines) < cost lines := by
  unfold Dialect.inner
  induction lines with
  | nil => exact absurd rfl some_
  | cons line rest ih =>
    obtain ⟨here, later⟩ := List.forall_mem_cons.mp quote
    have shorter := (quoted_part here).2
    rw [List.map_cons, cost_cons, cost_cons]
    by_cases last : rest = []
    · subst last
      exact Nat.add_lt_add_right (Nat.add_lt_add_right shorter 1) _
    · have less := ih last later
      omega

theorem inner_single {lines : List (List α)} (quote : ∀ line ∈ lines, D.blockquote.test line = true)
    (single : ∀ line ∈ lines, Single D line) : ∀ line ∈ D.inner lines, Single D line := by
  intro part mem
  obtain ⟨line, listed, rfl⟩ := List.mem_map.mp mem
  exact fun a inside => single line listed a ((quoted_part (quote line listed)).1.subset inside)

/-! ### The loop -/

/-- A rendering that takes every line: block after block, each with lines that fit it, and
within a quote again. The output is what the blocks become. -/
inductive Renders (D : Dialect α) : List (List α) → List (Block α) → List (List α) → Prop
  | done : Renders D [] [] []
  | block {block : Block α} {rest : List (List α)} {blocks : List (Block α)} {here out : List (List α)}
      (fits : block.Fits D) (plain : ∀ lines, block ≠ .quote lines) (becomes : D.html (fun _ => none) block = some here)
      (later : Renders D rest blocks out) : Renders D (block.lines ++ rest) (block :: blocks) (here ++ out)
  | quote {lines rest inside : List (List α)} {nested blocks : List (Block α)} {out : List (List α)}
      (fits : (Block.quote lines).Fits D) (within : Renders D (D.inner lines) nested inside)
      (later : Renders D rest blocks out) :
      Renders D (lines ++ rest) (.quote lines :: blocks)
        (D.wrap "<blockquote>" (join D.feed inside) "</blockquote>" :: out)

/-- One pass of a loop that has enough fuel for what is left. -/
theorem run_pass {fuel : Nat} {line : List α} {rest here later : List (List α)}
    (now : D.html (fun source => D.run fuel (D.lines source)) (D.pass line rest).1 = some here)
    (more : D.run fuel (D.pass line rest).2 = some later) : D.run (fuel + 1) (line :: rest) = some (here ++ later) := by
  rw [Dialect.run, now, Option.bind_eq_bind, Option.bind_some, more]
  rfl

theorem html_quote (render : List α → Option (List (List α))) (lines : List (List α)) :
    D.html render (.quote lines) =
      (render (join D.feed (D.inner lines))).map fun out =>
        [D.wrap "<blockquote>" (join D.feed out) "</blockquote>"] := rfl

/-- Only a quote asks for a rendering. -/
theorem html_plain {block : Block α} (plain : ∀ lines, block ≠ .quote lines) :
    ∃ here, ∀ render, D.html render block = some here := by
  cases block with
  | quote lines => exact absurd rfl (plain lines)
  | blank line => exact ⟨_, fun _ => rfl⟩
  | fence opening code closing => exact ⟨_, fun _ => rfl⟩
  | heading line => exact ⟨_, fun _ => rfl⟩
  | rule line => exact ⟨_, fun _ => rfl⟩
  | list ordered lines => exact ⟨_, fun _ => rfl⟩
  | paragraph lines => exact ⟨_, fun _ => rfl⟩

/-- The loop ends, and takes every line. -/
theorem run_renders (lawful : Lawful D) (bound : Nat) (lines : List (List α)) (single : ∀ line ∈ lines, Single D line)
    (enough : cost lines ≤ bound) :
    ∃ blocks out, Renders D lines blocks out ∧ ∀ fuel, cost lines ≤ fuel → D.run fuel lines = some out := by
  induction bound generalizing lines with
  | zero =>
    cases lines with
    | nil => exact ⟨[], [], .done, fun fuel _ => by rw [Dialect.run]⟩
    | cons line rest => exact absurd (cost_pos (List.cons_ne_nil line rest)) (by omega)
  | succ bound ih =>
    cases lines with
    | nil => exact ⟨[], [], .done, fun fuel _ => by rw [Dialect.run]⟩
    | cons line rest =>
      have whole := pass_lines (D := D) line rest
      have fits := pass_fits (D := D) line rest
      have some_ := pass_lines_ne_nil (D := D) line rest
      have total : cost (line :: rest) = cost (D.pass line rest).1.lines + cost (D.pass line rest).2 := by
        rw [← cost_append, whole]
      have moved := cost_pos some_
      have kept : ∀ other ∈ (D.pass line rest).2, Single D other := fun other mem =>
        single other (whole ▸ List.mem_append_right _ mem)
      obtain ⟨blocks, out, later, ran⟩ := ih (D.pass line rest).2 kept (by omega)
      by_cases quote : ∃ quoted, (D.pass line rest).1 = .quote quoted
      · obtain ⟨quoted, block⟩ := quote
        rw [block] at whole fits some_ total
        have less : cost (D.inner quoted) < cost quoted := cost_inner some_ fits
        have within : ∀ other ∈ D.inner quoted, Single D other :=
          inner_single fits fun other mem => single other (whole ▸ List.mem_append_left _ mem)
        change cost (line :: rest) = cost quoted + _ at total
        obtain ⟨nested, inside, renders, ran'⟩ := ih (D.inner quoted) within (by omega)
        have step := Renders.quote fits renders later
        rw [show quoted ++ (D.pass line rest).2 = line :: rest from whole] at step
        refine ⟨_, _, step, fun fuel enough => ?_⟩
        obtain ⟨fuel, rfl⟩ : ∃ less, fuel = less + 1 := ⟨fuel - 1, by omega⟩
        have again : D.lines (join D.feed (D.inner quoted)) = D.inner quoted :=
          lines_join lawful (fun none => some_ (List.map_eq_nil_iff.mp none)) within
        have now : D.html (fun source => D.run fuel (D.lines source)) (D.pass line rest).1 =
            some [D.wrap "<blockquote>" (join D.feed inside) "</blockquote>"] := by
          rw [block, html_quote, again, ran' fuel (by omega), Option.map_some]
        exact run_pass now (ran fuel (by omega))
      · have plain (quoted : List (List α)) : (D.pass line rest).1 ≠ .quote quoted := fun same => quote ⟨quoted, same⟩
        obtain ⟨here, becomes⟩ := html_plain plain
        have step := Renders.block fits plain (becomes _) later
        rw [whole] at step
        refine ⟨_, _, step, fun fuel enough => ?_⟩
        obtain ⟨fuel, rfl⟩ : ∃ less, fuel = less + 1 := ⟨fuel - 1, by omega⟩
        exact run_pass (becomes _) (ran fuel (by omega))

variable {lines : List (List α)} {blocks : List (Block α)} {out : List (List α)}

theorem Renders.lines_eq (renders : Renders D lines blocks out) : blocks.flatMap Block.lines = lines := by
  induction renders with
  | done => rfl
  | block fits plain becomes later ih => rw [List.flatMap_cons, ih]
  | quote fits within later insideIh ih =>
    rw [List.flatMap_cons, ih]
    rfl

theorem Renders.fits (renders : Renders D lines blocks out) : ∀ block ∈ blocks, block.Fits D := by
  induction renders with
  | done => exact List.forall_mem_nil _
  | block fits plain becomes later ih => exact List.forall_mem_cons.mpr ⟨fits, ih⟩
  | quote fits within later insideIh ih => exact List.forall_mem_cons.mpr ⟨fits, ih⟩

/-- The lines of the source are those of the blocks, in their order, and the blocks become
the output; in each quote as well. -/
def Taken (D : Dialect α) (source : List α) (out : List (List α)) : Prop :=
  ∃ blocks, Renders D (D.lines source) blocks out ∧ blocks.flatMap Block.lines = D.lines source ∧
    ∀ block ∈ blocks, block.Fits D

theorem loop_takes (lawful : Lawful D) (source : List α) :
    ∃ out, Taken D source out ∧
      ∃ enough, ∀ fuel, enough ≤ fuel → D.renderMarkdown fuel source = some (join D.feed out) := by
  obtain ⟨blocks, out, renders, ran⟩ := run_renders lawful _ (D.lines source) (lines_single lawful source) (Nat.le_refl _)
  refine ⟨out, ⟨blocks, renders, renders.lines_eq, renders.fits⟩, cost (D.lines source), fun fuel enough => ?_⟩
  unfold Dialect.renderMarkdown
  rw [ran fuel enough, Option.map_some]

/-! ### The ports -/

theorem edge_lawful : Lawful Edge.MarkdownPage.dialect where
  feed := rfl
  returns source := by
    have none (afterReturn : Bool) : ∀ a ∈ Edge.ChatPage.newlines afterReturn source, a.toNat ≠ 0x0D := by
      induction source generalizing afterReturn with
      | nil => exact fun a mem => absurd mem List.not_mem_nil
      | cons c source ih =>
        unfold Edge.ChatPage.newlines
        split
        · refine List.forall_mem_cons.mpr ⟨by decide, ih true⟩
        rename_i other
        split
        · exact ih false
        · exact List.forall_mem_cons.mpr ⟨fun same => other (UInt16.toNat_inj.mp same), ih false⟩
    exact none false
  settled source := by
    intro kept
    change Edge.ChatPage.newlines false source = source
    induction source with
    | nil => rfl
    | cons c source ih =>
      obtain ⟨here, later⟩ := List.forall_mem_cons.mp kept
      have other : c ≠ Units.unit '\r' := fun same => here (same ▸ rfl)
      rw [Edge.ChatPage.newlines, if_neg other, if_neg (fun both => Bool.false_ne_true both.2), ih later]

theorem serve_lawful : Lawful Serve.MarkdownPage.dialect where
  feed := rfl
  returns source := by
    intro a mem
    obtain ⟨r, -, rfl⟩ := List.mem_map.mp mem
    split
    · decide
    · rename_i other
      intro same
      cases r with
      | stray byte =>
        have point : 0xFFFD = 0x0D := same
        omega
      | char c =>
        have point : c.toNat = '\r'.toNat := same
        exact other (congrArg Utf8.Rune.char (Char.toNat_inj.mp point))
  settled source := by
    intro kept
    have other {r : Utf8.Rune} (not : Serve.MarkdownPage.code r ≠ 0x0D) : r ≠ .char '\r' := fun same => not (same ▸ rfl)
    have pairs : Serve.MarkdownPage.pairs source = source := by
      induction source with
      | nil => rfl
      | cons r source ih =>
        obtain ⟨here, later⟩ := List.forall_mem_cons.mp kept
        rw [Serve.MarkdownPage.pairs, ih later]
        intro rest first
        exact absurd first (other here)
    change (Serve.MarkdownPage.pairs source).map _ = source
    rw [pairs, List.map_congr_left fun r mem => if_neg (other (kept r mem)), List.map_id']

/-- Both ports, on every source: units that need not be paired, bytes that need not be valid. -/
theorem every_line_taken :
    (∀ source : Units, ∃ out, Taken Edge.MarkdownPage.dialect source out ∧
      ∃ enough, ∀ fuel, enough ≤ fuel →
        Edge.MarkdownPage.renderMarkdown fuel source = some (join Edge.MarkdownPage.dialect.feed out)) ∧
    ∀ source : Bytes, ∃ out, Taken Serve.MarkdownPage.dialect (Utf8.pieces source) out ∧
      ∃ enough, ∀ fuel, enough ≤ fuel →
        Serve.MarkdownPage.RenderMarkdown fuel source = some (Utf8.joined (join Serve.MarkdownPage.dialect.feed out)) := by
  constructor
  · intro source
    exact loop_takes edge_lawful source
  · intro source
    obtain ⟨out, taken, enough, ran⟩ := loop_takes serve_lawful (Utf8.pieces source)
    refine ⟨out, taken, enough, fun fuel more => ?_⟩
    unfold Serve.MarkdownPage.RenderMarkdown
    rw [ran fuel more, Option.map_some]

end Dropway.Markdown
