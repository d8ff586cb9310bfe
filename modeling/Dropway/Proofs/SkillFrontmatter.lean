import Dropway.Proofs.WholeFiles

/-! The title and description that finalize finds in a SKILL.md. It reads a bounded
number of bytes, and a cut inside a character loses the whole block. -/

namespace Dropway.Api
open Lib Skillspec
open Text (trimSpace)

/-- The line sets a key to what stands behind its colon. -/
def Sets (key line val : Text) : Prop := ∃ front, cut ':' line = some (front, val) ∧ trimSpace front = key

/-- No line sets the key, or the last that does gives it nothing but white space and quotes. -/
def Blank (key : Text) (inner : List Text) : Prop :=
  ∀ front line back val, inner = front ++ line :: back → Sets key line val →
    (∀ later ∈ back, ∀ other, ¬ Sets key later other) → ∀ c ∈ trimSpace val, isQuote c = true

theorem trimQuotes_eq_nil {text : Text} : trimQuotes text = [] ↔ ∀ c ∈ text, isQuote c = true := by
  unfold trimQuotes
  rw [List.reverse_eq_nil_iff, List.dropWhile_eq_nil_iff]
  constructor
  · intro gone
    have none : text.dropWhile isQuote = [] := by
      by_contra left
      have first := List.head_dropWhile_not isQuote left
      rw [gone _ (List.mem_reverse.mpr (List.head_mem left))] at first
      cases first
    exact List.dropWhile_eq_nil_iff.mp none
  · intro quotes c mem
    exact quotes c ((List.dropWhile_suffix isQuote).subset (List.mem_reverse.mp mem))

private theorem blank_nil (key : Text) : Blank key [] := by
  intro front line back val split
  exact absurd split.symm (by simp)

private theorem blank_concat_sets {key line val : Text} {inner : List Text} (sets : Sets key line val) :
    Blank key (inner ++ [line]) ↔ ∀ c ∈ trimSpace val, isQuote c = true := by
  constructor
  · intro blank
    exact blank inner line [] val rfl sets fun _ mem => absurd mem List.not_mem_nil
  · intro quotes front other back value split setsOther last
    rcases List.eq_nil_or_concat' back with rfl | ⟨back, final, rfl⟩
    · obtain ⟨-, same⟩ := List.append_inj' split rfl
      obtain ⟨_, cutHere, -⟩ := sets
      obtain ⟨_, cutOther, -⟩ := setsOther
      rw [← List.singleton_inj.mp same, cutHere] at cutOther
      cases cutOther
      exact quotes
    · rw [← List.cons_append, ← List.append_assoc] at split
      obtain ⟨-, same⟩ := List.append_inj' split rfl
      rw [← List.singleton_inj.mp same] at last
      exact absurd sets (last line (List.mem_append_right _ (List.mem_singleton_self _)) val)

private theorem blank_concat_other {key line : Text} {inner : List Text} (other : ∀ val, ¬ Sets key line val) :
    Blank key (inner ++ [line]) ↔ Blank key inner := by
  constructor
  · intro blank front found back val split sets last
    refine blank front found (back ++ [line]) val (by rw [split, List.append_assoc, List.cons_append]) sets ?_
    intro later mem
    rcases List.mem_append.mp mem with early | final
    · exact last later early
    · rw [List.mem_singleton.mp final]
      exact other
  · intro blank front found back val split sets last
    rcases List.eq_nil_or_concat' back with rfl | ⟨back, final, rfl⟩
    · obtain ⟨-, same⟩ := List.append_inj' split rfl
      rw [← List.singleton_inj.mp same] at sets
      exact absurd sets (other val)
    · rw [← List.cons_append, ← List.append_assoc] at split
      obtain ⟨whole, -⟩ := List.append_inj' split rfl
      exact blank front found back val whole sets fun later mem => last later (List.mem_append_left _ mem)

private theorem readLine_name (fm : Frontmatter) (line : Text) :
    (∃ val, Sets "name".toList line val ∧ (fm.readLine line).name = trimQuotes (trimSpace val)) ∨
      (∀ val, ¬ Sets "name".toList line val) ∧ (fm.readLine line).name = fm.name := by
  unfold Frontmatter.readLine Sets
  cases parted : cut ':' line with
  | none => exact Or.inr ⟨fun _ found => (by obtain ⟨_, none, -⟩ := found; cases none), rfl⟩
  | some parts =>
    by_cases named : trimSpace parts.1 = "name".toList
    · refine Or.inl ⟨parts.2, ⟨parts.1, rfl, named⟩, ?_⟩
      simp only [if_pos named]
    · refine Or.inr ⟨?_, ?_⟩
      · intro val found
        obtain ⟨front, same, keyed⟩ := found
        cases same
        exact named keyed
      · simp only [if_neg named]
        split <;> rfl

private theorem readLine_description (fm : Frontmatter) (line : Text) :
    (∃ val, Sets "description".toList line val ∧ (fm.readLine line).description = trimQuotes (trimSpace val)) ∨
      (∀ val, ¬ Sets "description".toList line val) ∧ (fm.readLine line).description = fm.description := by
  unfold Frontmatter.readLine Sets
  cases parted : cut ':' line with
  | none => exact Or.inr ⟨fun _ found => (by obtain ⟨_, none, -⟩ := found; cases none), rfl⟩
  | some parts =>
    by_cases described : trimSpace parts.1 = "description".toList
    · refine Or.inl ⟨parts.2, ⟨parts.1, rfl, described⟩, ?_⟩
      have unnamed : ¬ trimSpace parts.1 = "name".toList := by
        rw [described]
        decide
      simp only [if_neg unnamed, if_pos described]
    · refine Or.inr ⟨?_, ?_⟩
      · intro val found
        obtain ⟨front, same, keyed⟩ := found
        cases same
        exact described keyed
      · simp only [if_neg described]
        split <;> rfl

/-- A key that each line either sets or leaves is empty in the end just where it is blank. -/
private theorem foldl_blank {key : Text} (part : Frontmatter → Text) (fresh : part {} = [])
    (reads : ∀ fm line, (∃ val, Sets key line val ∧ part (fm.readLine line) = trimQuotes (trimSpace val)) ∨
      (∀ val, ¬ Sets key line val) ∧ part (fm.readLine line) = part fm) (inner : List Text) :
    part (inner.foldl Frontmatter.readLine {}) = [] ↔ Blank key inner := by
  induction inner using List.reverseRecOn with
  | nil => exact iff_of_true fresh (blank_nil key)
  | append_singleton inner line ih =>
    rw [List.foldl_append, List.foldl_cons, List.foldl_nil]
    rcases reads (inner.foldl Frontmatter.readLine {}) line with ⟨val, sets, value⟩ | ⟨other, same⟩
    · rw [value, trimQuotes_eq_nil, blank_concat_sets sets]
    · rw [same, ih, blank_concat_other other]

theorem foldl_empty (inner : List Text) : inner.foldl Frontmatter.readLine {} = {} ↔
    Blank "name".toList inner ∧ Blank "description".toList inner := by
  rw [← foldl_blank Frontmatter.name rfl readLine_name inner,
    ← foldl_blank Frontmatter.description rfl readLine_description inner]
  generalize inner.foldl Frontmatter.readLine {} = fm
  constructor
  · intro empty
    rw [empty]
    exact ⟨rfl, rfl⟩
  · intro both
    obtain ⟨name, description⟩ := both
    cases fm
    cases name
    cases description
    rfl

private theorem frontmatter_read {objects : Objects} {files : FileMap} {file : Text × ManifestTarget}
    {stream : BlobStream} {text : Text} (listed : files.get? skillMD = some file)
    (opened : objects.getBlob file.1 file.2.sha256 = .ok stream) (delivered : stream.delivered = Utf8.encode text) :
    objects.frontmatter files = parseFrontmatter ((Utf8.encode text).take maxFrontmatterBytes) := by
  have body := readLoop_eq maxFrontmatterBytes [] stream
  rw [List.length_nil, List.nil_append, Nat.sub_zero, delivered] at body
  unfold Objects.frontmatter
  rw [listed]
  simp only [Objects.readBlobBounded, opened, bind, Except.bind, pure, Except.pure, body]

/-- The bounded read ends inside a character. -/
def CutInside (text : Text) : Prop :=
  maxFrontmatterBytes < (Utf8.encode text).length ∧
    ∀ front, front <+: text → (Utf8.encode front).length ≠ maxFrontmatterBytes

private theorem cutInside_iff {text : Text} :
    CutInside text ↔ ¬ Utf8.Valid ((Utf8.encode text).take maxFrontmatterBytes) := by
  rw [Utf8.valid_take]
  constructor
  · intro cut valid
    obtain ⟨front, start, same⟩ := valid
    apply cut.2 front start
    rw [same, List.length_take, min_eq_left cut.1.le]
  · intro invalid
    refine ⟨?_, fun front start size => invalid ⟨front, start, ?_⟩⟩
    · by_contra short
      exact invalid ⟨text, List.prefix_rfl, (List.take_of_length_le (not_lt.mp short)).symm⟩
    · obtain ⟨back, rfl⟩ := start
      rw [Utf8.encode_append, ← size, List.take_left]

private theorem parse_cut {text : Text} (cut : CutInside text) :
    parseFrontmatter ((Utf8.encode text).take maxFrontmatterBytes) = {} := by
  unfold parseFrontmatter
  rw [List.take_take, min_self, if_neg (cutInside_iff.mp cut)]

/-- A read that ends between two characters has the whole block. -/
private theorem parse_uncut {block rest : Text} {inner : List Text} (framed : Block block inner)
    (ended : rest = [] ∨ rest.head? = some '\n') (inside : (Utf8.encode block).length ≤ maxFrontmatterBytes)
    (uncut : ¬ CutInside (block ++ rest)) :
    parseFrontmatter ((Utf8.encode (block ++ rest)).take maxFrontmatterBytes) =
      inner.foldl Frontmatter.readLine {} := by
  obtain ⟨front, start, same⟩ := Utf8.valid_take.mp (not_not.mp fun invalid => uncut (cutInside_iff.mpr invalid))
  have short : (Utf8.encode front).length ≤ maxFrontmatterBytes := by
    rw [same, List.length_take]
    exact min_le_left _ _
  have whole : block <+: front := by
    apply Utf8.encode_prefix
    rw [same, List.prefix_take_iff]
    exact ⟨⟨Utf8.encode rest, (Utf8.encode_append block rest).symm⟩, inside⟩
  obtain ⟨kept, rfl⟩ := whole
  have first : kept <+: rest := (List.prefix_append_right_inj block).mp start
  have still : kept = [] ∨ kept.head? = some '\n' := by
    cases kept with
    | nil => exact Or.inl rfl
    | cons c kept =>
      obtain ⟨more, rfl⟩ := first
      exact ended.imp (fun none => by cases none) id
  rw [← same, parseFrontmatter_encode short, framed.parse still]

private theorem parse_block {block : Text} {inner : List Text} (framed : Block block inner)
    (inside : (Utf8.encode block).length ≤ maxFrontmatterBytes) :
    parseFrontmatter (Utf8.encode block) = inner.foldl Frontmatter.readLine {} := by
  have parsed := framed.parse (Or.inl (rfl : ([] : Text) = []))
  rw [List.append_nil] at parsed
  rw [parseFrontmatter_encode inside, parsed]

/-- Finalize finds what the block alone says, unless the read ends inside a character and the
block says something. -/
theorem frontmatter_of_block {objects : Objects} {files : FileMap} {file : Text × ManifestTarget} {stream : BlobStream}
    {block rest : Text} {inner : List Text} (listed : files.get? skillMD = some file)
    (opened : objects.getBlob file.1 file.2.sha256 = .ok stream)
    (delivered : stream.delivered = Utf8.encode (block ++ rest)) (framed : Block block inner)
    (ended : rest = [] ∨ rest.head? = some '\n') (inside : (Utf8.encode block).length ≤ maxFrontmatterBytes) :
    objects.frontmatter files = parseFrontmatter (Utf8.encode block) ↔
      ¬ (CutInside (block ++ rest) ∧ ¬ (Blank "name".toList inner ∧ Blank "description".toList inner)) := by
  rw [frontmatter_read listed opened delivered, parse_block framed inside, ← foldl_empty]
  by_cases cut : CutInside (block ++ rest)
  · rw [parse_cut cut, eq_comm]
    constructor
    · intro empty bad
      exact bad.2 empty
    · intro fine
      by_contra some_field
      exact fine ⟨cut, some_field⟩
  · exact iff_of_true (parse_uncut framed ended inside cut) fun bad => cut bad.1

/-! A skill named `a`, as a short file and as one with an accent where the read ends. -/

def aBlock : Text := "---\nname: a\n---".toList

theorem aBlock_framed : Block aBlock ["name: a".toList] where
  lines := ⟨dashes, dashes, by decide, by decide, by decide⟩
  unclosed := by decide

theorem aBlock_read :
    (hiObjects (.stop (Utf8.encode aBlock) .eof)).frontmatter hiFiles = parseFrontmatter (Utf8.encode aBlock) := by
  have short : (Utf8.encode (aBlock ++ [])).length ≤ maxFrontmatterBytes := by decide
  refine (frontmatter_of_block rfl rfl rfl aBlock_framed (Or.inl rfl) (by decide)).mpr fun bad => ?_
  exact absurd bad.1.1 (not_lt.mpr short)

private theorem replicate_size (n : Nat) : (Utf8.encode (List.replicate n 'a')).length = n := by
  induction n with
  | zero => rfl
  | succ n ih =>
    rw [List.replicate_succ, Utf8.encode_cons, List.length_append, ih]
    exact Nat.add_comm 1 n

/-- The block, and behind it letters up to an accent whose two bytes the read parts. -/
def longFile : Text := aBlock ++ ('\n' :: List.replicate 65519 'a' ++ ['é'])

private theorem longFile_cut : CutInside longFile := by
  have letters : (Utf8.encode (aBlock ++ ('\n' :: List.replicate 65519 'a'))).length = maxFrontmatterBytes - 1 := by
    rw [Utf8.encode_append, Utf8.encode_cons, List.length_append, List.length_append, replicate_size]
    rfl
  have accent : (Utf8.encode ['é']).length = 2 := by decide
  have shape : longFile = (aBlock ++ ('\n' :: List.replicate 65519 'a')) ++ ['é'] := (List.append_assoc _ _ _).symm
  rw [shape]
  generalize aBlock ++ ('\n' :: List.replicate 65519 'a') = text at letters
  refine ⟨?_, fun front start => ?_⟩
  · rw [Utf8.encode_append, List.length_append, letters, accent]
    decide
  · rcases List.prefix_concat_iff.mp start with rfl | early
    · rw [Utf8.encode_append, List.length_append, letters, accent]
      decide
    · obtain ⟨back, rfl⟩ := early
      rw [Utf8.encode_append, List.length_append] at letters
      have limit : 0 < maxFrontmatterBytes := by decide
      omega

/-- The file loses its name. -/
theorem name_lost : ∃ (objects : Objects) (block rest : Text) (stream : BlobStream),
    objects.getBlob skillMD ['h'] = .ok stream ∧ stream.reason = .eof ∧
    stream.delivered = Utf8.encode (block ++ rest) ∧ Block block ["name: a".toList] ∧
    (Utf8.encode block).length ≤ maxFrontmatterBytes ∧ rest.head? = some '\n' ∧
    (parseFrontmatter (Utf8.encode block)).name = ['a'] ∧ (objects.frontmatter hiFiles).name = [] := by
  refine ⟨hiObjects (.stop (Utf8.encode longFile) .eof), aBlock, _, .stop (Utf8.encode longFile) .eof, rfl, rfl, rfl,
    aBlock_framed, by decide, rfl, by decide +kernel, ?_⟩
  have read : (hiObjects (.stop (Utf8.encode longFile) .eof)).frontmatter hiFiles =
      parseFrontmatter ((Utf8.encode longFile).take maxFrontmatterBytes) := frontmatter_read rfl rfl rfl
  rw [read, parse_cut longFile_cut]

end Dropway.Api
