import Dropway.Lib.Ascii
import Dropway.Lib.Uri

/-! References that are resolved against an origin. One that starts with a single slash
is a path on its host; what becomes of the others is left to the user. -/

namespace Dropway.Lib.Uri

def isControlOrSpace (c : Char) : Bool := c.toNat ≤ 0x20

def isSlash (c : Char) : Bool := c = '/' || c = '\\'

/-- Before it is parsed, a reference loses control characters and spaces at its ends,
and tabs and line breaks everywhere. -/
def tidy (reference : Text) : Text :=
  (((reference.dropWhile isControlOrSpace).reverse.dropWhile isControlOrSpace).reverse).filter
    fun c => !"\t\n\r".toList.contains c

/-- `new URL(reference, origin).toString()`, and nothing where it throws. -/
def resolve (elsewhere : Text → Text → Option Text) (origin reference : Text) : Option Text :=
  match tidy reference with
  | [] => elsewhere origin []
  | first :: rest =>
    if isSlash first && !(rest.head?.any isSlash) then some (resolveReference origin (first :: rest))
    else elsewhere origin (first :: rest)

/-- A path without control characters, spaces and backslashes. -/
structure Rooted (reference : Text) : Prop where
  slash : reference.head? = some '/'
  single : ¬ Text.startsWith reference "//".toList
  forward : '\\' ∉ reference
  visible : ∀ c ∈ reference, 0x20 < c.toNat ∧ c.toNat ≠ 0x7F

/-! ### Staying on the host -/

theorem walk_ne_nil (path : List Text) {segments : List Text} (some' : segments ≠ []) : walk path segments ≠ [] := by
  induction segments generalizing path with
  | nil => exact absurd rfl some'
  | cons segment rest ih =>
    cases rest with
    | nil =>
      unfold walk
      by_cases dots : (isDoubleDot segment || isSingleDot segment) = true
      · rw [if_pos dots]
        exact List.append_ne_nil_of_right_ne_nil _ (List.cons_ne_nil _ _)
      · rw [if_neg dots]
        rw [Bool.or_eq_true, not_or] at dots
        rw [advance, if_neg dots.1, if_neg dots.2]
        exact List.append_ne_nil_of_right_ne_nil _ (List.cons_ne_nil _ _)
    | cons next rest => exact ih _ (List.cons_ne_nil _ _)

theorem parsePath_ne_nil (input : Text) : parsePath input ≠ [] :=
  walk_ne_nil [] (List.splitOn_ne_nil _ _)

theorem resolveReference_origin (origin reference : Text) :
    resolveReference origin reference = origin ++ resolveReference [] reference := by
  unfold resolveReference
  simp only [List.append_assoc, List.nil_append]

/-- What is resolved goes on with a path. -/
theorem resolveReference_path (origin reference : Text) :
    ∃ rest, resolveReference origin reference = origin ++ '/' :: rest := by
  obtain ⟨segment, segments, path⟩ := List.exists_cons_of_ne_nil
    (parsePath_ne_nil ((reference.takeWhile (· ≠ '#')).takeWhile (· ≠ '?')))
  rw [resolveReference_origin]
  unfold resolveReference
  simp only [path, serialize, List.flatMap_cons, List.nil_append, List.cons_append]
  exact ⟨_, rfl⟩

private theorem dropWhile_kept {text : Text} (visible : ∀ c ∈ text, isControlOrSpace c = false) :
    text.dropWhile isControlOrSpace = text := by
  cases text with
  | nil => rfl
  | cons c text =>
    rw [List.dropWhile_cons_of_neg]
    rw [visible c List.mem_cons_self]
    exact Bool.false_ne_true

theorem Rooted.tidy {reference : Text} (rooted : Rooted reference) : tidy reference = reference := by
  have visible : ∀ c ∈ reference, isControlOrSpace c = false := by
    intro c mem
    have above := (rooted.visible c mem).1
    exact decide_eq_false (by omega)
  have kept : ∀ c ∈ reference, (!"\t\n\r".toList.contains c) = true := by
    intro c mem
    have above := (rooted.visible c mem).1
    have away (d : Char) (low : d.toNat ≤ 0x20) : c ≠ d := by
      rintro rfl
      omega
    simp [away '\t' (by decide), away '\n' (by decide), away '\r' (by decide)]
  unfold Uri.tidy
  rw [dropWhile_kept visible, dropWhile_kept fun c mem => visible c (List.mem_reverse.mp mem), List.reverse_reverse,
    List.filter_eq_self.mpr kept]

/-- A rooted reference is a path on the origin's host, whatever becomes of others. -/
theorem Rooted.resolves {reference : Text} (rooted : Rooted reference) (elsewhere : Text → Text → Option Text)
    (origin : Text) : resolve elsewhere origin reference = some (resolveReference origin reference) := by
  unfold resolve
  rw [rooted.tidy]
  cases reference with
  | nil => cases rooted.slash
  | cons first rest =>
    have slash : first = '/' := Option.some.inj rooted.slash
    subst slash
    have single : rest.head?.any isSlash = false := by
      cases rest with
      | nil => rfl
      | cons second rest =>
        have forward : second ≠ '/' := by
          rintro rfl
          exact rooted.single rfl
        have backward : second ≠ '\\' := by
          rintro rfl
          exact rooted.forward (List.mem_cons_of_mem _ List.mem_cons_self)
        simp only [List.head?_cons, Option.any_some, isSlash, forward, backward, decide_false, Bool.or_self]
    simp only [single, Bool.not_false, Bool.and_true]
    exact if_pos (by decide)

/-! ### Lengths -/

/-- How long a text is in bytes when every escape is one of them. -/
def readSize (text : Text) : Nat := (Utf8.encode text).length - 2 * text.count '%'

private theorem encode_singleton (c : Char) : Utf8.encode [c] = String.utf8EncodeChar c := by
  rw [Utf8.encode_cons, Utf8.encode_nil, List.append_nil]

theorem readSize_append (text more : Text) : readSize (text ++ more) ≤ readSize text + readSize more := by
  unfold readSize
  rw [Utf8.encode_append, List.length_append, List.count_append]
  omega

theorem readSize_le (text : Text) : readSize text ≤ (Utf8.encode text).length := Nat.sub_le _ _

private theorem readSize_percentEncode (c : Char) : readSize (percentEncode c) ≤ (String.utf8EncodeChar c).length := by
  have bytes (front : Bytes) : (Utf8.encode (front.flatMap fun byte =>
        ['%', hexDigit (byte.toNat / 16), hexDigit (byte.toNat % 16)])).length = 3 * front.length ∧
      front.length ≤ (front.flatMap fun byte =>
        ['%', hexDigit (byte.toNat / 16), hexDigit (byte.toNat % 16)]).count '%' := by
    induction front with
    | nil => exact ⟨rfl, Nat.le_refl _⟩
    | cons byte front ih =>
      have small := byte.toNat_lt
      have digit : ∀ value < 16, (hexDigit value).toNat < 0x80 := by decide
      have three : (Utf8.encode ['%', hexDigit (byte.toNat / 16), hexDigit (byte.toNat % 16)]).length = 3 := by
        rw [Utf8.encode_cons, Utf8.encode_cons, Utf8.encode_cons, Utf8.encodeChar_ascii (digit _ (by omega)),
          Utf8.encodeChar_ascii (digit _ (by omega))]
        rfl
      rw [List.flatMap_cons, Utf8.encode_append, List.length_append, three, ih.1, List.count_append,
        List.count_cons_self, List.length_cons]
      constructor <;> omega
  have whole := bytes (Utf8.encode [c])
  rw [encode_singleton] at whole
  have same : percentEncode c = (String.utf8EncodeChar c).flatMap fun byte =>
      ['%', hexDigit (byte.toNat / 16), hexDigit (byte.toNat % 16)] := by
    rw [percentEncode, encode_singleton]
  unfold readSize
  rw [same]
  omega

/-- Encoding adds escapes only. -/
theorem readSize_encodeWith (keeps : Char → Bool) (text : Text) :
    readSize (encodeWith keeps text) ≤ (Utf8.encode text).length := by
  induction text with
  | nil => exact Nat.le_refl _
  | cons c text ih =>
    have shape : encodeWith keeps (c :: text) = (if keeps c then [c] else percentEncode c) ++ encodeWith keeps text :=
      List.flatMap_cons
    have head : readSize (if keeps c then [c] else percentEncode c) ≤ (String.utf8EncodeChar c).length := by
      split
      · rw [← encode_singleton]
        exact readSize_le [c]
      · exact readSize_percentEncode c
    rw [shape, Utf8.encode_cons, List.length_append]
    exact (readSize_append _ _).trans (Nat.add_le_add head ih)

private def written (segments : List Text) : Nat := (segments.map fun segment => readSize segment + 1).sum

private def given (segments : List Text) : Nat := (segments.map fun segment => (Utf8.encode segment).length + 1).sum

private theorem written_append (path more : List Text) : written (path ++ more) = written path + written more := by
  rw [written, List.map_append, List.sum_append]
  rfl

private theorem written_dropLast (path : List Text) : written path.dropLast ≤ written path := by
  rcases List.eq_nil_or_concat path with rfl | ⟨front, last, rfl⟩
  · exact Nat.le_refl _
  · rw [List.concat_eq_append, List.dropLast_concat, written_append]
    exact Nat.le_add_right _ _

private theorem written_advance (path : List Text) (segment : Text) :
    written (advance path segment) ≤ written path + ((Utf8.encode segment).length + 1) := by
  unfold advance
  by_cases double : isDoubleDot segment = true
  · rw [if_pos double]
    exact (written_dropLast path).trans (Nat.le_add_right _ _)
  rw [if_neg double]
  by_cases single : isSingleDot segment = true
  · rw [if_pos single]
    exact Nat.le_add_right _ _
  · rw [if_neg single, written_append]
    have encoded : readSize (encodeSegment segment) ≤ (Utf8.encode segment).length := readSize_encodeWith pathChar segment
    exact Nat.add_le_add_left (Nat.add_le_add_right encoded 1) _

/-- Dot segments take segments away and nothing gets longer. -/
private theorem written_walk (path segments : List Text) : written (walk path segments) ≤ written path + given segments := by
  induction segments generalizing path with
  | nil => exact Nat.le_refl _
  | cons segment rest ih =>
    cases rest with
    | nil =>
      unfold walk
      by_cases dots : (isDoubleDot segment || isSingleDot segment) = true
      · rw [if_pos dots, written_append]
        have fewer : written (advance path segment) ≤ written path := by
          rcases Bool.or_eq_true_iff.mp dots with double | single
          · rw [advance, if_pos double]
            exact written_dropLast path
          · unfold advance
            split
            · exact written_dropLast path
            · exact Nat.le_of_eq rfl
        have blank : written [[]] = 1 := rfl
        have one : given [segment] = (Utf8.encode segment).length + 1 := rfl
        omega
      · rw [if_neg dots]
        exact written_advance path segment
    | cons next rest =>
      have here := written_advance path segment
      have later := ih (advance path segment)
      have shape : given (segment :: next :: rest) = (Utf8.encode segment).length + 1 + given (next :: rest) := rfl
      have step : walk path (segment :: next :: rest) = walk (advance path segment) (next :: rest) := rfl
      rw [step]
      omega

private theorem readSize_serialize (segments : List Text) : readSize (serialize segments) ≤ written segments := by
  induction segments with
  | nil => exact Nat.le_refl _
  | cons segment rest ih =>
    have shape : serialize (segment :: rest) = ['/'] ++ (segment ++ serialize rest) := rfl
    have whole : written (segment :: rest) = readSize segment + 1 + written rest := rfl
    have first := readSize_append ['/'] (segment ++ serialize rest)
    have second := readSize_append segment (serialize rest)
    have slash : readSize ['/'] = 1 := by decide
    rw [shape]
    omega

private theorem given_splitOn (text : Text) : given (text.splitOn '/') = (Utf8.encode text).length + 1 := by
  induction text with
  | nil => rfl
  | cons c text ih =>
    rw [List.splitOn_cons_eq_if_modifyHead]
    by_cases slash : c = '/'
    · subst slash
      have shape : given ([] :: text.splitOn '/') = 1 + given (text.splitOn '/') := rfl
      have one : (Utf8.encode ('/' :: text)).length = 1 + (Utf8.encode text).length := by
        rw [Utf8.encode_cons, List.length_append]
        rfl
      simp only [if_true, shape, ih, one, beq_self_eq_true]
      omega
    · obtain ⟨first, rest, split⟩ := List.exists_cons_of_ne_nil (List.splitOn_ne_nil '/' text)
      have shape : given ((c :: first) :: rest) = (String.utf8EncodeChar c).length + given (first :: rest) := by
        unfold given
        rw [List.map_cons, List.sum_cons, List.map_cons, List.sum_cons, Utf8.encode_cons, List.length_append]
        omega
      rw [split] at ih ⊢
      simp only [slash, if_false, beq_iff_eq, List.modifyHead_cons]
      rw [shape, ih, Utf8.encode_cons, List.length_append, Nat.add_assoc]

private theorem encode_scrub (input : Text) : (Utf8.encode (scrub input)).length ≤ (Utf8.encode input).length := by
  induction input with
  | nil => exact Nat.le_refl _
  | cons c input ih =>
    rw [Utf8.encode_cons, List.length_append]
    by_cases kept : (!"\t\n\r".toList.contains c) = true
    · have shape : scrub (c :: input) = (if c = '\\' then '/' else c) :: scrub input := by
        unfold scrub
        rw [List.filter_cons, if_pos kept, List.map_cons]
      rw [shape, Utf8.encode_cons, List.length_append]
      refine Nat.add_le_add ?_ ih
      by_cases backslash : c = '\\'
      · subst backslash
        exact Nat.le_refl _
      · rw [if_neg backslash]
    · have shape : scrub (c :: input) = scrub input := by
        unfold scrub
        rw [List.filter_cons, if_neg kept]
      rw [shape]
      exact ih.trans (Nat.le_add_left _ _)

private theorem readSize_parsePath {path : Text} (slash : path.head? = some '/') :
    readSize (serialize (parsePath path)) ≤ (Utf8.encode path).length := by
  have walked := written_walk [] (separate path)
  have size := readSize_serialize (parsePath path)
  have none : written [] = 0 := rfl
  have start : (scrub path).head? = some '/' := by
    cases path with
    | nil => cases slash
    | cons c rest =>
      cases slash
      rfl
  obtain ⟨rest, same⟩ : ∃ rest, scrub path = '/' :: rest := by
    cases shape : scrub path with
    | nil =>
      rw [shape] at start
      cases start
    | cons c rest =>
      rw [shape] at start
      cases start
      exact ⟨rest, rfl⟩
  have parts : given (separate path) = (Utf8.encode rest).length + 1 := by
    rw [separate, if_pos start, same, List.tail_cons, given_splitOn]
  have bytes := encode_scrub path
  have one : (Utf8.encode (scrub path)).length = 1 + (Utf8.encode rest).length := by
    rw [same, Utf8.encode_cons, List.length_append]
    rfl
  unfold parsePath at size
  unfold parsePath
  omega

/-- A reference that starts with a slash does not get longer, escapes read as one. -/
theorem readSize_resolveReference {reference : Text} (slash : reference.head? = some '/') :
    readSize (resolveReference [] reference) ≤ (Utf8.encode reference).length := by
  have parts : reference = (reference.takeWhile (· ≠ '#')).takeWhile (· ≠ '?') ++
      ((reference.takeWhile (· ≠ '#')).dropWhile (· ≠ '?') ++ reference.dropWhile (· ≠ '#')) := by
    rw [← List.append_assoc, List.takeWhile_append_dropWhile, List.takeWhile_append_dropWhile]
  have total := congrArg (fun text => (Utf8.encode text).length) parts
  simp only [Utf8.encode_append, List.length_append] at total
  have start : ((reference.takeWhile (· ≠ '#')).takeWhile (· ≠ '?')).head? = some '/' := by
    cases reference with
    | nil => cases slash
    | cons c rest =>
      cases slash
      rfl
  have tail (keeps : Char → Bool) (text : Text) : readSize (match text with
      | [] => []
      | mark :: rest => mark :: encodeWith keeps rest) ≤ (Utf8.encode text).length := by
    cases text with
    | nil => exact Nat.le_refl _
    | cons mark rest =>
      have both := readSize_append [mark] (encodeWith keeps rest)
      have first := readSize_le [mark]
      have encoded := readSize_encodeWith keeps rest
      rw [encode_singleton] at first
      rw [Utf8.encode_cons, List.length_append]
      exact both.trans (Nat.add_le_add first encoded)
  have path := readSize_parsePath start
  have query := tail queryChar ((reference.takeWhile (· ≠ '#')).dropWhile (· ≠ '?'))
  have fragment := tail fragmentChar (reference.dropWhile (· ≠ '#'))
  unfold resolveReference
  simp only [List.nil_append]
  refine (readSize_append _ _).trans ((Nat.add_le_add ((readSize_append _ _).trans
    (Nat.add_le_add path query)) fragment).trans ?_)
  omega

end Dropway.Lib.Uri
