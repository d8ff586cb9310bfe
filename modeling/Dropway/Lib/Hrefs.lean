import Dropway.Lib.Encoded
import Dropway.Lib.FormQuery
import Mathlib.Data.List.TakeWhile

/-! References to a path whose segments are percent-encoded one by one. Whatever an
escaping leaves as it is, such a reference opens the path itself, its dot segments taken. -/

namespace Dropway.Lib.Uri

/-- What an escaping of segments leaves as it is; a dot it must. -/
structure Escaping (keeps : Char → Bool) : Prop where
  inPath : ∀ {c}, keeps c = true → pathChar c = true
  literal : keeps '%' = false
  slash : keeps '/' = false
  backslash : keeps '\\' = false
  dot : keeps '.' = true

def segmentHref (keeps : Char → Bool) (segments : List Text) : Text := serialize (segments.map (encodeWith keeps))

/-- One segment further. -/
def climb (path : List Text) (segment : Text) : List Text :=
  if segment = ['.', '.'] then path.dropLast else if segment = ['.'] then path else path ++ [segment]

/-- A path without its dot segments; one at the end leaves an empty segment behind. -/
def dotless (path : List Text) : List Text → List Text
  | [] => path
  | [segment] =>
    if segment = ['.', '.'] ∨ segment = ['.'] then climb path segment ++ [[]] else climb path segment
  | segment :: rest => dotless (climb path segment) rest

variable {keeps : Char → Bool} {segment : Text} {segments : List Text}

/-! ### What is written -/

theorem pathChar_alphanum {c : Char} (letter : c.isAlphanum = true) :
    pathChar c = true ∧ c ≠ '/' ∧ c ≠ '\\' := by
  have every : ∀ n < 0x80, (Char.ofNat n).isAlphanum = true →
      pathChar (Char.ofNat n) = true ∧ Char.ofNat n ≠ '/' ∧ Char.ofNat n ≠ '\\' := by decide
  have here := every c.toNat (isAlphanum_ascii letter)
  rw [Char.ofNat_toNat] at here
  exact here letter

private theorem encodeWith_chars (escaping : Escaping keeps) (text : Text) :
    ∀ c ∈ encodeWith keeps text, pathChar c = true ∧ c ≠ '/' ∧ c ≠ '\\' := by
  intro c mem
  obtain ⟨d, -, here⟩ := List.mem_flatMap.mp mem
  split at here
  · rename_i kept
    rw [List.mem_singleton.mp here]
    refine ⟨escaping.inPath kept, ?_, ?_⟩
    · rintro rfl
      rw [escaping.slash] at kept
      cases kept
    · rintro rfl
      rw [escaping.backslash] at kept
      cases kept
  · rcases percentEncode_chars d c here with rfl | letter
    · decide
    · exact pathChar_alphanum letter

private theorem decode_encodeWith (escaping : Escaping keeps) (text rest : Text) :
    decodeURIComponent (encodeWith keeps text ++ rest) = (decodeURIComponent rest).map (text ++ ·) := by
  refine decodeURIComponent_encodeWith (fun c _ kept => ?_) rest
  rintro rfl
  rw [escaping.literal] at kept
  cases kept

private theorem decode_alone (escaping : Escaping keeps) (text : Text) :
    decodeURIComponent (encodeWith keeps text) = some text := by
  have whole := decode_encodeWith escaping text []
  rw [List.append_nil] at whole
  rw [whole]
  exact congrArg some (List.append_nil text)

/-- A written path is decoded to the path. -/
theorem decode_segmentHref (escaping : Escaping keeps) (segments : List Text) :
    decodeURIComponent (segmentHref keeps segments) = some (serialize segments) := by
  induction segments with
  | nil => rfl
  | cons segment rest ih =>
    have shape : segmentHref keeps (segment :: rest) = '/' :: (encodeWith keeps segment ++ segmentHref keeps rest) := rfl
    rw [shape, decodeURIComponent_char (by decide), decode_encodeWith escaping, ih]
    rfl

theorem segmentHref_chars (escaping : Escaping keeps) (segments : List Text) :
    ∀ c ∈ segmentHref keeps segments, pathChar c = true ∧ c ≠ '\\' := by
  intro c mem
  obtain ⟨written, inside, here⟩ := List.mem_flatMap.mp mem
  obtain ⟨segment, -, rfl⟩ := List.mem_map.mp inside
  rcases List.mem_cons.mp here with rfl | here
  · decide
  · have chars := encodeWith_chars escaping segment c here
    exact ⟨chars.1, chars.2.2⟩

theorem segmentHref_plain (escaping : Escaping keeps) (segments : List Text) :
    ∀ c ∈ segmentHref keeps segments, c ≠ '?' ∧ c ≠ '#' := by
  intro c mem
  have written := (segmentHref_chars escaping segments c mem).1
  constructor
  · rintro rfl
    cases written
  · rintro rfl
    cases written

/-! ### Dot segments -/

private theorem encodeWith_keeps {text : Text} (kept : ∀ c ∈ text, keeps c = true) : encodeWith keeps text = text := by
  calc text.flatMap (fun c => if keeps c then [c] else percentEncode c)
      = text.flatMap fun c => [c] := List.flatMap_congr fun c mem => if_pos (kept c mem)
    _ = text := List.flatMap_singleton' text

private theorem toLower_ascii {c d : Char} (lower : c.toLower = d) (ascii : d.toNat < 0x80) : c.toNat < 0x80 := by
  unfold Char.toLower at lower
  split at lower
  · rename_i upper
    exact Nat.lt_of_le_of_lt upper.2 (by decide)
  · rw [lower]
    exact ascii

private theorem toLower_fixed {c d : Char} (lower : c.toLower = d) (fixed : d = '.' ∨ d = '%' ∨ d = '2') : c = d := by
  have small : d.toNat < 0x80 := by
    rcases fixed with rfl | rfl | rfl
    all_goals decide
  have every : ∀ n < 0x80, (Char.ofNat n).toLower = '.' ∨ (Char.ofNat n).toLower = '%' ∨ (Char.ofNat n).toLower = '2' →
      (Char.ofNat n).toLower = Char.ofNat n := by decide
  have here := every c.toNat (toLower_ascii lower small)
  rw [Char.ofNat_toNat, lower] at here
  exact (here fixed).symm

private theorem toLower_e {c : Char} (lower : c.toLower = 'e') : c = 'e' ∨ c = 'E' := by
  have every : ∀ n < 0x80, (Char.ofNat n).toLower = 'e' → Char.ofNat n = 'e' ∨ Char.ofNat n = 'E' := by decide
  have here := every c.toNat (toLower_ascii lower (by decide))
  rw [Char.ofNat_toNat] at here
  exact here lower

private theorem decode_dot (rest : Text) : decodeURIComponent ('.' :: rest) = (decodeURIComponent rest).map ('.' :: ·) :=
  decodeURIComponent_char (by decide) rest

private theorem decode_escaped {e : Char} (letter : e = 'e' ∨ e = 'E') (rest : Text) :
    decodeURIComponent ('%' :: '2' :: e :: rest) = (decodeURIComponent rest).map ('.' :: ·) := by
  have read (tail : List Piece) : assembleFrom {} (.octet 0x2E :: tail) = (assembleFrom {} tail).map ('.' :: ·) := rfl
  have written : pieces ('%' :: '2' :: e :: rest) = (pieces rest).map (.octet 0x2E :: ·) := by
    rcases letter with rfl | rfl
    all_goals
      rw [pieces]
      cases pieces rest <;> rfl
  rw [decodeURIComponent, written, decodeURIComponent]
  cases pieces rest with
  | none => rfl
  | some tail => exact read tail

/-- However a single dot is spelled, it is decoded to one. -/
private theorem decode_single {spelled : Text} (single : isSingleDot spelled = true) :
    decodeURIComponent spelled = some ['.'] := by
  simp only [isSingleDot, decide_eq_true_eq, List.mem_cons, List.not_mem_nil, or_false] at single
  have spellings : spelled.map Char.toLower = ['.'] ∨ spelled.map Char.toLower = ['%', '2', 'e'] := single
  rcases spellings with lower | lower
  · obtain ⟨c, rest, rfl, dot, nil⟩ := List.map_eq_cons_iff.mp lower
    cases List.map_eq_nil_iff.mp nil
    rw [toLower_fixed dot (.inl rfl)]
    rfl
  · obtain ⟨c, rest, rfl, percent, lower⟩ := List.map_eq_cons_iff.mp lower
    obtain ⟨d, rest, rfl, two, lower⟩ := List.map_eq_cons_iff.mp lower
    obtain ⟨e, rest, rfl, letter, nil⟩ := List.map_eq_cons_iff.mp lower
    cases List.map_eq_nil_iff.mp nil
    rw [toLower_fixed percent (.inr (.inl rfl)), toLower_fixed two (.inr (.inr rfl)), decode_escaped (toLower_e letter)]
    rfl

private theorem decode_double {spelled : Text} (double : isDoubleDot spelled = true) :
    decodeURIComponent spelled = some ['.', '.'] := by
  simp only [isDoubleDot, decide_eq_true_eq, List.mem_cons, List.not_mem_nil, or_false] at double
  have spellings : spelled.map Char.toLower = ['.', '.'] ∨ spelled.map Char.toLower = ['.', '%', '2', 'e'] ∨
      spelled.map Char.toLower = ['%', '2', 'e', '.'] ∨
      spelled.map Char.toLower = ['%', '2', 'e', '%', '2', 'e'] := double
  rcases spellings with lower | lower | lower | lower
  · obtain ⟨c, rest, rfl, dot, lower⟩ := List.map_eq_cons_iff.mp lower
    obtain ⟨d, rest, rfl, dot', nil⟩ := List.map_eq_cons_iff.mp lower
    cases List.map_eq_nil_iff.mp nil
    rw [toLower_fixed dot (.inl rfl), toLower_fixed dot' (.inl rfl)]
    rfl
  · obtain ⟨c, rest, rfl, dot, lower⟩ := List.map_eq_cons_iff.mp lower
    obtain ⟨d, rest, rfl, percent, lower⟩ := List.map_eq_cons_iff.mp lower
    obtain ⟨e, rest, rfl, two, lower⟩ := List.map_eq_cons_iff.mp lower
    obtain ⟨f, rest, rfl, letter, nil⟩ := List.map_eq_cons_iff.mp lower
    cases List.map_eq_nil_iff.mp nil
    rw [toLower_fixed dot (.inl rfl), toLower_fixed percent (.inr (.inl rfl)), toLower_fixed two (.inr (.inr rfl)),
      decode_dot, decode_escaped (toLower_e letter)]
    rfl
  · obtain ⟨c, rest, rfl, percent, lower⟩ := List.map_eq_cons_iff.mp lower
    obtain ⟨d, rest, rfl, two, lower⟩ := List.map_eq_cons_iff.mp lower
    obtain ⟨e, rest, rfl, letter, lower⟩ := List.map_eq_cons_iff.mp lower
    obtain ⟨f, rest, rfl, dot, nil⟩ := List.map_eq_cons_iff.mp lower
    cases List.map_eq_nil_iff.mp nil
    rw [toLower_fixed percent (.inr (.inl rfl)), toLower_fixed two (.inr (.inr rfl)), toLower_fixed dot (.inl rfl),
      decode_escaped (toLower_e letter), decode_dot]
    rfl
  · obtain ⟨c, rest, rfl, percent, lower⟩ := List.map_eq_cons_iff.mp lower
    obtain ⟨d, rest, rfl, two, lower⟩ := List.map_eq_cons_iff.mp lower
    obtain ⟨e, rest, rfl, letter, lower⟩ := List.map_eq_cons_iff.mp lower
    obtain ⟨c', rest, rfl, percent', lower⟩ := List.map_eq_cons_iff.mp lower
    obtain ⟨d', rest, rfl, two', lower⟩ := List.map_eq_cons_iff.mp lower
    obtain ⟨e', rest, rfl, letter', nil⟩ := List.map_eq_cons_iff.mp lower
    cases List.map_eq_nil_iff.mp nil
    rw [toLower_fixed percent (.inr (.inl rfl)), toLower_fixed two (.inr (.inr rfl)),
      toLower_fixed percent' (.inr (.inl rfl)), toLower_fixed two' (.inr (.inr rfl)),
      decode_escaped (toLower_e letter), decode_escaped (toLower_e letter')]
    rfl

private theorem single_iff (escaping : Escaping keeps) : isSingleDot (encodeWith keeps segment) = true ↔ segment = ['.'] := by
  constructor
  · intro single
    exact Option.some.inj ((decode_alone escaping segment).symm.trans (decode_single single))
  · rintro rfl
    rw [encodeWith_keeps fun c mem => List.mem_singleton.mp mem ▸ escaping.dot]
    decide

private theorem double_iff (escaping : Escaping keeps) :
    isDoubleDot (encodeWith keeps segment) = true ↔ segment = ['.', '.'] := by
  constructor
  · intro double
    exact Option.some.inj ((decode_alone escaping segment).symm.trans (decode_double double))
  · rintro rfl
    have kept : ∀ c ∈ ['.', '.'], keeps c = true := by
      intro c mem
      rcases List.mem_cons.mp mem with rfl | mem
      · exact escaping.dot
      · exact List.mem_singleton.mp mem ▸ escaping.dot
    rw [encodeWith_keeps kept]
    decide

/-! ### Opening a reference -/

private theorem encodeSegment_encoded (escaping : Escaping keeps) (text : Text) :
    encodeSegment (encodeWith keeps text) = encodeWith keeps text := by
  have kept : ∀ c ∈ encodeWith keeps text, (if pathChar c then [c] else percentEncode c) = [c] :=
    fun c mem => if_pos (encodeWith_chars escaping text c mem).1
  calc (encodeWith keeps text).flatMap (fun c => if pathChar c then [c] else percentEncode c)
      = (encodeWith keeps text).flatMap fun c => [c] := List.flatMap_congr kept
    _ = encodeWith keeps text := List.flatMap_singleton' _

private theorem advance_encoded (escaping : Escaping keeps) (path : List Text) (segment : Text) :
    advance (path.map (encodeWith keeps)) (encodeWith keeps segment) = (climb path segment).map (encodeWith keeps) := by
  unfold advance climb
  by_cases double : segment = ['.', '.']
  · rw [if_pos ((double_iff escaping).mpr double), if_pos double, List.map_dropLast]
  rw [if_neg fun spelled => double ((double_iff escaping).mp spelled), if_neg double]
  by_cases single : segment = ['.']
  · rw [if_pos ((single_iff escaping).mpr single), if_pos single]
  rw [if_neg fun spelled => single ((single_iff escaping).mp spelled), if_neg single, encodeSegment_encoded escaping,
    List.map_append, List.map_singleton]

private theorem walk_encoded (escaping : Escaping keeps) (path segments : List Text) :
    walk (path.map (encodeWith keeps)) (segments.map (encodeWith keeps)) =
      (dotless path segments).map (encodeWith keeps) := by
  induction segments generalizing path with
  | nil => rfl
  | cons segment rest ih =>
    cases rest with
    | nil =>
      simp only [List.map_cons, List.map_nil, walk, dotless, advance_encoded escaping, Bool.or_eq_true,
        single_iff escaping, double_iff escaping]
      split
      · rw [List.map_append]
        rfl
      · rfl
    | cons next rest =>
      have later := ih (climb path segment)
      rw [List.map_cons] at later
      change walk (advance (path.map (encodeWith keeps)) (encodeWith keeps segment))
        (encodeWith keeps next :: rest.map (encodeWith keeps)) = _
      rw [advance_encoded escaping, later]
      rfl

private theorem separate_segmentHref (escaping : Escaping keeps) (some' : segments ≠ []) :
    separate (segmentHref keeps segments) = segments.map (encodeWith keeps) := by
  cases segments with
  | nil => exact absurd rfl some'
  | cons segment rest =>
    have whole : scrub (segmentHref keeps (segment :: rest)) = segmentHref keeps (segment :: rest) :=
      scrub_kept (segmentHref_chars escaping _)
    have shape : segmentHref keeps (segment :: rest) =
        '/' :: (encodeWith keeps segment ++ serialize (rest.map (encodeWith keeps))) := rfl
    have free (text : Text) : '/' ∉ encodeWith keeps text := fun mem => (encodeWith_chars escaping text _ mem).2.1 rfl
    have others : ∀ written ∈ rest.map (encodeWith keeps), '/' ∉ written := by
      intro written mem
      obtain ⟨text, -, rfl⟩ := List.mem_map.mp mem
      exact free text
    rw [separate, whole, shape, List.head?_cons, if_pos rfl, List.tail_cons, splitOn_serialize _ others,
      List.splitOn_eq_singleton (free segment)]
    rfl

theorem parsePath_segmentHref (escaping : Escaping keeps) (some' : segments ≠ []) :
    parsePath (segmentHref keeps segments) = (dotless [] segments).map (encodeWith keeps) := by
  rw [parsePath, separate_segmentHref escaping some']
  exact walk_encoded escaping [] segments

/-- A path that begins with a name stays on the host. -/
theorem segmentHref_rooted (escaping : Escaping keeps) (some' : segments ≠ [])
    (named : segments.head? = some [] → segments = [[]]) : Rooted (segmentHref keeps segments) := by
  cases segments with
  | nil => exact absurd rfl some'
  | cons segment rest =>
    refine ⟨rfl, ?_, fun mem => (segmentHref_chars escaping _ _ mem).2 rfl, fun c mem => ?_⟩
    · intro double
      cases segment with
      | nil =>
        cases named rfl
        have lone : Text.startsWith ['/'] ['/', '/'] = true := double
        cases lone
      | cons c segment =>
        have written : encodeWith keeps (c :: segment) ≠ [] := by
          intro nil
          have decoded := decode_alone escaping (c :: segment)
          rw [nil] at decoded
          cases decoded
        obtain ⟨d, more, shape⟩ := List.exists_cons_of_ne_nil written
        have apart := (encodeWith_chars escaping (c :: segment) d (shape ▸ List.mem_cons_self)).2.1
        have href : segmentHref keeps ((c :: segment) :: rest) =
            '/' :: d :: (more ++ serialize (rest.map (encodeWith keeps))) := by
          change '/' :: (encodeWith keeps (c :: segment) ++ _) = _
          rw [shape]
          rfl
        rw [href] at double
        obtain ⟨later, same⟩ := List.isPrefixOf_iff_prefix.mp double
        have second := (List.cons.inj (List.cons.inj same).2).1
        exact apart second.symm
    · have kept := (segmentHref_chars escaping _ c mem).1
      simp only [pathChar, Bool.and_eq_true, decide_eq_true_eq] at kept
      have above : ' '.toNat < c.toNat := kept.1.1
      have below : c.toNat ≤ '~'.toNat := kept.1.2
      exact ⟨above, (Nat.lt_of_le_of_lt below (by decide)).ne⟩

/-- What a reference to a path opens, on every host and whatever becomes of other references. -/
theorem segmentHref_resolves (escaping : Escaping keeps) (some' : segments ≠ [])
    (named : segments.head? = some [] → segments = [[]]) (elsewhere : Text → Text → Option Text) (origin : Text) :
    resolve elsewhere origin (segmentHref keeps segments) =
      some (origin ++ segmentHref keeps (dotless [] segments)) := by
  have plain := segmentHref_plain escaping segments
  have unhashed : (segmentHref keeps segments).takeWhile (· ≠ '#') = segmentHref keeps segments :=
    List.takeWhile_eq_self_iff.mpr fun c mem => decide_eq_true (plain c mem).2
  have nothing : (segmentHref keeps segments).dropWhile (· ≠ '#') = [] :=
    List.dropWhile_eq_nil_iff.mpr fun c mem => decide_eq_true (plain c mem).2
  have unasked : (segmentHref keeps segments).takeWhile (· ≠ '?') = segmentHref keeps segments :=
    List.takeWhile_eq_self_iff.mpr fun c mem => decide_eq_true (plain c mem).1
  have unasked' : (segmentHref keeps segments).dropWhile (· ≠ '?') = [] :=
    List.dropWhile_eq_nil_iff.mpr fun c mem => decide_eq_true (plain c mem).1
  rw [(segmentHref_rooted escaping some' named).resolves]
  simp only [resolveReference, unhashed, nothing, unasked, unasked', parsePath_segmentHref escaping some',
    List.append_nil]
  rfl

/-- A reference opens a path on every host. -/
def Opens (href pathname : Text) : Prop :=
  ∀ elsewhere origin, resolve elsewhere origin href = some (origin ++ pathname)

theorem opens_segmentHref (escaping : Escaping keeps) (some' : segments ≠ [])
    (named : segments.head? = some [] → segments = [[]]) {pathname : Text} :
    Opens (segmentHref keeps segments) pathname ↔ pathname = segmentHref keeps (dotless [] segments) := by
  constructor
  · intro opens
    have here := (opens (fun _ _ => none) []).symm.trans (segmentHref_resolves escaping some' named _ [])
    exact List.append_cancel_left (Option.some.inj here)
  · rintro rfl
    exact segmentHref_resolves escaping some' named

/-! ### Directories -/

/-- The directory at the end of segments, as the front of a path. -/
def dirText (dir : List Text) : Text := dir.flatMap (· ++ ['/'])

/-- The reference to a path whose separators may be doubled. -/
def keyHref (keeps : Char → Bool) (key : Text) : Text :=
  let encoded := ['/'].intercalate (((key.splitOn '/').filter (· ≠ [])).map (encodeWith keeps))
  ['/'] ++ encoded ++ if key.getLast? = some '/' ∧ encoded ≠ [] then ['/'] else []

variable {dir : List Text} {name : Text}

theorem dirText_cons (segment : Text) (dir : List Text) :
    dirText (segment :: dir) = segment ++ '/' :: dirText dir := by
  rw [dirText, List.flatMap_cons, List.append_assoc, List.singleton_append]
  rfl

theorem dirText_concat (dir : List Text) (segment : Text) :
    dirText (dir ++ [segment]) = dirText dir ++ (segment ++ ['/']) := by
  rw [dirText, List.flatMap_append, List.flatMap_singleton]
  rfl

theorem serialize_concat (dir : List Text) (name : Text) :
    serialize (dir ++ [name]) = '/' :: (dirText dir ++ name) := by
  induction dir with
  | nil => exact List.append_nil _
  | cons segment dir ih =>
    have shape : serialize (segment :: dir ++ [name]) = '/' :: (segment ++ serialize (dir ++ [name])) := rfl
    rw [shape, ih, dirText_cons, List.append_assoc, List.cons_append]

theorem intercalate_concat (dir : List Text) (name : Text) :
    ['/'].intercalate (dir ++ [name]) = dirText dir ++ name := by
  induction dir with
  | nil => exact List.intercalate_singleton
  | cons segment dir ih =>
    rw [List.cons_append, List.intercalate_cons_of_ne_nil (List.append_ne_nil_of_right_ne_nil _ (List.cons_ne_nil _ _)),
      ih, dirText_cons, List.append_assoc, List.append_assoc, List.cons_append]
    rfl

theorem splitOn_concat (free : ∀ segment ∈ dir, '/' ∉ segment) (free' : '/' ∉ name) :
    (dirText dir ++ name).splitOn '/' = dir ++ [name] := by
  rw [← intercalate_concat]
  refine List.splitOn_intercalate '/' (fun segment mem => ?_) (List.append_ne_nil_of_right_ne_nil _ (List.cons_ne_nil _ _))
  rcases List.mem_append.mp mem with mem | mem
  · exact free segment mem
  · exact List.mem_singleton.mp mem ▸ free'

/-- What is before the first separator. -/
theorem first_segment {rest : Text} (slash : '/' ∈ rest) :
    '/' ∉ rest.takeWhile (· ≠ '/') ∧ ∃ more, rest = rest.takeWhile (· ≠ '/') ++ '/' :: more := by
  have before : '/' ∉ rest.takeWhile (· ≠ '/') := by
    intro mem
    have kept := List.mem_takeWhile_imp mem
    exact of_decide_eq_true kept rfl
  refine ⟨before, ?_⟩
  have parts := List.takeWhile_append_dropWhile (p := (· ≠ '/')) (l := rest)
  cases tail : rest.dropWhile (· ≠ '/') with
  | nil =>
    rw [tail, List.append_nil] at parts
    rw [parts] at before
    exact absurd slash before
  | cons c more =>
    have first : c = '/' := by
      have stops := List.head?_dropWhile_not (· ≠ '/') rest
      rw [tail] at stops
      simpa using stops
    rw [tail, first] at parts
    exact ⟨more, parts.symm⟩

theorem serialize_intercalate (some' : segments ≠ []) : serialize segments = '/' :: ['/'].intercalate segments := by
  obtain ⟨dir, name, rfl⟩ := (List.eq_nil_or_concat segments).resolve_left some'
  rw [List.concat_eq_append, serialize_concat, intercalate_concat]

private theorem encoded_ne_nil (escaping : Escaping keeps) (some' : segments ≠ []) (kept : ∀ segment ∈ segments, segment ≠ []) :
    ['/'].intercalate (segments.map (encodeWith keeps)) ≠ [] := by
  cases segments with
  | nil => exact absurd rfl some'
  | cons segment rest =>
    have written : encodeWith keeps segment ≠ [] := by
      intro nil
      have decoded := decode_alone escaping segment
      rw [nil] at decoded
      exact kept segment List.mem_cons_self (Option.some.inj decoded).symm
    cases rest with
    | nil =>
      rw [List.map_singleton, List.intercalate_singleton]
      exact written
    | cons next rest =>
      rw [List.map_cons, List.map_cons, List.intercalate_cons_of_ne_nil (List.cons_ne_nil _ _), List.append_assoc]
      exact List.append_ne_nil_of_left_ne_nil written _

theorem keyHref_directory (escaping : Escaping keeps) (free : ∀ segment ∈ dir, '/' ∉ segment) :
    keyHref keeps (dirText dir) = segmentHref keeps (dir.filter (· ≠ []) ++ [[]]) := by
  have split : (dirText dir).splitOn '/' = dir ++ [[]] := by
    have whole : (dirText dir ++ []).splitOn '/' = dir ++ [[]] := splitOn_concat free List.not_mem_nil
    rw [List.append_nil] at whole
    exact whole
  have kept : ((dirText dir).splitOn '/').filter (· ≠ []) = dir.filter (· ≠ []) := by
    rw [split, List.filter_append]
    exact List.append_nil _
  unfold keyHref
  simp only [kept]
  by_cases nothing : dir.filter (· ≠ []) = []
  · rw [nothing, List.map_nil, List.intercalate_nil, if_neg (fun both => absurd rfl both.2)]
    rfl
  have written := encoded_ne_nil escaping nothing fun segment mem => of_decide_eq_true (List.mem_filter.mp mem).2
  have ends : (dirText dir).getLast? = some '/' := by
    have some' : dir ≠ [] := by
      rintro rfl
      exact nothing rfl
    obtain ⟨front, last, rfl⟩ := (List.eq_nil_or_concat dir).resolve_left some'
    rw [List.concat_eq_append, dirText_concat, ← List.append_assoc]
    exact List.getLast?_concat
  have joined : segmentHref keeps (dir.filter (· ≠ []) ++ [[]]) =
      '/' :: (['/'].intercalate ((dir.filter (· ≠ [])).map (encodeWith keeps)) ++ ['/']) := by
    have both : serialize ((dir.filter (· ≠ [])).map (encodeWith keeps)) = '/' :: _ :=
      serialize_intercalate fun nil => nothing (List.map_eq_nil_iff.mp nil)
    rw [segmentHref, List.map_append, serialize, List.flatMap_append]
    change serialize _ ++ ['/'] = _
    rw [both, List.cons_append]
  rw [if_pos ⟨ends, written⟩, joined]
  rfl

theorem keyHref_file (free : ∀ segment ∈ dir, '/' ∉ segment) (free' : '/' ∉ name) (named : name ≠ []) :
    keyHref keeps (dirText dir ++ name) = segmentHref keeps (dir.filter (· ≠ []) ++ [name]) := by
  have open' : (dirText dir ++ name).getLast? ≠ some '/' := by
    rw [List.getLast?_append_of_ne_nil _ named]
    exact fun last => free' (List.mem_of_getLast? last)
  unfold keyHref
  simp only [splitOn_concat free free']
  rw [if_neg fun both => open' both.1, List.append_nil, segmentHref,
    serialize_intercalate (List.map_eq_nil_iff.not.mpr (List.append_ne_nil_of_right_ne_nil _ (List.cons_ne_nil _ _))),
    List.filter_append, List.filter_singleton]
  rw [decide_eq_true named]
  rfl

/-! ### Where rows lead -/

private theorem dotless_more (path : List Text) (segment : Text) {rest : List Text} (more : rest ≠ []) :
    dotless path (segment :: rest) = dotless (climb path segment) rest := by
  cases rest with
  | nil => exact absurd rfl more
  | cons next rest => rfl

theorem dotless_append (plain : ∀ segment ∈ segments, segment ≠ ['.'] ∧ segment ≠ ['.', '.']) (path : List Text)
    {rest : List Text} (more : rest ≠ []) : dotless path (segments ++ rest) = dotless (path ++ segments) rest := by
  induction segments generalizing path with
  | nil => rw [List.nil_append, List.append_nil]
  | cons segment segments ih =>
    have here := plain segment List.mem_cons_self
    rw [List.cons_append, dotless_more _ _ (List.append_ne_nil_of_right_ne_nil _ more),
      ih fun other mem => plain other (List.mem_cons_of_mem _ mem)]
    rw [climb, if_neg here.2, if_neg here.1, List.append_assoc, List.singleton_append]

/-- Where a row for a directory leads; one without a name leads nowhere else. -/
def descend (dir : List Text) (segment : Text) : List Text := if segment = [] then dir else climb dir segment

/-- Where a row for a file leads: a name of dots leads to a directory. -/
def descendFile (dir : List Text) (name : Text) : List Text :=
  if name = ['.', '.'] ∨ name = ['.'] then climb dir name ++ [[]] else dir ++ [name]

variable {pathname : Text}

private theorem head_named {rest : List Text} (named : ∀ segment ∈ dir, segment ≠ []) (nothing : dir = [] → rest = [[]])
    (empty : (dir ++ rest).head? = some []) : dir ++ rest = [[]] := by
  cases dir with
  | nil => exact nothing rfl
  | cons segment dir => exact absurd (Option.some.inj empty) (named segment List.mem_cons_self)

theorem directory_opens (escaping : Escaping keeps)
    (plain : ∀ segment ∈ dir, segment ≠ [] ∧ segment ≠ ['.'] ∧ segment ≠ ['.', '.'] ∧ '/' ∉ segment) (free : '/' ∉ name) :
    Opens (keyHref keeps (dirText (dir ++ [name]))) pathname ↔ pathname = segmentHref keeps (descend dir name ++ [[]]) := by
  have slashless : ∀ segment ∈ dir ++ [name], '/' ∉ segment := by
    intro segment mem
    rcases List.mem_append.mp mem with mem | mem
    · exact (plain segment mem).2.2.2
    · exact List.mem_singleton.mp mem ▸ free
  have kept : dir.filter (· ≠ []) = dir := List.filter_eq_self.mpr fun segment mem => decide_eq_true (plain segment mem).1
  have dotfree : ∀ segment ∈ dir, segment ≠ ['.'] ∧ segment ≠ ['.', '.'] :=
    fun segment mem => ⟨(plain segment mem).2.1, (plain segment mem).2.2.1⟩
  rw [keyHref_directory escaping slashless, List.filter_append, kept, List.filter_singleton]
  by_cases empty : name = []
  · subst empty
    rw [opens_segmentHref escaping (List.append_ne_nil_of_right_ne_nil _ (List.cons_ne_nil _ _))]
    · have whole := dotless_append dotfree [] (List.cons_ne_nil ([] : Text) [])
      rw [descend, if_pos rfl]
      change pathname = segmentHref keeps (dotless [] (dir ++ [] ++ [[]])) ↔ _
      rw [List.append_nil, whole]
      rfl
    · change (dir ++ [] ++ [[]]).head? = some [] → dir ++ [] ++ [[]] = [[]]
      rw [List.append_nil]
      exact head_named (fun segment mem => (plain segment mem).1) fun _ => rfl
  · rw [decide_eq_true (show name ≠ [] from empty)]
    change Opens (segmentHref keeps (dir ++ [name] ++ [[]])) pathname ↔ _
    rw [opens_segmentHref escaping (List.append_ne_nil_of_right_ne_nil _ (List.cons_ne_nil _ _))]
    · rw [descend, if_neg empty, List.append_assoc, dotless_append dotfree [] (List.append_ne_nil_of_right_ne_nil _ (List.cons_ne_nil _ _))]
      rfl
    · intro first
      cases dir with
      | nil => exact absurd (Option.some.inj first) empty
      | cons segment dir => exact absurd (Option.some.inj first) (plain segment List.mem_cons_self).1

/-- A directory's own reference. -/
theorem root_opens (escaping : Escaping keeps)
    (plain : ∀ segment ∈ dir, segment ≠ [] ∧ segment ≠ ['.'] ∧ segment ≠ ['.', '.'] ∧ '/' ∉ segment) :
    Opens (keyHref keeps (dirText dir)) pathname ↔ pathname = segmentHref keeps (dir ++ [[]]) := by
  rcases List.eq_nil_or_concat dir with rfl | ⟨front, last, rfl⟩
  · exact directory_opens escaping plain List.not_mem_nil
  · rw [List.concat_eq_append] at plain ⊢
    have here := plain last (List.mem_append_right _ (List.mem_singleton_self _))
    rw [directory_opens escaping (fun segment mem => plain segment (List.mem_append_left _ mem)) here.2.2.2, descend,
      if_neg here.1, climb, if_neg here.2.2.1, if_neg here.2.1]

theorem file_opens (escaping : Escaping keeps)
    (plain : ∀ segment ∈ dir, segment ≠ [] ∧ segment ≠ ['.'] ∧ segment ≠ ['.', '.'] ∧ '/' ∉ segment) (free : '/' ∉ name)
    (named : name ≠ []) :
    Opens (keyHref keeps (dirText dir ++ name)) pathname ↔ pathname = segmentHref keeps (descendFile dir name) := by
  have kept : dir.filter (· ≠ []) = dir := List.filter_eq_self.mpr fun segment mem => decide_eq_true (plain segment mem).1
  have dotfree : ∀ segment ∈ dir, segment ≠ ['.'] ∧ segment ≠ ['.', '.'] :=
    fun segment mem => ⟨(plain segment mem).2.1, (plain segment mem).2.2.1⟩
  rw [keyHref_file (fun segment mem => (plain segment mem).2.2.2) free named, kept,
    opens_segmentHref escaping (List.append_ne_nil_of_right_ne_nil _ (List.cons_ne_nil _ _)),
    dotless_append dotfree [] (List.cons_ne_nil _ _)]
  · rw [List.nil_append, dotless, descendFile]
    by_cases dots : name = ['.', '.'] ∨ name = ['.']
    · rw [if_pos dots, if_pos dots]
    · rw [if_neg dots, if_neg dots, climb, if_neg fun same => dots (.inl same), if_neg fun same => dots (.inr same)]
  · intro first
    cases dir with
    | nil => exact absurd (Option.some.inj first) named
    | cons segment dir => exact absurd (Option.some.inj first) (plain segment List.mem_cons_self).1

end Dropway.Lib.Uri
