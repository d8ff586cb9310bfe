import Dropway.Proofs.DeployServed
import Dropway.Proofs.Listing
import Dropway.Serve.Listing

/-! The Go server's listings. Its hrefs leave other characters as they are than the Worker's,
yet open the same paths, so links lead to the same files of a deploy. -/

namespace Dropway.Serve
open Lib Lib.Uri

/-! ### Hrefs -/

theorem pathSegmentChar_escaping : Escaping Listing.pathSegmentChar where
  inPath := by
    intro c kept
    rcases Bool.or_eq_true_iff.mp kept with letter | mark
    · exact (pathChar_alphanum letter).1
    · have every : ['-', '_', '.', '~', '$', '&', '+', ':', '=', '@'].all pathChar = true := by decide
      exact List.all_eq_true.mp every c (List.contains_iff_mem.mp mark)
  literal := rfl
  slash := rfl
  backslash := rfl
  dot := rfl

private theorem kept_ascii {c : Char} (kept : Listing.pathSegmentChar c = true) : c.toNat < 0x80 := by
  have inPath := pathSegmentChar_escaping.inPath kept
  simp only [pathChar, Bool.and_eq_true, decide_eq_true_eq] at inPath
  exact Nat.lt_of_le_of_lt inPath.1.2 (by decide)

private theorem high_escaped : ∀ n < 256, 0x80 ≤ n → Listing.pathSegmentChar (Char.ofNat n) = false := by decide +kernel

private theorem escape_byte (byte : UInt8) (escaped : Listing.pathSegmentChar (Char.ofNat byte.toNat) = false) :
    Listing.pathEscape [byte] =
      Utf8.encode ['%', hexDigit (byte.toNat / 16), hexDigit (byte.toNat % 16)] := by
  rw [Listing.pathEscape, List.flatMap_singleton, escaped]
  rfl

private theorem escape_bytes (bytes : Bytes)
    (escaped : ∀ byte ∈ bytes, Listing.pathSegmentChar (Char.ofNat byte.toNat) = false) :
    Listing.pathEscape bytes = Utf8.encode (bytes.flatMap fun byte =>
      ['%', hexDigit (byte.toNat / 16), hexDigit (byte.toNat % 16)]) := by
  induction bytes with
  | nil => rfl
  | cons byte bytes ih =>
    have here := escape_byte byte (escaped byte List.mem_cons_self)
    rw [List.flatMap_cons, Utf8.encode_append, ← here, ← ih fun b mem => escaped b (List.mem_cons_of_mem _ mem)]
    rw [Listing.pathEscape, Listing.pathEscape, Listing.pathEscape, List.flatMap_cons, List.flatMap_singleton]

private theorem escape_char (c : Char) : Listing.pathEscape (String.utf8EncodeChar c) =
    Utf8.encode (if Listing.pathSegmentChar c then [c] else percentEncode c) := by
  have one : Utf8.encode [c] = String.utf8EncodeChar c := by
    rw [Utf8.encode_cons, Utf8.encode_nil, List.append_nil]
  by_cases kept : Listing.pathSegmentChar c = true
  · have small := kept_ascii kept
    have back : Char.ofNat (Utf8.byteOf c).toNat = c := by
      rw [Utf8.byteOf_toNat small, Char.ofNat_toNat]
    rw [if_pos kept, one, Utf8.encodeChar_ascii small, Listing.pathEscape, List.flatMap_singleton, back, kept]
    rfl
  · have escaped : ∀ byte ∈ String.utf8EncodeChar c, Listing.pathSegmentChar (Char.ofNat byte.toNat) = false := by
      intro byte mem
      by_cases small : c.toNat < 0x80
      · rw [Utf8.encodeChar_ascii small] at mem
        rw [List.mem_singleton.mp mem, Utf8.byteOf_toNat small, Char.ofNat_toNat]
        exact Bool.eq_false_iff.mpr kept
      · have high := Utf8.encodeChar_high (Nat.le_of_not_lt small) byte mem
        have low := byte.toNat_lt
        exact high_escaped byte.toNat low high
    rw [if_neg kept, escape_bytes _ escaped, percentEncode, one]

/-- Escaping a string's bytes is escaping its characters. -/
theorem pathEscape_encode (text : Text) :
    Listing.pathEscape (Utf8.encode text) = Utf8.encode (encodeWith Listing.pathSegmentChar text) := by
  induction text with
  | nil => rfl
  | cons c text ih =>
    have shape : encodeWith Listing.pathSegmentChar (c :: text) =
        (if Listing.pathSegmentChar c then [c] else percentEncode c) ++ encodeWith Listing.pathSegmentChar text :=
      List.flatMap_cons
    have parts : Listing.pathEscape (String.utf8EncodeChar c ++ Utf8.encode text) =
        Listing.pathEscape (String.utf8EncodeChar c) ++ Listing.pathEscape (Utf8.encode text) := List.flatMap_append
    rw [Utf8.encode_cons, parts, shape, Utf8.encode_append, escape_char, ih]

theorem encodeHref_encode (key : Text) :
    Listing.encodeHref (Utf8.encode key) = Utf8.encode (keyHref Listing.pathSegmentChar key) := by
  have split : (Utf8.encode key).splitOn 0x2F = (key.splitOn '/').map Utf8.encode :=
    Utf8.splitOn_encode (show '/'.toNat < 0x80 by decide) key
  have kept : ((key.splitOn '/').map Utf8.encode).filter (· ≠ []) = ((key.splitOn '/').filter (· ≠ [])).map Utf8.encode := by
    rw [List.filter_map]
    congr 2
    funext segment
    simp only [Function.comp_apply, ne_eq, Utf8.encode_eq_nil]
  have escaped (segments : List Text) : (segments.map Utf8.encode).map Listing.pathEscape =
      (segments.map (encodeWith Listing.pathSegmentChar)).map Utf8.encode := by
    rw [List.map_map, List.map_map]
    exact List.map_congr_left fun segment _ => pathEscape_encode segment
  have ends : (Utf8.encode key).getLast? = some 0x2F ↔ key.getLast? = some '/' :=
    Utf8.getLast_encode (show '/'.toNat < 0x80 by decide) key
  unfold Listing.encodeHref keyHref
  simp only [split, kept, escaped, intercalate_encode, ends, ne_eq, Utf8.encode_eq_nil, Utf8.encode_append]
  split
  · rfl
  · rfl

/-! ### Rows -/

variable {manifest : Manifest} {front : Text} {entries : List Listing.Entry}

def Stored (manifest : Manifest) (path : Text) : Prop := ∃ entry, (path, entry) ∈ manifest.files

private theorem below_encode {key : Text} {rest : Bytes} :
    Listing.below (Utf8.encode front) (Utf8.encode key) = some rest ↔
      ∃ more, more ≠ [] ∧ key = front ++ more ∧ rest = Utf8.encode more := by
  unfold Listing.below
  constructor
  · intro found
    split at found
    · rename_i inside
      cases found
      obtain ⟨more, rfl⟩ := Utf8.encode_prefix (List.isPrefixOf_iff_prefix.mp inside.1)
      rw [Utf8.encode_append, List.drop_left] at inside ⊢
      refine ⟨more, ?_, rfl, rfl⟩
      rintro rfl
      exact inside.2 rfl
    · cases found
  · rintro ⟨more, some', rfl, rfl⟩
    have inside : (Utf8.encode front).isPrefixOf (Utf8.encode (front ++ more)) = true := by
      rw [Utf8.encode_append]
      exact List.isPrefixOf_iff_prefix.mpr ⟨_, rfl⟩
    have drops : (Utf8.encode (front ++ more)).drop (Utf8.encode front).length = Utf8.encode more := by
      rw [Utf8.encode_append, List.drop_left]
    rw [drops, if_pos ⟨inside, fun nil => some' (Utf8.encode_eq_nil.mp nil)⟩]

private theorem mem_children {child : Bytes × Bytes × Entry} : child ∈ Listing.children manifest (Utf8.encode front) ↔
    ∃ more entry, more ≠ [] ∧ (front ++ more, entry) ∈ manifest.files ∧
      child = (Utf8.encode (front ++ more), Utf8.encode more, entry) := by
  unfold Listing.children
  rw [List.mem_filterMap]
  constructor
  · rintro ⟨⟨key, entry⟩, mem, found⟩
    obtain ⟨rest, inside, rfl⟩ := Option.map_eq_some_iff.mp found
    obtain ⟨more, some', rfl, rfl⟩ := below_encode.mp inside
    exact ⟨more, entry, some', mem, rfl⟩
  · rintro ⟨more, entry, some', mem, rfl⟩
    refine ⟨_, mem, ?_⟩
    rw [below_encode.mpr ⟨more, some', rfl, rfl⟩]
    rfl

private theorem slash_encode {text : Text} : 0x2F ∈ Utf8.encode text ↔ '/' ∈ text :=
  Utf8.byteOf_mem_encode (show '/'.toNat < 0x80 by decide)

private theorem takeWhile_encode (text : Text) :
    (Utf8.encode text).takeWhile (· ≠ 0x2F) = Utf8.encode (text.takeWhile (· ≠ '/')) :=
  (Utf8.agrees_ne (show '/'.toNat < 0x80 by decide)).takeWhile text

theorem listDirectory_eq_none : Listing.listDirectory manifest (Utf8.encode front) = none ↔
    ∀ rest, rest ≠ [] → ¬ Stored manifest (front ++ rest) := by
  have empty : Listing.listDirectory manifest (Utf8.encode front) = none ↔ Listing.children manifest (Utf8.encode front) = [] := by
    simp only [Listing.listDirectory]
    constructor
    · intro nothing
      split at nothing
      · rename_i both
        refine List.eq_nil_iff_forall_not_mem.mpr fun child mem => ?_
        by_cases slash : 0x2F ∈ child.2.1
        · exact absurd (List.mem_filter.mpr ⟨mem, decide_eq_true slash⟩)
            (List.map_eq_nil_iff.mp both.1 ▸ List.not_mem_nil)
        · exact absurd (List.mem_filter.mpr ⟨mem, decide_eq_true slash⟩)
            (List.map_eq_nil_iff.mp both.2 ▸ List.not_mem_nil)
      · cases nothing
    · intro nothing
      rw [nothing]
      exact if_pos ⟨rfl, rfl⟩
  rw [empty, List.eq_nil_iff_forall_not_mem]
  constructor
  · rintro none' rest some' ⟨entry, mem⟩
    exact none' _ (mem_children.mpr ⟨rest, entry, some', mem, rfl⟩)
  · intro none' child mem
    obtain ⟨more, entry, some', stored, -⟩ := mem_children.mp mem
    exact none' more some' ⟨entry, stored⟩

/-- The rows of a listing are those of the immediate children. -/
theorem mem_listDirectory (listed : Listing.listDirectory manifest (Utf8.encode front) = some entries)
    {row : Listing.Entry} : row ∈ entries ↔
      (∃ name entry, name ≠ [] ∧ '/' ∉ name ∧ (front ++ name, entry) ∈ manifest.files ∧
        row = ⟨Utf8.encode name, Utf8.encode (keyHref Listing.pathSegmentChar (front ++ name)), false, entry.size⟩) ∨
      ∃ segment rest entry, '/' ∉ segment ∧ (front ++ (segment ++ '/' :: rest), entry) ∈ manifest.files ∧
        row = ⟨Utf8.encode (segment ++ ['/']),
          Utf8.encode (keyHref Listing.pathSegmentChar (front ++ (segment ++ ['/']))), true, none⟩ := by
  simp only [Listing.listDirectory] at listed
  split at listed
  · cases listed
  cases listed
  rw [List.mem_append, or_comm]
  refine or_congr ?_ ?_
  · rw [List.mem_mergeSort, List.mem_map]
    constructor
    · rintro ⟨child, mem, rfl⟩
      obtain ⟨inside, free⟩ := List.mem_filter.mp mem
      obtain ⟨more, entry, some', stored, rfl⟩ := mem_children.mp inside
      refine ⟨more, entry, some', fun slash => of_decide_eq_true free (slash_encode.mpr slash), stored, ?_⟩
      rw [encodeHref_encode]
    · rintro ⟨name, entry, some', free, stored, rfl⟩
      have child := mem_children.mpr ⟨name, entry, some', stored, rfl⟩
      refine ⟨_, List.mem_filter.mpr ⟨child, decide_eq_true fun slash => free (slash_encode.mp slash)⟩, ?_⟩
      rw [encodeHref_encode]
  · rw [List.mem_map]
    constructor
    · rintro ⟨segment, sorted, rfl⟩
      obtain ⟨child, inside, rfl⟩ := List.mem_map.mp (List.mem_dedup.mp (List.mem_mergeSort.mp sorted))
      obtain ⟨mem, slash⟩ := List.mem_filter.mp inside
      obtain ⟨more, entry, some', stored, rfl⟩ := mem_children.mp mem
      obtain ⟨free, rest, shape⟩ := first_segment (slash_encode.mp (of_decide_eq_true slash))
      refine ⟨_, rest, entry, free, shape ▸ stored, ?_⟩
      simp only [takeWhile_encode]
      have joined : Utf8.encode front ++ Utf8.encode (more.takeWhile (· ≠ '/')) ++ [0x2F] =
          Utf8.encode (front ++ (more.takeWhile (· ≠ '/') ++ ['/'])) := by
        rw [Utf8.encode_append, Utf8.encode_append, List.append_assoc]
        rfl
      rw [joined, encodeHref_encode, Utf8.encode_append (more.takeWhile _)]
      rfl
    · rintro ⟨segment, rest, entry, free, stored, rfl⟩
      have first : (segment ++ '/' :: rest).takeWhile (· ≠ '/') = segment := by
        have kept : ∀ c ∈ segment, decide (c ≠ '/') = true := by
          intro c mem
          refine decide_eq_true ?_
          rintro rfl
          exact free mem
        rw [List.takeWhile_append_of_pos kept]
        exact List.append_nil segment
      have child := mem_children.mpr
        ⟨segment ++ '/' :: rest, entry, List.append_ne_nil_of_right_ne_nil _ (List.cons_ne_nil _ _), stored, rfl⟩
      have slash : 0x2F ∈ Utf8.encode (segment ++ '/' :: rest) :=
        slash_encode.mpr (List.mem_append_right _ List.mem_cons_self)
      refine ⟨Utf8.encode segment, List.mem_mergeSort.mpr (List.mem_dedup.mpr (List.mem_map.mpr
        ⟨_, List.mem_filter.mpr ⟨child, decide_eq_true slash⟩, ?_⟩)), ?_⟩
      · exact (takeWhile_encode _).trans (congrArg Utf8.encode first)
      · have joined : Utf8.encode front ++ Utf8.encode segment ++ [0x2F] = Utf8.encode (front ++ (segment ++ ['/'])) := by
          rw [Utf8.encode_append, Utf8.encode_append, List.append_assoc]
          rfl
        rw [joined, encodeHref_encode, Utf8.encode_append segment]
        rfl

/-! ### The pages of directories and files -/

open Edge (Named)

variable {dir : List Text} {name path : Text}

def GoLinks (manifest : Manifest) (here href : Text) : Prop :=
  ∃ dirPrefix entries, pageAt manifest (Utf8.encode here) = .listing dirPrefix entries ∧
    Utf8.encode href ∈ Listing.hrefs dirPrefix entries

def GoShows (manifest : Manifest) (here path : Text) : Prop :=
  ∃ entry, (path, entry) ∈ manifest.files ∧ pageAt manifest (Utf8.encode here) = .file (Utf8.encode path) entry

private theorem clean_encode (segments : List Text) :
    cleanPath (Utf8.encode (segmentHref Listing.pathSegmentChar segments)) =
      (Edge.cleanPath (segmentHref Listing.pathSegmentChar segments)).map Utf8.encode := by
  have plain : (segmentHref Listing.pathSegmentChar segments).takeWhile (fun c => c ≠ '?' ∧ c ≠ '#') =
      segmentHref Listing.pathSegmentChar segments :=
    List.takeWhile_eq_self_iff.mpr fun c mem =>
      decide_eq_true (segmentHref_plain pathSegmentChar_escaping segments c mem)
  have spelled := decode_segmentHref pathSegmentChar_escaping segments
  rw [← plain] at spelled
  exact cleanPath_eq spelled

private theorem found_isSome : (manifest.get (Utf8.encode path)).isSome ↔ Stored manifest path := by
  rw [Manifest.get, Option.isSome_map, List.find?_isSome]
  constructor
  · rintro ⟨⟨key, entry⟩, mem, same⟩
    have equal : key = path := Utf8.encode_injective (of_decide_eq_true same)
    exact ⟨entry, equal ▸ mem⟩
  · rintro ⟨entry, mem⟩
    exact ⟨_, mem, decide_eq_true rfl⟩

private theorem get_stored (distinct : (manifest.files.map (·.1)).Nodup) {entry : Entry}
    (mem : (path, entry) ∈ manifest.files) : manifest.get (Utf8.encode path) = some entry := by
  obtain ⟨other, found⟩ := Option.isSome_iff_exists.mp (found_isSome.mpr ⟨entry, mem⟩)
  obtain ⟨⟨key, other'⟩, first, rfl⟩ := Option.map_eq_some_iff.mp found
  have here := List.find?_some first
  have same : key = path := Utf8.encode_injective (of_decide_eq_true here)
  subst same
  have equal := List.inj_on_of_nodup_map distinct (List.mem_of_find?_eq_some first) mem rfl
  rw [found, (Prod.mk.inj equal).2]

private theorem missing_page : (manifest.get notFoundPath).isNone = true ↔ ¬ Stored manifest "404.html".toList := by
  rw [notFoundPath, ← found_isSome, Option.not_isSome_iff_eq_none, Option.isNone_iff_eq_none]

private theorem script_congr {one two : Text} (same : (one.splitOn '/').getLastD [] = (two.splitOn '/').getLastD []) :
    isServiceWorkerScript (Utf8.encode one) = isServiceWorkerScript (Utf8.encode two) := by
  have last (text : Text) : ((Utf8.encode text).splitOn 0x2F).getLastD [] = Utf8.encode ((text.splitOn '/').getLastD []) := by
    have split : (Utf8.encode text).splitOn 0x2F = (text.splitOn '/').map Utf8.encode :=
      Utf8.splitOn_encode (show '/'.toNat < 0x80 by decide) text
    rw [split, List.getLastD_eq_getLast?, List.getLastD_eq_getLast?, List.getLast?_map]
    cases (text.splitOn '/').getLast? <;> rfl
  unfold isServiceWorkerScript
  rw [last, last, same]

private theorem last_segment (named : ∀ segment ∈ dir, Named segment) (free : '/' ∉ name) :
    ((dirText dir ++ name).splitOn '/').getLastD [] = name := by
  rw [splitOn_concat (fun segment mem => (named segment mem).slash) free]
  exact List.getLastD_concat ..

private theorem directory_script (named : ∀ segment ∈ dir, Named segment) :
    isServiceWorkerScript (Utf8.encode (dirText dir)) = false := by
  have last : ((dirText dir ++ []).splitOn '/').getLastD [] = [] := last_segment named List.not_mem_nil
  rw [List.append_nil] at last
  have same : isServiceWorkerScript (Utf8.encode (dirText dir)) = isServiceWorkerScript (Utf8.encode []) := script_congr last
  exact same.trans (by decide)

private theorem index_script (named : ∀ segment ∈ dir, Named segment) :
    isServiceWorkerScript (Utf8.encode (dirText dir ++ "index.html".toList)) = false := by
  have same : isServiceWorkerScript (Utf8.encode (dirText dir ++ "index.html".toList)) =
      isServiceWorkerScript (Utf8.encode "index.html".toList) := script_congr (last_segment named (by decide))
  exact same.trans (by decide)

/-- A directory is answered with its index, or else with its listing. -/
private theorem directory_page (named : ∀ segment ∈ dir, Named segment) {here : Text}
    (cleaned : cleanPath (Utf8.encode here) = some (Utf8.encode (dirText dir))) :
    (∃ entry, (dirText dir ++ "index.html".toList, entry) ∈ manifest.files ∧
      pageAt manifest (Utf8.encode here) = .file (Utf8.encode (dirText dir ++ "index.html".toList)) entry) ∨
    ((¬ Stored manifest (dirText dir ++ "index.html".toList) ∧ ¬ Stored manifest "404.html".toList) ∧
      ∃ entries, Listing.listDirectory manifest (Utf8.encode (dirText dir)) = some entries ∧
        pageAt manifest (Utf8.encode here) = .listing (Utf8.encode (dirText dir)) entries) ∨
    pageAt manifest (Utf8.encode here) = .missing ∧ ¬ Stored manifest (dirText dir ++ "index.html".toList) ∧
      (Stored manifest "404.html".toList ∨ Listing.listDirectory manifest (Utf8.encode (dirText dir)) = none) := by
  have candidates : Edge.candidatePaths (dirText dir) = [dirText dir ++ "index.html".toList] :=
    if_pos (Tree.dirText_ends dir)
  have resolved : manifest.resolve (Utf8.encode (dirText dir)) =
      (manifest.get (Utf8.encode (dirText dir ++ "index.html".toList))).map fun entry =>
        (Utf8.encode (dirText dir ++ "index.html".toList), entry) := by
    rw [Manifest.resolve, candidatePaths_encode, candidates, List.map_singleton, List.findSome?_cons, List.findSome?_nil]
    cases manifest.get (Utf8.encode (dirText dir ++ "index.html".toList)) <;> rfl
  have ends : (Utf8.encode (dirText dir)).getLast? = some 0x2F ↔ (dirText dir).getLast? = some '/' :=
    Utf8.getLast_encode (show '/'.toNat < 0x80 by decide) _
  have itself : Listing.directoryPrefix (Utf8.encode (dirText dir)) = Utf8.encode (dirText dir) :=
    if_pos ((Tree.dirText_ends dir).imp Utf8.encode_eq_nil.mpr ends.mpr)
  unfold pageAt
  rw [cleaned]
  simp only [directory_script named, Bool.false_eq_true, if_false, resolved]
  cases found : manifest.get (Utf8.encode (dirText dir ++ "index.html".toList)) with
  | some entry =>
    obtain ⟨⟨key, other⟩, first, same⟩ := Option.map_eq_some_iff.mp found
    have here := List.find?_some first
    have equal : key = dirText dir ++ "index.html".toList := Utf8.encode_injective (of_decide_eq_true here)
    have entry' : other = entry := same
    subst equal entry'
    exact .inl ⟨other, List.mem_of_find?_eq_some first, rfl⟩
  | none =>
    have unstored : ¬ Stored manifest (dirText dir ++ "index.html".toList) := by
      rw [← found_isSome, found]
      exact Bool.false_ne_true
    right
    simp only [Option.map_none, itself]
    by_cases custom : Stored manifest "404.html".toList
    · rw [if_neg fun none' => missing_page.mp none' custom]
      exact .inr ⟨rfl, unstored, .inl custom⟩
    · rw [if_pos (missing_page.mpr custom)]
      cases listed : Listing.listDirectory manifest (Utf8.encode (dirText dir)) with
      | none => exact .inr ⟨rfl, unstored, .inr rfl⟩
      | some entries => exact .inl ⟨⟨unstored, custom⟩, entries, rfl, rfl⟩

/-- A stored file is answered with itself, unless it would be a service worker. -/
private theorem file_page (distinct : (manifest.files.map (·.1)).Nodup) {here : Text} {entry : Entry}
    (some' : path ≠ []) (open' : path.getLast? ≠ some '/') (stored : (path, entry) ∈ manifest.files)
    (cleaned : cleanPath (Utf8.encode here) = some (Utf8.encode path)) :
    pageAt manifest (Utf8.encode here) =
      if isServiceWorkerScript (Utf8.encode path) then .missing else .file (Utf8.encode path) entry := by
  obtain ⟨more, candidates⟩ : ∃ more, Edge.candidatePaths path = path :: more := by
    rw [Edge.candidatePaths, if_neg (not_or.mpr ⟨some', open'⟩)]
    split
    · exact ⟨_, rfl⟩
    · exact ⟨_, rfl⟩
  unfold pageAt
  rw [cleaned]
  simp only [Manifest.resolve, candidatePaths_encode, candidates, List.map_cons, List.findSome?_cons,
    get_stored distinct stored, Option.map_some]

/-! ### The files that are found -/

private theorem parentHref_concat (free : '/' ∉ name) : Listing.parentHref (Utf8.encode (dirText (dir ++ [name]))) =
    Utf8.encode (keyHref Listing.pathSegmentChar (dirText dir)) := by
  have whole : Utf8.encode (dirText (dir ++ [name])) = Utf8.encode (dirText dir ++ name) ++ [0x2F] := by
    rw [dirText_concat, ← List.append_assoc, Utf8.encode_append (dirText dir ++ name)]
    rfl
  have front : ((Utf8.encode (dirText dir ++ name)).reverse.dropWhile (· ≠ 0x2F)).reverse = Utf8.encode (dirText dir) := by
    rw [Utf8.encode_append, List.reverse_append, List.dropWhile_append_of_pos]
    · rcases List.eq_nil_or_concat dir with rfl | ⟨front, last, rfl⟩
      · rfl
      · have ends : Utf8.encode (dirText (front ++ [last])) = Utf8.encode (dirText front ++ last) ++ [0x2F] := by
          rw [dirText_concat, ← List.append_assoc, Utf8.encode_append (dirText front ++ last)]
          rfl
        rw [List.concat_eq_append, ends, List.reverse_append]
        change (List.dropWhile _ (0x2F :: (Utf8.encode (dirText front ++ last)).reverse)).reverse = _
        rw [List.dropWhile_cons_of_neg (by decide), List.reverse_cons, List.reverse_reverse]
    · intro byte mem
      refine decide_eq_true ?_
      rintro rfl
      exact free (slash_encode.mp (List.mem_reverse.mp mem))
  have trimmed : (if (Utf8.encode (dirText (dir ++ [name]))).getLast? = some 0x2F then
      (Utf8.encode (dirText (dir ++ [name]))).dropLast else Utf8.encode (dirText (dir ++ [name]))) =
      Utf8.encode (dirText dir ++ name) := by
    rw [whole, List.getLast?_concat, if_pos rfl, List.dropLast_concat]
  unfold Listing.parentHref
  simp only [trimmed, front]
  by_cases root : dirText dir = []
  · rw [root]
    rfl
  · rw [if_neg fun nil => root (Utf8.encode_eq_nil.mp nil)]
    exact encodeHref_encode _

/-- The files of a version; one with its own page for missing paths lists nothing. -/
def fileTree (manifest : Manifest) : Tree where
  stored := Stored manifest
  kept := Named
  index := "index.html".toList
  lists := ¬ Stored manifest "404.html".toList
  plain := Named.plain
  index_kept := by
    constructor
    all_goals decide

private theorem hrefs_link (named : (fileTree manifest).Clean dir)
    (listed : Listing.listDirectory manifest (Utf8.encode (dirText dir)) = some entries) {href : Text} :
    Utf8.encode href ∈ Listing.hrefs (Utf8.encode (dirText dir)) entries ↔
      (fileTree manifest).Link Listing.pathSegmentChar dir href := by
  constructor
  · intro mem
    rcases List.mem_append.mp mem with parent | row
    · rcases List.eq_nil_or_concat dir with rfl | ⟨front, last, rfl⟩
      · cases parent
      rw [List.concat_eq_append] at *
      split at parent
      · have same := List.mem_singleton.mp parent
        rw [parentHref_concat named.last.slash] at same
        rw [Utf8.encode_injective same]
        exact .parent front last
      · cases parent
    · obtain ⟨row, inside, same⟩ := List.mem_map.mp row
      rcases (mem_listDirectory listed).mp inside with ⟨name, entry, nonempty, free, stored, rfl⟩ | ⟨segment, rest, entry, free, stored, rfl⟩
      · rw [← Utf8.encode_injective same]
        exact .file dir name nonempty free ⟨entry, stored⟩
      · have link : (fileTree manifest).Link Listing.pathSegmentChar dir
            (keyHref Listing.pathSegmentChar (dirText (dir ++ [segment]))) :=
          .directory dir segment rest free ⟨entry, stored⟩
        rw [dirText_concat] at link
        exact (Utf8.encode_injective same) ▸ link
  · intro link
    cases link with
    | parent front segment =>
      have below : Utf8.encode (dirText (front ++ [segment])) ≠ [] := by
        rw [ne_eq, Utf8.encode_eq_nil, dirText_concat, ← List.append_assoc]
        exact List.append_ne_nil_of_right_ne_nil _ (List.cons_ne_nil _ _)
      rw [Listing.hrefs, if_pos below, parentHref_concat named.last.slash]
      exact List.mem_append_left _ (List.mem_singleton_self _)
    | file _ name nonempty free stored =>
      obtain ⟨entry, stored⟩ := stored
      exact List.mem_append_right _ (List.mem_map.mpr ⟨_, (mem_listDirectory listed).mpr
        (.inl ⟨name, entry, nonempty, free, stored, rfl⟩), rfl⟩)
    | directory _ segment rest free stored =>
      obtain ⟨entry, stored⟩ := stored
      rw [dirText_concat]
      exact List.mem_append_right _ (List.mem_map.mpr ⟨_, (mem_listDirectory listed).mpr
        (.inr ⟨segment, rest, entry, free, stored, rfl⟩), rfl⟩)

private theorem barred_page {segments : List Text} {segment : Text} (mem : segment ∈ segments)
    (barred : (fileTree manifest).Barred segment) :
    pageAt manifest (Utf8.encode (segmentHref Listing.pathSegmentChar segments)) = .missing := by
  have char : '\x00' ∈ segment ∨ '\\' ∈ segment := by
    by_cases nul : '\x00' ∈ segment
    · exact .inl nul
    · refine .inr (by_contra fun backslash => barred.unkept ?_)
      exact ⟨barred.nonempty, barred.notDot, barred.notDotDot, barred.slash, nul, backslash⟩
  unfold pageAt
  rw [clean_encode, Edge.cleanPath_barred pathSegmentChar_escaping mem char]
  rfl

/-- What the Go server serves of a version is a tree with an index of its directories. -/
theorem server_served (distinct : (manifest.files.map (·.1)).Nodup) :
    (fileTree manifest).Served Listing.pathSegmentChar (fun path => isServiceWorkerScript (Utf8.encode path) = true)
      (GoLinks manifest) (GoShows manifest) := by
  have directory {dir : List Text} (clean : (fileTree manifest).Clean dir) :
      cleanPath (Utf8.encode (segmentHref Listing.pathSegmentChar (dir ++ [[]]))) = some (Utf8.encode (dirText dir)) := by
    rw [clean_encode, Edge.cleanPath_directory pathSegmentChar_escaping clean]
    rfl
  have file {dir : List Text} {name : Text} (clean : (fileTree manifest).Clean (dir ++ [name])) :
      cleanPath (Utf8.encode (segmentHref Listing.pathSegmentChar (dir ++ [name]))) = some (Utf8.encode (dirText dir ++ name)) := by
    rw [clean_encode, Edge.cleanPath_file pathSegmentChar_escaping clean]
    rfl
  refine ⟨pathSegmentChar_escaping, ?_, ?_, ?_, ?_, ?_, ?_, ?_, ?_⟩
  · rintro dir href clean ⟨dirPrefix, entries, shown, mem⟩
    have pages := @directory_page manifest dir clean _ (directory clean)
    rcases pages with ⟨_, -, page⟩ | ⟨listed, rows, found, page⟩ | ⟨page, -⟩
    all_goals
      rw [page] at shown
      cases shown
    exact ⟨listed, (hrefs_link clean found).mp mem⟩
  · rintro dir href rest clean listed nonempty stored link
    have pages := @directory_page manifest dir clean _ (directory clean)
    rcases pages with ⟨index, here, -⟩ | ⟨-, entries, found, page⟩ | ⟨-, -, custom | nothing⟩
    · exact absurd ⟨index, here⟩ listed.1
    · exact ⟨_, entries, page, (hrefs_link clean found).mpr link⟩
    · exact absurd custom listed.2
    · exact absurd stored (listDirectory_eq_none.mp nothing rest nonempty)
  · intro dir path clean
    have pages := @directory_page manifest dir clean _ (directory clean)
    constructor
    · rintro ⟨entry, stored, shown⟩
      rcases pages with ⟨_, -, page⟩ | ⟨-, rows, -, page⟩ | ⟨page, -⟩
      all_goals
        rw [page] at shown
        injection shown
      rename_i same _
      have equal := Utf8.encode_injective same
      exact ⟨equal.symm, entry, stored⟩
    · rintro ⟨rfl, stored⟩
      rcases pages with ⟨entry, here, page⟩ | ⟨listed, -⟩ | ⟨-, absent, -⟩
      · exact ⟨entry, here, page⟩
      · exact absurd stored listed.1
      · exact absurd stored absent
  · rintro dir name href clean ⟨entry, stored⟩ ⟨dirPrefix, entries, shown, -⟩
    rw [file_page distinct (Edge.file_open clean.last).1 (Edge.file_open clean.last).2 stored (file clean)] at shown
    split at shown
    · cases shown
    · cases shown
  · rintro dir name path clean ⟨entry, stored⟩
    have page := file_page distinct (Edge.file_open clean.last).1 (Edge.file_open clean.last).2 stored (file clean)
    constructor
    · rintro ⟨entry', stored', shown⟩
      rw [page] at shown
      split at shown
      · cases shown
      · rename_i script
        injection shown with same _
        exact ⟨(Utf8.encode_injective same).symm, (Utf8.encode_injective same) ▸ script⟩
    · rintro ⟨rfl, script⟩
      refine ⟨entry, stored, ?_⟩
      rw [page, if_neg script]
  · rintro segments segment href mem barred ⟨dirPrefix, entries, shown, -⟩
    rw [barred_page mem barred] at shown
    cases shown
  · rintro segments segment path mem barred ⟨entry, -, shown⟩
    rw [barred_page mem barred] at shown
    cases shown
  · intro dir clean
    exact Bool.eq_false_iff.mp (index_script clean)

/-- A manifest that was parsed has one entry for each path. -/
theorem parsed_distinct {raw : Bytes} (parsed : parse raw = some manifest) : (manifest.files.map (·.1)).Nodup := by
  obtain ⟨⟨doc, rest⟩, -, accepted⟩ := Option.bind_eq_some_iff.mp parsed
  cases doc with
  | obj members =>
    simp only [decodeManifest, Option.bind_eq_bind] at accepted
    obtain ⟨_, -, accepted⟩ := Option.bind_eq_some_iff.mp accepted
    obtain ⟨field, -, accepted⟩ := Option.bind_eq_some_iff.mp accepted
    obtain ⟨_, -, accepted⟩ := Option.bind_eq_some_iff.mp accepted
    split at accepted
    · cases accepted
    obtain ⟨raws, -, accepted⟩ := Option.bind_eq_some_iff.mp accepted
    obtain ⟨files, read, same⟩ := Option.bind_eq_some_iff.mp accepted
    cases same
    rw [parsed_keys read]
    exact lastOfEach_nodup
  | _ => cases accepted

/-- Links from the root lead to a stored file exactly where nothing on the way hides it. -/
theorem go_file_found_iff {raw : Bytes} (parsed : parse raw = some manifest) (stored : Stored manifest path) :
    (∃ pathname, Tree.Visits (GoLinks manifest) pathname ∧ GoShows manifest pathname path) ↔
      (fileTree manifest).Browsable (fun path => isServiceWorkerScript (Utf8.encode path) = true) path :=
  (server_served (parsed_distinct parsed)).found_iff stored

/-! ### The two servers -/

private theorem scripts_ascii : ∀ script ∈ serviceWorkerScripts, ∀ c ∈ script, c.toNat < 0x80 := by
  have every : (serviceWorkerScripts.all fun script => script.all fun c => decide (c.toNat < 0x80)) = true := by
    decide +kernel
  intro script listed c mem
  exact of_decide_eq_true (List.all_eq_true.mp (List.all_eq_true.mp every script listed) c mem)

/-- They block the same scripts, but where a capital I is dotted. -/
theorem script_encode (undotted : ∀ c ∈ path, c.toNat ≠ 0x130) :
    isServiceWorkerScript (Utf8.encode path) = Edge.isServiceWorkerScript path := by
  obtain ⟨dir, last, split⟩ := (List.eq_nil_or_concat (path.splitOn '/')).resolve_left (List.splitOn_ne_nil _ _)
  rw [List.concat_eq_append] at split
  have name : (path.splitOn '/').getLastD [] = last := by
    rw [split]
    exact List.getLastD_concat ..
  have bytes : ((Utf8.encode path).splitOn 0x2F).getLastD [] = Utf8.encode last := by
    have spelled : (Utf8.encode path).splitOn 0x2F = (path.splitOn '/').map Utf8.encode :=
      Utf8.splitOn_encode (show '/'.toNat < 0x80 by decide) path
    rw [spelled, split, List.map_append]
    exact List.getLastD_concat ..
  have joined : path = ['/'].intercalate (dir ++ [last]) := by
    rw [← split]
    exact (List.intercalate_splitOn '/').symm
  have plain : ∀ c ∈ last, c.toNat ≠ 0x130 := by
    intro c mem
    refine undotted c ?_
    rw [joined, intercalate_concat]
    exact List.mem_append_right _ mem
  have lower : RuneCase.lowered last ∈ serviceWorkerScripts ↔ Text.lower last ∈ serviceWorkerScripts := by
    constructor
    · intro mem
      rw [(RuneCase.lowered_eq_iff plain (scripts_ascii _ mem)).mp rfl]
      exact mem
    · intro mem
      rw [(RuneCase.lowered_eq_iff plain (scripts_ascii _ mem)).mpr rfl]
      exact mem
  have same : serviceWorkerScripts = Edge.serviceWorkerScripts := rfl
  unfold isServiceWorkerScript Edge.isServiceWorkerScript
  rw [name, bytes, Utf8.runeText_encode, ← same, Bool.eq_iff_iff, decide_eq_true_eq, decide_eq_true_eq]
  exact lower

end Dropway.Serve

namespace Dropway.Api
open Lib Lib.Uri

variable {hash : Sha256} {quota : StorageQuota} {r : FinalizeRequest} {files : List (Text × ManifestTarget)}

private theorem index_ordinary (front : Text) : front ++ "index.html".toList ≠ Edge.protoName := by
  intro same
  have size := congrArg List.length same
  rw [List.length_append] at size
  have long : ("index.html".toList).length = 10 := rfl
  have short : Edge.protoName.length = 9 := rfl
  omega

/-- Both servers read a deploy with content types throughout, and links lead to the same files of it. -/
theorem found_alike (answered : Answered hash quota r files) (fits : ∀ file ∈ r.manifest, file.size < 2 ^ 63)
    (typed : ∀ file, LastOfPath r.manifest file → file.contentType ≠ []) (rt : Edge.Runtime) :
    ∃ worker go, Edge.readManifest (storedManifest files) = some worker ∧ Serve.parse (storedManifest files) = some go ∧
      ∀ file, LastOfPath r.manifest file → file.path ≠ Edge.protoName → (∀ c ∈ file.path, c.toNat ≠ 0x130) →
        ((∃ pathname, Tree.Visits (Edge.Links rt worker) pathname ∧ Edge.Shows rt worker pathname file.path) ↔
          ∃ pathname, Tree.Visits (Serve.GoLinks go) pathname ∧ Serve.GoShows go pathname file.path) := by
  obtain ⟨rfl, verified⟩ := answered.checked
  have sorted : ByPath (filesOf r.manifest) := filesOf_byPath r.manifest
  have read : ∀ entry ∈ filesOf r.manifest,
      validSHA256 entry.2.sha256 = true ∧ entry.2.size < 2 ^ 63 ∧ entry.2.contentType ≠ [] := by
    intro entry mem
    obtain ⟨file, last, rfl⟩ := mem_filesOf.mp mem
    obtain ⟨valid, above⟩ := verified file (lastOfPath_mem last)
    have below := fits file (lastOfPath_mem last)
    refine ⟨valid, ?_, typed file last⟩
    simp only [ManifestFile.stored]
    omega
  have valid := fun entry mem => (read entry mem).1
  have typed' := fun entry mem => (read entry mem).2.2
  obtain ⟨worker, reads⟩ := Option.isSome_iff_exists.mp ((worker_reads sorted valid).mpr typed')
  have parses := server_reads sorted valid (fun entry mem => (read entry mem).2.1) typed'
  refine ⟨worker, _, reads, parses, fun file last ordinary undotted => ?_⟩
  have onWorker {path : Text} (ordinary : path ≠ Edge.protoName) :
      Edge.Stored worker path ↔ ∃ target, (path, target) ∈ filesOf r.manifest := worker_has reads ordinary
  have onServer {path : Text} : Serve.Stored ⟨(filesOf r.manifest).map fun file => (file.1, file.2.onServer)⟩ path ↔
      ∃ target, (path, target) ∈ filesOf r.manifest := by
    constructor
    · rintro ⟨entry, mem⟩
      obtain ⟨sent, inside, same⟩ := List.mem_map.mp mem
      cases same
      exact ⟨sent.2, inside⟩
    · rintro ⟨target, mem⟩
      exact ⟨target.onServer, List.mem_map_of_mem mem⟩
  have there : ∃ target, (file.path, target) ∈ filesOf r.manifest :=
    ⟨file.stored, mem_filesOf.mpr ⟨file, last, rfl⟩⟩
  have alike {path : Text} (ordinary : path ≠ Edge.protoName) := (onWorker ordinary).trans onServer.symm
  rw [(Edge.worker_served (Edge.read_distinct reads) rt).found_iff ((onWorker ordinary).mpr there),
    Serve.go_file_found_iff parses (onServer.mpr there)]
  refine Tree.browsable_congr (fun _ => Iff.rfl) rfl ?_ (fun front => alike (index_ordinary front)) ?_
  · simp only [Serve.script_encode undotted]
  · exact not_congr (alike (by decide))

/-- The page of a deploy with a content type. -/
theorem page_found_alike : ∃ worker go,
    Edge.readManifest (storedManifest [(['a'], ⟨pageSha, "text/html".toList, 2⟩)]) = some worker ∧
      Serve.parse (storedManifest [(['a'], ⟨pageSha, "text/html".toList, 2⟩)]) = some go ∧
      ((∃ pathname, Tree.Visits (Edge.Links (Proofs.Resolution.loneRuntime ['a']) worker) pathname ∧
          Edge.Shows (Proofs.Resolution.loneRuntime ['a']) worker pathname ['a']) ↔
        ∃ pathname, Tree.Visits (Serve.GoLinks go) pathname ∧ Serve.GoShows go pathname ['a']) := by
  have typed : ∀ file, LastOfPath [{ pageFile with contentType := "text/html".toList }] file → file.contentType ≠ [] := by
    intro file last
    rw [List.mem_singleton.mp (lastOfPath_mem last)]
    exact List.cons_ne_nil _ _
  obtain ⟨worker, go, reads, parses, alike⟩ := found_alike (page_answered "text/html".toList) (page_fits _) typed
    (Proofs.Resolution.loneRuntime ['a'])
  refine ⟨worker, go, reads, parses, alike { pageFile with contentType := "text/html".toList } rfl (by decide) ?_⟩
  intro c mem
  rw [List.mem_singleton.mp mem]
  decide

end Dropway.Api
