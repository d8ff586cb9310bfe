import Dropway.Edge.ManifestText
import Dropway.Lib.Autoindex
import Dropway.Proofs.CleanKeys
import Dropway.Proofs.Resolution
import Mathlib.Data.List.Dedup

/-! The directory listings of a version lead to its files. A listing has a row for each
immediate child; following rows from the root ends at a file just where no directory on
the way answers with a page of its own. -/

namespace Dropway.Edge
open Lib Lib.Uri

/-! ### What a request shows -/

/-- How a path is answered within a version. -/
inductive Page where
  | file (path : Text) (slot : Slot)
  | listing (dirPrefix : Text) (entries : List ListingEntry)
  | missing

def pageAt (rt : Runtime) (manifest : Manifest) (pathname : Text) : Page :=
  match cleanPath pathname with
  | none => .missing
  | some clean =>
    if isServiceWorkerScript clean then .missing
    else
      match resolveManifestEntry manifest clean with
      | some (path, slot) => .file path slot
      | none =>
        if (manifest.files.get notFoundPath).isNone then
          match listDirectory rt manifest (directoryPrefix clean) with
          | some entries => .listing (directoryPrefix clean) entries
          | none => .missing
        else .missing

/-- The answer that shows a page. -/
def Page.Answers (pages : Pages) (route : RouteValue) (url : Url) (bucket : Bucket) (manifest : Manifest)
    (resolution : BlobResolution) : Page → Prop
  | .file path slot => resolution = serveEntry pages route url bucket manifest path slot
  | .listing dirPrefix entries => ∃ blob, resolution = .ok blob ∧
      blob.body = some (Utf8.encode (pages.renderDirectoryListing dirPrefix entries))
  | .missing => ∃ response, resolution = .notFound response

variable {rt : Runtime} {manifest : Manifest}

/-- Requests within a version that could be read are answered by their pages. -/
theorem resolveBlob_pageAt {pages : Pages} {bucket : Bucket} {route : RouteValue} {url : Url}
    (loaded : loadManifest rt bucket route = .ok (some manifest)) : ∃ resolution,
      resolveBlob rt pages bucket route url = .ok resolution ∧
        (pageAt rt manifest url.pathname).Answers pages route url bucket manifest resolution := by
  unfold resolveBlob pageAt
  cases cleaned : cleanPath url.pathname with
  | none => exact ⟨_, rfl, _, rfl⟩
  | some clean =>
    simp only [loaded]
    by_cases script : isServiceWorkerScript clean = true
    · rw [if_pos script, if_pos script]
      exact ⟨_, rfl, _, rfl⟩
    rw [if_neg script, if_neg script]
    cases found : resolveManifestEntry manifest clean with
    | some entry => exact ⟨_, rfl, rfl⟩
    | none =>
      by_cases custom : (manifest.files.get notFoundPath).isNone = true
      · simp only [if_pos custom, directoryListing]
        cases listed : listDirectory rt manifest (directoryPrefix clean) with
        | none => exact ⟨_, rfl, _, rfl⟩
        | some entries => exact ⟨_, rfl, _, rfl, rfl⟩
      · simp only [if_neg custom]
        exact ⟨_, rfl, _, rfl⟩

/-! ### Clean directories -/

/-- A segment that cleaning keeps. -/
structure Named (segment : Text) : Prop where
  nonempty : segment ≠ []
  notDot : segment ≠ ['.']
  notDotDot : segment ≠ ['.', '.']
  slash : '/' ∉ segment
  nul : '\x00' ∉ segment
  backslash : '\\' ∉ segment

variable {dir : List Text} {name : Text} {keeps : Char → Bool}

private theorem serialize_free {c : Char} (apart : c ≠ '/') {segments : List Text} (free : ∀ segment ∈ segments, c ∉ segment) :
    c ∉ serialize segments := by
  intro mem
  obtain ⟨segment, inside, here⟩ := List.mem_flatMap.mp mem
  rcases List.mem_cons.mp here with same | here
  · exact apart same
  · exact free segment inside here

private theorem segmentsOf_serialize {segments : List Text} (free : ∀ segment ∈ segments, '/' ∉ segment)
    (level : ['.', '.'] ∉ segments) :
    segmentsOf (serialize segments) = some (segments.filter fun segment => segment ≠ [] ∧ segment ≠ ['.']) := by
  have split : (serialize segments).splitOn '/' = [] :: segments := splitOn_serialize [] free
  have level' : ['.', '.'] ∉ [] :: segments := by
    intro mem
    rcases List.mem_cons.mp mem with same | mem
    · cases same
    · exact level mem
  simp only [segmentsOf, split, if_neg level']
  rfl

private theorem filter_named {segments : List Text} (named : ∀ segment ∈ segments, Named segment) :
    segments.filter (fun segment => segment ≠ [] ∧ segment ≠ ['.']) = segments :=
  List.filter_eq_self.mpr fun segment mem => decide_eq_true ⟨(named segment mem).nonempty, (named segment mem).notDot⟩

/-- However a clean directory is escaped, the request for it is cleaned to it. -/
theorem cleanPath_directory (escaping : Escaping keeps) (named : ∀ segment ∈ dir, Named segment) :
    cleanPath (segmentHref keeps (dir ++ [[]])) = some (dirText dir) := by
  have each (property : Text → Prop) (nil : property []) (holds : ∀ segment, Named segment → property segment) :
      ∀ segment ∈ dir ++ [[]], property segment := by
    intro segment mem
    rcases List.mem_append.mp mem with mem | mem
    · exact holds segment (named segment mem)
    · exact List.mem_singleton.mp mem ▸ nil
  refine (Proofs.RequestPath.cleanPath_some (segmentHref_plain escaping _)).mpr
    ⟨_, dir, decode_segmentHref escaping _, ?_, ?_, ?_, ?_⟩
  · exact serialize_free (by decide) (each (fun segment => '\x00' ∉ segment) List.not_mem_nil fun _ named => named.nul)
  · exact serialize_free (by decide) (each (fun segment => '\\' ∉ segment) List.not_mem_nil fun _ named => named.backslash)
  · rw [segmentsOf_serialize (each (fun segment => '/' ∉ segment) List.not_mem_nil fun _ named => named.slash)
      (fun mem => each (· ≠ ['.', '.']) (List.cons_ne_nil _ _).symm (fun _ named => named.notDotDot) _ mem rfl),
      List.filter_append, filter_named named]
    exact congrArg some (List.append_nil dir)
  · rw [serialize_concat, List.append_nil]
    rcases List.eq_nil_or_concat dir with rfl | ⟨front, last, rfl⟩
    · rfl
    rw [List.concat_eq_append] at named ⊢
    have present := (named last (List.mem_append_right _ (List.mem_singleton_self _))).nonempty
    rw [intercalate_concat, dirText_concat, ← List.append_assoc]
    rw [if_pos]
    refine ⟨⟨?_, ?_⟩, List.append_ne_nil_of_right_ne_nil _ present⟩
    · simp only [List.length_cons, List.length_append, List.length_nil]
      omega
    · exact List.getLast?_concat (l := '/' :: (dirText front ++ last))

/-- And so is the request for a clean file. -/
theorem cleanPath_file (escaping : Escaping keeps) (named : ∀ segment ∈ dir ++ [name], Named segment) :
    cleanPath (segmentHref keeps (dir ++ [name])) = some (dirText dir ++ name) := by
  have last := named name (List.mem_append_right _ (List.mem_singleton_self _))
  refine (Proofs.RequestPath.cleanPath_some (segmentHref_plain escaping _)).mpr
    ⟨_, dir ++ [name], decode_segmentHref escaping _, ?_, ?_, ?_, ?_⟩
  · exact serialize_free (by decide) fun segment mem => (named segment mem).nul
  · exact serialize_free (by decide) fun segment mem => (named segment mem).backslash
  · rw [segmentsOf_serialize (fun segment mem => (named segment mem).slash)
      (fun mem => (named _ mem).notDotDot rfl), filter_named named]
  · rw [serialize_concat, intercalate_concat, if_neg]
    rintro ⟨⟨-, ends⟩, -⟩
    rw [← List.cons_append, List.getLast?_append_of_ne_nil _ last.nonempty] at ends
    exact last.slash (List.mem_of_getLast? ends)

/-! ### Rows -/

variable {dirPrefix : Text} {entries : List ListingEntry}

/-- A row for a file in the directory itself. -/
def FileRow (manifest : Manifest) (dirPrefix : Text) (row : ListingEntry) : Prop :=
  ∃ name entry, name ≠ [] ∧ '/' ∉ name ∧ (dirPrefix ++ name, entry) ∈ manifest.files.own ∧
    row = ⟨name, encodeHref (dirPrefix ++ name), false, entry.size⟩

/-- A row for a directory with files anywhere below it. -/
def DirectoryRow (manifest : Manifest) (dirPrefix : Text) (row : ListingEntry) : Prop :=
  ∃ segment rest entry, '/' ∉ segment ∧ (dirPrefix ++ (segment ++ '/' :: rest), entry) ∈ manifest.files.own ∧
    row = ⟨segment ++ ['/'], encodeHref (dirPrefix ++ (segment ++ ['/'])), true, none⟩

private theorem below_eq_some {key rest : Text} : below dirPrefix key = some rest ↔ key = dirPrefix ++ rest ∧ rest ≠ [] := by
  unfold below
  constructor
  · intro found
    split at found
    · rename_i inside
      cases found
      obtain ⟨more, rfl⟩ := List.isPrefixOf_iff_prefix.mp inside.1
      rw [List.drop_left] at inside ⊢
      exact ⟨rfl, inside.2⟩
    · cases found
  · rintro ⟨rfl, some'⟩
    have inside : dirPrefix.isPrefixOf (dirPrefix ++ rest) = true := List.isPrefixOf_iff_prefix.mpr ⟨rest, rfl⟩
    rw [List.drop_left, if_pos ⟨inside, some'⟩]

private theorem mem_children {key rest : Text} {entry : ManifestEntry} :
    (key, rest, entry) ∈ manifest.files.own.filterMap (childOf dirPrefix) ↔
      key = dirPrefix ++ rest ∧ rest ≠ [] ∧ (key, entry) ∈ manifest.files.own := by
  rw [List.mem_filterMap]
  constructor
  · rintro ⟨⟨stored, entry'⟩, mem, found⟩
    obtain ⟨rest', inside, same⟩ := Option.map_eq_some_iff.mp found
    cases same
    obtain ⟨rfl, some'⟩ := below_eq_some.mp inside
    exact ⟨rfl, some', mem⟩
  · rintro ⟨rfl, some', mem⟩
    refine ⟨_, mem, ?_⟩
    rw [childOf, below_eq_some.mpr ⟨rfl, some'⟩]
    rfl

/-- Nothing is listed just where no file is below the directory. -/
theorem listDirectory_eq_none : listDirectory rt manifest dirPrefix = none ↔
    ∀ rest entry, rest ≠ [] → (dirPrefix ++ rest, entry) ∉ manifest.files.own := by
  constructor
  · intro nothing rest entry some' mem
    have child := mem_children.mpr ⟨rfl, some', mem⟩
    simp only [listDirectory] at nothing
    split at nothing
    · rename_i empty
      have slash := of_decide_eq_true (List.all_eq_true.mp empty.2 _ child)
      have inside : rest.takeWhile (· ≠ '/') ∈ ((manifest.files.own.filterMap (childOf dirPrefix)).filter
          fun child => '/' ∈ child.2.1).map fun child => child.2.1.takeWhile (· ≠ '/') :=
        List.mem_map_of_mem (List.mem_filter.mpr ⟨child, decide_eq_true slash⟩)
      rw [empty.1] at inside
      cases inside
    · cases nothing
  · intro none'
    have childless : manifest.files.own.filterMap (childOf dirPrefix) = [] := by
      refine List.eq_nil_iff_forall_not_mem.mpr ?_
      rintro ⟨key, rest, entry⟩ mem
      obtain ⟨rfl, some', stored⟩ := mem_children.mp mem
      exact none' rest entry some' stored
    simp only [listDirectory, childless]
    exact if_pos ⟨rfl, rfl⟩

/-- The rows of a listing are those of the immediate children. -/
theorem mem_listDirectory (listed : listDirectory rt manifest dirPrefix = some entries) {row : ListingEntry} :
    row ∈ entries ↔ FileRow manifest dirPrefix row ∨ DirectoryRow manifest dirPrefix row := by
  simp only [listDirectory] at listed
  split at listed
  · cases listed
  cases listed
  rw [List.mem_append, or_comm]
  refine or_congr ?_ ?_
  · rw [List.mem_mergeSort, List.mem_map]
    constructor
    · rintro ⟨⟨key, rest, entry⟩, mem, rfl⟩
      obtain ⟨child, free⟩ := List.mem_filter.mp mem
      obtain ⟨rfl, some', stored⟩ := mem_children.mp child
      exact ⟨rest, entry, some', of_decide_eq_true free, stored, rfl⟩
    · rintro ⟨name, entry, some', free, stored, rfl⟩
      exact ⟨_, List.mem_filter.mpr ⟨mem_children.mpr ⟨rfl, some', stored⟩, decide_eq_true free⟩, rfl⟩
  · rw [List.mem_map]
    constructor
    · rintro ⟨segment, sorted, rfl⟩
      obtain ⟨⟨key, rest, entry⟩, inside, rfl⟩ := List.mem_map.mp (List.mem_dedup.mp (List.mem_mergeSort.mp sorted))
      obtain ⟨child, slash⟩ := List.mem_filter.mp inside
      obtain ⟨rfl, some', stored⟩ := mem_children.mp child
      obtain ⟨free, more, shape⟩ := first_segment (of_decide_eq_true slash)
      refine ⟨_, more, entry, free, shape ▸ stored, ?_⟩
      rw [List.append_assoc]
      rfl
    · rintro ⟨segment, rest, entry, free, stored, rfl⟩
      have first : (segment ++ '/' :: rest).takeWhile (· ≠ '/') = segment := by
        have kept : ∀ c ∈ segment, decide (c ≠ '/') = true := by
          intro c mem
          refine decide_eq_true ?_
          rintro rfl
          exact free mem
        rw [List.takeWhile_append_of_pos kept]
        exact List.append_nil segment
      have child := mem_children.mpr ⟨rfl, List.append_ne_nil_of_right_ne_nil segment (List.cons_ne_nil '/' rest), stored⟩
      have slash : '/' ∈ segment ++ '/' :: rest := List.mem_append_right _ List.mem_cons_self
      refine ⟨segment, List.mem_mergeSort.mpr (List.mem_dedup.mpr (List.mem_map.mpr
        ⟨_, List.mem_filter.mpr ⟨child, decide_eq_true slash⟩, first⟩)), ?_⟩
      rw [List.append_assoc]
      rfl

private theorem set_distinct {files : Files} (distinct : (files.own.map (·.1)).Nodup) (path : Text) (entry : ManifestEntry) :
    ((files.set path entry).own.map (·.1)).Nodup := by
  unfold Files.set
  split
  · exact distinct
  · rw [List.map_append, List.map_singleton]
    refine List.nodup_append.mpr ⟨(List.filter_sublist.map _).nodup distinct, List.nodup_singleton _, ?_⟩
    intro other mem key mem' same
    obtain ⟨file, inside, rfl⟩ := List.mem_map.mp mem
    rw [List.mem_singleton.mp mem'] at same
    exact of_decide_eq_true (List.mem_filter.mp inside).2 same

private theorem added_distinct {α : Type} {members : List α} {read : α → Option ManifestEntry}
    {assign : Files → α → ManifestEntry → Files} {files files' : Files}
    (kept : ∀ (files : Files) member entry, (files.own.map (·.1)).Nodup → ((assign files member entry).own.map (·.1)).Nodup)
    (distinct : (files.own.map (·.1)).Nodup)
    (added : members.foldlM (fun files member => (read member).map (assign files member)) files = some files') :
    (files'.own.map (·.1)).Nodup := by
  induction members generalizing files with
  | nil =>
    cases added
    exact distinct
  | cons member members ih =>
    rw [List.foldlM_cons] at added
    obtain ⟨next, first, rest⟩ := Option.bind_eq_some_iff.mp added
    obtain ⟨entry, -, rfl⟩ := Option.map_eq_some_iff.mp first
    exact ih (kept _ _ _ distinct) rest

private theorem assign_distinct {files : Files} (distinct : (files.own.map (·.1)).Nodup) (name : List Glyph)
    (entry : ManifestEntry) : ((files.assign name entry).own.map (·.1)).Nodup := by
  unfold Files.assign
  split
  · exact set_distinct distinct _ _
  · exact distinct

private theorem none_distinct : (({} : Files).own.map (·.1)).Nodup := List.nodup_nil

/-- A manifest that was read has one entry for each path. -/
theorem parsed_distinct {json : Json} (parsed : parseManifest json = some manifest) :
    (manifest.files.own.map (·.1)).Nodup := by
  cases json with
  | obj members =>
    simp only [parseManifest, Option.bind_eq_bind] at parsed
    obtain ⟨version, -, parsed⟩ := Option.bind_eq_some_iff.mp parsed
    cases version with
    | num literal =>
      dsimp only at parsed
      split at parsed
      · cases parsed
      obtain ⟨raws, -, parsed⟩ := Option.bind_eq_some_iff.mp parsed
      cases raws with
      | obj files =>
        dsimp only at parsed
        obtain ⟨read, added, same⟩ := Option.bind_eq_some_iff.mp parsed
        cases same
        cases files with
        | nil =>
          cases added
          exact List.nodup_nil
        | cons member files =>
          have kept (files : Files) (member : String × Json) (entry : ManifestEntry)
              (distinct : (files.own.map (·.1)).Nodup) : ((files.set member.1.toList entry).own.map (·.1)).Nodup :=
            set_distinct distinct _ _
          exact added_distinct kept none_distinct added
      | _ => cases parsed
    | _ => cases parsed
  | _ => cases parsed

/-- So has one that was read from its text. -/
theorem read_distinct {stored : Bytes} (reads : readManifest stored = some manifest) :
    (manifest.files.own.map (·.1)).Nodup := by
  obtain ⟨doc, -, accepted⟩ := Option.bind_eq_some_iff.mp reads
  cases doc with
  | obj members =>
    simp only [parseManifestText, Option.bind_eq_bind] at accepted
    obtain ⟨version, -, accepted⟩ := Option.bind_eq_some_iff.mp accepted
    cases version with
    | num literal =>
      dsimp only at accepted
      split at accepted
      · cases accepted
      obtain ⟨raws, -, accepted⟩ := Option.bind_eq_some_iff.mp accepted
      obtain ⟨files, assigned, same⟩ := Option.bind_eq_some_iff.mp accepted
      cases same
      have kept (files : Files) (member : List Glyph × Doc) (entry : ManifestEntry)
          (distinct : (files.own.map (·.1)).Nodup) : ((files.assign member.1 entry).own.map (·.1)).Nodup :=
        assign_distinct distinct _ _
      exact added_distinct kept none_distinct assigned
    | _ => cases accepted
  | _ => cases accepted

private theorem rests_distinct (distinct : (manifest.files.own.map (·.1)).Nodup) :
    ((manifest.files.own.filterMap (childOf dirPrefix)).map (·.2.1)).Nodup := by
  have keyed : ((manifest.files.own.filterMap (childOf dirPrefix)).map (·.2.1)).map (dirPrefix ++ ·) =
      (manifest.files.own.filterMap (childOf dirPrefix)).map (·.1) := by
    rw [List.map_map]
    refine List.map_congr_left ?_
    rintro ⟨key, rest, entry⟩ mem
    exact (mem_children.mp mem).1.symm
  have kept : ∀ own : List (Text × ManifestEntry),
      (own.filterMap (childOf dirPrefix)).map (·.1) = (own.map (·.1)).filter fun key => (below dirPrefix key).isSome := by
    intro own
    induction own with
    | nil => rfl
    | cons file own ih =>
      rw [List.map_cons, List.filter_cons]
      cases inside : below dirPrefix file.1 with
      | none => rw [List.filterMap_cons_none (childOf_outside inside), ih, if_neg (by simp)]
      | some rest =>
        have child : childOf dirPrefix file = some (file.1, rest, file.2) := by rw [childOf, inside]; rfl
        rw [List.filterMap_cons_some child, List.map_cons, ih, if_pos (by simp)]
  have keys : ((manifest.files.own.filterMap (childOf dirPrefix)).map (·.1)).Nodup := by
    rw [kept]
    exact distinct.filter _
  rw [← keyed] at keys
  exact keys.of_map _

/-- A listing has one row for each immediate child. -/
theorem rows_distinct (distinct : (manifest.files.own.map (·.1)).Nodup)
    (listed : listDirectory rt manifest dirPrefix = some entries) : (entries.map (·.name)).Nodup := by
  have rests : ((manifest.files.own.filterMap (childOf dirPrefix)).map (·.2.1)).Nodup := rests_distinct distinct
  simp only [listDirectory] at listed
  split at listed
  · cases listed
  cases listed
  rw [List.map_append, List.map_map]
  refine List.nodup_append.mpr ⟨?_, ?_, ?_⟩
  · refine List.Nodup.map (fun one two same => List.append_cancel_right same) ?_
    exact (List.mergeSort_perm _ _).nodup_iff.mpr (List.nodup_dedup _)
  · refine (((List.mergeSort_perm _ _).map _).nodup_iff).mpr ?_
    rw [List.map_map]
    have part : ((manifest.files.own.filterMap (childOf dirPrefix)).filter fun child => '/' ∉ child.2.1).Sublist
      (manifest.files.own.filterMap (childOf dirPrefix)) := List.filter_sublist
    exact (part.map (·.2.1)).nodup rests
  · intro one mem two mem' same
    obtain ⟨segment, -, rfl⟩ := List.mem_map.mp mem
    obtain ⟨row, inside, rfl⟩ := List.mem_map.mp mem'
    obtain ⟨⟨key, rest, entry⟩, child, rfl⟩ := List.mem_map.mp (List.mem_mergeSort.mp inside)
    have free := of_decide_eq_true (List.mem_filter.mp child).2
    have slash : '/' ∈ rest := (show segment ++ ['/'] = rest from same) ▸ List.mem_append_right _ (List.mem_singleton_self _)
    exact free slash

/-! ### Following rows -/

def componentChar (c : Char) : Bool := c.isAlphanum || "-_.!~*'()".toList.contains c

theorem componentChar_escaping : Escaping componentChar where
  inPath := by
    intro c kept
    rcases Bool.or_eq_true_iff.mp kept with letter | mark
    · exact (pathChar_alphanum letter).1
    · have every : ['-', '_', '.', '!', '~', '*', '\'', '(', ')'].all pathChar = true := by decide
      exact List.all_eq_true.mp every c (List.contains_iff_mem.mp mark)
  literal := rfl
  slash := rfl
  backslash := rfl
  dot := rfl

theorem encodeHref_eq (key : Text) : encodeHref key = keyHref componentChar key := rfl

/-- The links of the page at a path. -/
def Links (rt : Runtime) (manifest : Manifest) (here href : Text) : Prop :=
  ∃ dirPrefix entries, pageAt rt manifest here = .listing dirPrefix entries ∧ href ∈ listingHrefs dirPrefix entries

/-- The stored file that is served at a path. -/
def Shows (rt : Runtime) (manifest : Manifest) (here path : Text) : Prop :=
  ∃ entry, (path, entry) ∈ manifest.files.own ∧ pageAt rt manifest here = .file path (.entry entry)

def Stored (manifest : Manifest) (path : Text) : Prop := ∃ entry, (path, entry) ∈ manifest.files.own

theorem Named.plain {segment : Text} (named : Named segment) :
    segment ≠ [] ∧ segment ≠ ['.'] ∧ segment ≠ ['.', '.'] ∧ '/' ∉ segment :=
  ⟨named.nonempty, named.notDot, named.notDotDot, named.slash⟩

/-- Nothing whose name has a dot is inherited. -/
theorem get_dotted {path : Text} (dot : '.' ∈ path) :
    manifest.files.get path = (manifest.files.own.find? (·.1 = path)).map fun file => .entry file.2 := by
  have inherited : path ∉ objectPrototype := by
    intro mem
    have every : ∀ name ∈ objectPrototype, '.' ∉ name := by decide
    exact every path mem dot
  unfold Files.get
  cases manifest.files.own.find? (·.1 = path) with
  | some file => rfl
  | none =>
    cases manifest.files.proto with
    | none => exact if_neg inherited
    | some proto =>
      have field : path ∉ proto.fields := by
        intro mem
        unfold ManifestEntry.fields at mem
        rcases List.mem_append.mp mem with mem | mem
        · have every : ∀ name ∈ ["sha256", "content_type"].map String.toList, '.' ∉ name := by decide
          exact every path mem dot
        · split at mem
          · rw [List.mem_singleton.mp mem] at dot
            exact absurd dot (by decide)
          · cases mem
      have other : path ≠ "__proto__".toList := by
        rintro rfl
        exact absurd dot (by decide)
      change (if path = "__proto__".toList then _ else if path ∈ proto.fields ∨ path ∈ objectPrototype then _ else _) = none
      rw [if_neg other, if_neg fun either => either.elim field inherited]

private theorem find_isSome {path : Text} : (manifest.files.own.find? (·.1 = path)).isSome ↔ Stored manifest path := by
  rw [List.find?_isSome]
  constructor
  · rintro ⟨⟨key, entry⟩, mem, same⟩
    exact ⟨entry, (of_decide_eq_true same : key = path) ▸ mem⟩
  · rintro ⟨entry, mem⟩
    exact ⟨_, mem, decide_eq_true rfl⟩

private theorem find_stored (distinct : (manifest.files.own.map (·.1)).Nodup) {path : Text} {entry : ManifestEntry}
    (mem : (path, entry) ∈ manifest.files.own) : manifest.files.own.find? (·.1 = path) = some (path, entry) := by
  obtain ⟨⟨key, other⟩, found⟩ := Option.isSome_iff_exists.mp (find_isSome.mpr ⟨entry, mem⟩)
  have here := List.find?_some found
  have same : key = path := of_decide_eq_true here
  subst same
  have inside := List.mem_of_find?_eq_some found
  rw [found]
  exact congrArg some (List.inj_on_of_nodup_map distinct inside mem rfl)

private theorem missing_page : (manifest.files.get notFoundPath).isNone = true ↔ ¬ Stored manifest notFoundPath := by
  rw [get_dotted (by decide), Option.isNone_map, ← find_isSome, Option.not_isSome_iff_eq_none, Option.isNone_iff_eq_none]

/-! ### The pages of directories and files -/

private theorem directory_candidates (dir : List Text) :
    candidatePaths (dirText dir) = [dirText dir ++ "index.html".toList] := if_pos (Tree.dirText_ends dir)

private theorem script_congr {one two : Text} (same : (one.splitOn '/').getLastD [] = (two.splitOn '/').getLastD []) :
    isServiceWorkerScript one = isServiceWorkerScript two := by
  unfold isServiceWorkerScript
  rw [same]

private theorem last_segment (named : ∀ segment ∈ dir, Named segment) (free : '/' ∉ name) :
    ((dirText dir ++ name).splitOn '/').getLastD [] = name := by
  rw [splitOn_concat (fun segment mem => (named segment mem).slash) free]
  exact List.getLastD_concat ..

private theorem directory_script (named : ∀ segment ∈ dir, Named segment) : isServiceWorkerScript (dirText dir) = false := by
  have last : ((dirText dir ++ []).splitOn '/').getLastD [] = [] := last_segment named List.not_mem_nil
  rw [List.append_nil] at last
  have same : isServiceWorkerScript (dirText dir) = isServiceWorkerScript [] := script_congr last
  exact same.trans rfl

private theorem index_script (named : ∀ segment ∈ dir, Named segment) :
    isServiceWorkerScript (dirText dir ++ "index.html".toList) = false := by
  have same : isServiceWorkerScript (dirText dir ++ "index.html".toList) = isServiceWorkerScript "index.html".toList :=
    script_congr (last_segment named (by decide))
  exact same.trans (by decide)

variable {pathname : Text}

private theorem resolve_directory (dir : List Text) : resolveManifestEntry manifest (dirText dir) =
    (manifest.files.own.find? (·.1 = dirText dir ++ "index.html".toList)).map fun file =>
      (dirText dir ++ "index.html".toList, .entry file.2) := by
  have dotted : '.' ∈ dirText dir ++ "index.html".toList := List.mem_append_right _ (by decide)
  rw [resolveManifestEntry, directory_candidates, List.findSome?_cons, List.findSome?_nil, get_dotted dotted]
  cases manifest.files.own.find? (·.1 = dirText dir ++ "index.html".toList) <;> rfl

/-- A directory is answered with its index, or else with its listing. -/
theorem directory_page (named : ∀ segment ∈ dir, Named segment) (cleaned : cleanPath pathname = some (dirText dir)) :
    (∃ entry, (dirText dir ++ "index.html".toList, entry) ∈ manifest.files.own ∧
      pageAt rt manifest pathname = .file (dirText dir ++ "index.html".toList) (.entry entry)) ∨
    ((¬ Stored manifest (dirText dir ++ "index.html".toList) ∧ ¬ Stored manifest notFoundPath) ∧ ∃ entries, listDirectory rt manifest (dirText dir) = some entries ∧
      pageAt rt manifest pathname = .listing (dirText dir) entries) ∨
    pageAt rt manifest pathname = .missing ∧ ¬ Stored manifest (dirText dir ++ "index.html".toList) ∧
      (Stored manifest notFoundPath ∨ listDirectory rt manifest (dirText dir) = none) := by
  unfold pageAt
  rw [cleaned]
  simp only [directory_script named, Bool.false_eq_true, if_false, resolve_directory]
  cases found : manifest.files.own.find? (·.1 = dirText dir ++ "index.html".toList) with
  | some file =>
    have here := List.find?_some found
    have same : file.1 = dirText dir ++ "index.html".toList := of_decide_eq_true here
    exact .inl ⟨file.2, same ▸ List.mem_of_find?_eq_some found, rfl⟩
  | none =>
    have unstored : ¬ Stored manifest (dirText dir ++ "index.html".toList) := by
      rw [← find_isSome, found]
      exact Bool.false_ne_true
    right
    have itself : directoryPrefix (dirText dir) = dirText dir := if_pos (Tree.dirText_ends dir)
    simp only [Option.map_none, itself]
    by_cases custom : Stored manifest notFoundPath
    · rw [if_neg fun none' => missing_page.mp none' custom]
      exact .inr ⟨rfl, unstored, .inl custom⟩
    · rw [if_pos (missing_page.mpr custom)]
      cases listed : listDirectory rt manifest (dirText dir) with
      | none => exact .inr ⟨rfl, unstored, .inr rfl⟩
      | some entries => exact .inl ⟨⟨unstored, custom⟩, entries, rfl, rfl⟩

/-- A stored file is answered with itself, unless it would be a service worker. -/
theorem file_page (distinct : (manifest.files.own.map (·.1)).Nodup) {path : Text} {entry : ManifestEntry}
    (some' : path ≠ []) (open' : path.getLast? ≠ some '/')
    (stored : (path, entry) ∈ manifest.files.own) (cleaned : cleanPath pathname = some path) :
    pageAt rt manifest pathname =
      if isServiceWorkerScript path then .missing else .file path (.entry entry) := by
  obtain ⟨more, candidates⟩ : ∃ more, candidatePaths path = path :: more := by
    rw [candidatePaths, if_neg (not_or.mpr ⟨some', open'⟩)]
    split
    · exact ⟨_, rfl⟩
    · exact ⟨_, rfl⟩
  have gets : manifest.files.get path = some (.entry entry) := by
    unfold Files.get
    rw [find_stored distinct stored]
  unfold pageAt
  rw [cleaned]
  simp only [resolveManifestEntry, candidates, List.findSome?_cons, gets, Option.map_some]

/-! ### Where links lead -/

/-- A character that no path may have bars the whole path. -/
theorem cleanPath_barred (escaping : Escaping keeps) {segments : List Text} {segment : Text}
    (mem : segment ∈ segments) (barred : '\x00' ∈ segment ∨ '\\' ∈ segment) :
    cleanPath (segmentHref keeps segments) = none := by
  rw [Option.eq_none_iff_forall_ne_some]
  intro clean cleaned
  obtain ⟨decoded, -, decoding, nul, backslash, -⟩ :=
    (Proofs.RequestPath.cleanPath_some (segmentHref_plain escaping segments)).mp cleaned
  rw [decode_segmentHref escaping] at decoding
  cases decoding
  have inside {c : Char} (here : c ∈ segment) : c ∈ serialize segments :=
    List.mem_flatMap.mpr ⟨segment, mem, List.mem_cons_of_mem _ here⟩
  rcases barred with here | here
  · exact nul (inside here)
  · exact backslash (inside here)

/-- The parent of a directory is the directory it is in. -/
theorem parentHref_concat (free : '/' ∉ name) : parentHref (dirText (dir ++ [name])) = keyHref componentChar (dirText dir) := by
  have ends : (dirText (dir ++ [name])).getLast? = some '/' := by
    rw [dirText_concat, ← List.append_assoc]
    exact List.getLast?_concat
  have trimmed : (dirText (dir ++ [name])).dropLast = dirText dir ++ name := by
    rw [dirText_concat, ← List.append_assoc, List.dropLast_concat]
  have front : ((dirText dir ++ name).reverse.dropWhile (· ≠ '/')).reverse = dirText dir := by
    rw [List.reverse_append, List.dropWhile_append_of_pos]
    · rcases List.eq_nil_or_concat dir with rfl | ⟨front, last, rfl⟩
      · rfl
      · rw [List.concat_eq_append, dirText_concat, ← List.append_assoc, List.reverse_append]
        change (List.dropWhile _ ('/' :: (dirText front ++ last).reverse)).reverse = _
        rw [List.dropWhile_cons_of_neg (by decide)]
        rw [List.reverse_cons, List.reverse_reverse]
    · intro c mem
      refine decide_eq_true ?_
      rintro rfl
      exact free (List.mem_reverse.mp mem)
  unfold parentHref
  simp only [if_pos ends, trimmed, front]
  by_cases root : dirText dir = []
  · rw [if_pos root, root]
    rfl
  · rw [if_neg root]
    exact encodeHref_eq _

theorem Named.cleanKey (named : ∀ segment ∈ dir ++ [name], Named segment) : CleanKey (dirText dir ++ name) := by
  have free : ∀ segment ∈ dir, '/' ∉ segment := fun segment mem => (named segment (List.mem_append_left _ mem)).slash
  have final := named name (List.mem_append_right _ (List.mem_singleton_self _))
  have inside {c : Char} (apart : c ≠ '/') (absent : ∀ segment ∈ dir ++ [name], c ∉ segment) : c ∉ dirText dir ++ name := by
    intro mem
    obtain ⟨segment, part, here⟩ := (mem_splitOn apart _).mpr mem
    rw [splitOn_concat free final.slash] at part
    exact absent segment part here
  refine ⟨?_, inside (by decide) fun segment mem => (named segment mem).nul,
    inside (by decide) fun segment mem => (named segment mem).backslash⟩
  rw [splitOn_concat free final.slash]
  exact fun segment mem => ⟨(named segment mem).nonempty, (named segment mem).notDot, (named segment mem).notDotDot⟩

theorem CleanKey.named {path : Text} (clean : CleanKey path) :
    ∃ dir name, path = dirText dir ++ name ∧ ∀ segment ∈ dir ++ [name], Named segment := by
  obtain ⟨dir, name, split⟩ := (List.eq_nil_or_concat (path.splitOn '/')).resolve_left (List.splitOn_ne_nil _ _)
  rw [List.concat_eq_append] at split
  have joined : ['/'].intercalate (path.splitOn '/') = path := List.intercalate_splitOn '/'
  rw [split, intercalate_concat] at joined
  refine ⟨dir, name, joined.symm, fun segment mem => ?_⟩
  rw [← split] at mem
  have kept := clean.segments segment mem
  have part {c : Char} (apart : c ≠ '/') (absent : c ∉ path) : c ∉ segment :=
    fun here => absent ((mem_splitOn apart path).mp ⟨segment, mem, here⟩)
  exact ⟨kept.1, kept.2.1, kept.2.2, splitOn_free '/' path segment mem, part (by decide) clean.nul,
    part (by decide) clean.backslash⟩

/-- The path that a row is for. -/
def ListingEntry.path (dirPrefix : Text) (row : ListingEntry) : Text :=
  dirPrefix ++ if row.isDir then row.name.dropLast else row.name

/-- A listing has one row for each immediate child and no other, and the row of a clean path opens it. -/
theorem listing_exact {json : Json} (parsed : parseManifest json = some manifest) (rt : Runtime) (dirPrefix : Text) :
    (listDirectory rt manifest dirPrefix = none ↔
      ∀ rest entry, rest ≠ [] → (dirPrefix ++ rest, entry) ∉ manifest.files.own) ∧
    ∀ entries, listDirectory rt manifest dirPrefix = some entries →
      (entries.map (·.name)).Nodup ∧
      (∀ row, row ∈ entries ↔ FileRow manifest dirPrefix row ∨ DirectoryRow manifest dirPrefix row) ∧
      ∀ row ∈ entries, CleanKey (row.path dirPrefix) →
        ∃ pathname, Opens row.href pathname ∧ cleanPath pathname = some (dirPrefix ++ row.name) := by
  refine ⟨listDirectory_eq_none, fun entries listed => ⟨rows_distinct (parsed_distinct parsed) listed,
    fun row => mem_listDirectory listed, ?_⟩⟩
  intro row mem clean
  obtain ⟨dir, name, whole, named⟩ := clean.named
  have inner : ∀ segment ∈ dir, Named segment := fun segment mem => named segment (List.mem_append_left _ mem)
  have plain : ∀ segment ∈ dir, segment ≠ [] ∧ segment ≠ ['.'] ∧ segment ≠ ['.', '.'] ∧ '/' ∉ segment :=
    fun segment mem => (inner segment mem).plain
  have final := named name (List.mem_append_right _ (List.mem_singleton_self _))
  rcases (mem_listDirectory listed).mp mem with ⟨file, entry, -, -, -, rfl⟩ | ⟨segment, rest, entry, -, -, rfl⟩
  · have key : dirPrefix ++ file = dirText dir ++ name := whole
    refine ⟨segmentHref componentChar (dir ++ [name]), ?_, ?_⟩
    · rw [encodeHref_eq, key, file_opens componentChar_escaping plain final.slash final.nonempty, descendFile,
        if_neg (not_or.mpr ⟨final.notDotDot, final.notDot⟩)]
    · rw [cleanPath_file componentChar_escaping named, key]
  · have key : dirPrefix ++ segment = dirText dir ++ name := by
      have shape : dirPrefix ++ (segment ++ ['/']).dropLast = dirText dir ++ name := whole
      rw [List.dropLast_concat] at shape
      exact shape
    have directory : dirPrefix ++ (segment ++ ['/']) = dirText (dir ++ [name]) := by
      rw [← List.append_assoc, key, dirText_concat, List.append_assoc]
    refine ⟨segmentHref componentChar (dir ++ [name] ++ [[]]), ?_, ?_⟩
    · rw [encodeHref_eq, directory, directory_opens componentChar_escaping plain final.slash, descend,
        if_neg final.nonempty, climb, if_neg final.notDotDot, if_neg final.notDot]
    · rw [cleanPath_directory componentChar_escaping named, directory]

/-- A lone file in a directory is listed. -/
theorem lone_file_listed : ∃ entries,
    listDirectory (Proofs.Resolution.loneRuntime "a/b".toList) ⟨1, Proofs.Resolution.loneFiles "a/b".toList⟩ "a/".toList =
      some entries ∧ (entries.map (·.name)).Nodup := by
  have rows := listing_exact (Proofs.Resolution.loneJson_parses "a/b".toList)
    (Proofs.Resolution.loneRuntime "a/b".toList) "a/".toList
  cases listed : listDirectory (Proofs.Resolution.loneRuntime "a/b".toList)
      ⟨1, Proofs.Resolution.loneFiles "a/b".toList⟩ "a/".toList with
  | none => exact absurd (List.mem_singleton_self _) (rows.1.mp listed ['b'] Proofs.Resolution.loneEntry (List.cons_ne_nil _ _))
  | some entries => exact ⟨entries, rfl, (rows.2 entries listed).1⟩

theorem file_open (last : Named name) : dirText dir ++ name ≠ [] ∧ (dirText dir ++ name).getLast? ≠ some '/' := by
  refine ⟨List.append_ne_nil_of_right_ne_nil _ last.nonempty, ?_⟩
  rw [List.getLast?_append_of_ne_nil _ last.nonempty]
  exact fun ends => last.slash (List.mem_of_getLast? ends)

/-! ### The files that are found -/

private theorem index_named : Named "index.html".toList := by
  constructor
  all_goals decide

/-- The files of a version; one with its own page for missing paths lists nothing. -/
def fileTree (manifest : Manifest) : Tree where
  stored := Stored manifest
  kept := Named
  index := "index.html".toList
  lists := ¬ Stored manifest notFoundPath
  plain := Named.plain
  index_kept := index_named

private theorem listingHrefs_link (named : (fileTree manifest).Clean dir)
    (listed : listDirectory rt manifest (dirText dir) = some entries) {href : Text} :
    href ∈ listingHrefs (dirText dir) entries ↔ (fileTree manifest).Link componentChar dir href := by
  constructor
  · intro mem
    rcases List.mem_append.mp mem with parent | row
    · rcases List.eq_nil_or_concat dir with rfl | ⟨front, last, rfl⟩
      · cases parent
      rw [List.concat_eq_append] at *
      split at parent
      · rw [List.mem_singleton.mp parent, parentHref_concat named.last.slash]
        exact .parent front last
      · cases parent
    · obtain ⟨row, inside, rfl⟩ := List.mem_map.mp row
      rcases (mem_listDirectory listed).mp inside with ⟨name, entry, nonempty, free, stored, rfl⟩ | ⟨segment, rest, entry, free, stored, rfl⟩
      · exact .file dir name nonempty free ⟨entry, stored⟩
      · have link : (fileTree manifest).Link componentChar dir (keyHref componentChar (dirText (dir ++ [segment]))) :=
          .directory dir segment rest free ⟨entry, stored⟩
        rw [dirText_concat] at link
        exact link
  · intro link
    cases link with
    | parent front segment =>
      have below : dirText (front ++ [segment]) ≠ [] := by
        rw [dirText_concat, ← List.append_assoc]
        exact List.append_ne_nil_of_right_ne_nil _ (List.cons_ne_nil _ _)
      rw [listingHrefs, if_pos below, parentHref_concat named.last.slash]
      exact List.mem_append_left _ (List.mem_singleton_self _)
    | file _ name nonempty free stored =>
      obtain ⟨entry, stored⟩ := stored
      exact List.mem_append_right _ (List.mem_map_of_mem ((mem_listDirectory listed).mpr
        (.inl ⟨name, entry, nonempty, free, stored, rfl⟩)))
    | directory _ segment rest free stored =>
      obtain ⟨entry, stored⟩ := stored
      rw [dirText_concat]
      exact List.mem_append_right _ (List.mem_map_of_mem ((mem_listDirectory listed).mpr
        (.inr ⟨segment, rest, entry, free, stored, rfl⟩)))

private theorem barred_page {segments : List Text} {segment : Text} (mem : segment ∈ segments)
    (barred : (fileTree manifest).Barred segment) :
    pageAt rt manifest (segmentHref componentChar segments) = .missing := by
  have char : '\x00' ∈ segment ∨ '\\' ∈ segment := by
    by_cases nul : '\x00' ∈ segment
    · exact .inl nul
    · refine .inr (by_contra fun backslash => barred.unkept ?_)
      exact ⟨barred.nonempty, barred.notDot, barred.notDotDot, barred.slash, nul, backslash⟩
  unfold pageAt
  rw [cleanPath_barred componentChar_escaping mem char]

/-- What the Worker serves of a version is a tree with an index of its directories. -/
theorem worker_served (distinct : (manifest.files.own.map (·.1)).Nodup) (rt : Runtime) :
    (fileTree manifest).Served componentChar (fun path => isServiceWorkerScript path = true) (Links rt manifest)
      (Shows rt manifest) where
  escaping := componentChar_escaping
  linked := by
    rintro dir href clean ⟨dirPrefix, entries, shown, mem⟩
    have pages := @directory_page rt manifest dir _ clean (cleanPath_directory componentChar_escaping clean)
    rcases pages with ⟨_, -, page⟩ | ⟨listed, rows, found, page⟩ | ⟨page, -⟩
    all_goals
      rw [page] at shown
      cases shown
    exact ⟨listed, (listingHrefs_link clean found).mp mem⟩
  links_all := by
    rintro dir href rest clean listed nonempty ⟨entry, stored⟩ link
    have pages := @directory_page rt manifest dir _ clean (cleanPath_directory componentChar_escaping clean)
    rcases pages with ⟨index, here, -⟩ | ⟨-, entries, found, page⟩ | ⟨-, -, custom | nothing⟩
    · exact absurd ⟨index, here⟩ listed.1
    · exact ⟨_, entries, page, (listingHrefs_link clean found).mpr link⟩
    · exact absurd custom listed.2
    · exact absurd stored (listDirectory_eq_none.mp nothing rest entry nonempty)
  shows_index := by
    intro dir path clean
    have pages := @directory_page rt manifest dir _ clean (cleanPath_directory componentChar_escaping clean)
    constructor
    · rintro ⟨entry, stored, shown⟩
      rcases pages with ⟨_, -, page⟩ | ⟨-, rows, -, page⟩ | ⟨page, -⟩
      all_goals
        rw [page] at shown
        cases shown
      exact ⟨rfl, entry, stored⟩
    · rintro ⟨rfl, stored⟩
      rcases pages with ⟨entry, here, page⟩ | ⟨listed, -⟩ | ⟨-, absent, -⟩
      · exact ⟨entry, here, page⟩
      · exact absurd stored listed.1
      · exact absurd stored absent
  leaf := by
    rintro dir name href clean ⟨entry, stored⟩ ⟨dirPrefix, entries, shown, -⟩
    rw [file_page distinct (file_open clean.last).1 (file_open clean.last).2 stored
      (cleanPath_file componentChar_escaping clean)] at shown
    split at shown
    · cases shown
    · cases shown
  shows_file := by
    rintro dir name path clean ⟨entry, stored⟩
    have page := @file_page rt manifest (segmentHref componentChar (dir ++ [name])) distinct _ entry
      (file_open clean.last).1 (file_open clean.last).2 stored (cleanPath_file componentChar_escaping clean)
    constructor
    · rintro ⟨entry', stored', shown⟩
      rw [page] at shown
      split at shown
      · cases shown
      · rename_i script
        cases shown
        exact ⟨rfl, script⟩
    · rintro ⟨rfl, script⟩
      refine ⟨entry, stored, ?_⟩
      rw [page, if_neg script]
  barred_links := by
    rintro segments segment href mem barred ⟨dirPrefix, entries, shown, -⟩
    rw [barred_page mem barred] at shown
    cases shown
  barred_shows := by
    rintro segments segment path mem barred ⟨entry, -, shown⟩
    rw [barred_page mem barred] at shown
    cases shown
  index_free := by
    intro dir clean
    exact Bool.eq_false_iff.mp (index_script clean)

end Dropway.Edge
