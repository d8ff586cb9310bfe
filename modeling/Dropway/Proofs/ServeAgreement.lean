import Dropway.Proofs.ManifestAgreement
import Mathlib.Data.List.TakeWhile

/-! The Worker and the Go server on one request path and one manifest. They look
up the same candidates, and part where only one of them finds something. -/

namespace Dropway.Serve
open Lib Uri

variable {doc : Doc} {manifest : Manifest} {path : Text}

private theorem dot_past_first {α : Type} [DecidableEq α] (dot : α) (letters : List α) :
    1 < (letters.reverse.dropWhile fun c => decide (c ≠ dot)).length ↔ dot ∈ letters.tail := by
  cases letters with
  | nil => simp
  | cons first rest =>
    rw [List.reverse_cons, List.tail_cons, List.dropWhile_append]
    by_cases later : dot ∈ rest
    · have kept : rest.reverse.dropWhile (fun c => decide (c ≠ dot)) ≠ [] := by
        intro gone
        have all := List.dropWhile_eq_nil_iff.mp gone dot (List.mem_reverse.mpr later)
        exact of_decide_eq_true all rfl
      have positive := List.length_pos_iff.mpr kept
      rw [if_neg (by simpa using kept), List.length_append, List.length_singleton]
      exact iff_of_true (by omega) later
    · have gone : rest.reverse.dropWhile (fun c => decide (c ≠ dot)) = [] := by
        rw [List.dropWhile_eq_nil_iff]
        intro c mem
        exact decide_eq_true fun same => later (List.mem_reverse.mp (same ▸ mem))
      rw [gone, List.isEmpty_nil, if_pos rfl]
      refine iff_of_false ?_ later
      have short := List.length_dropWhile_le (fun c => decide (c ≠ dot)) [first]
      rw [List.length_singleton] at short
      omega

private theorem dot_tail_encode (letters : Text) :
    (0x2E : UInt8) ∈ (Utf8.encode letters).tail ↔ '.' ∈ letters.tail := by
  cases letters with
  | nil => simp
  | cons first rest =>
    have ascii : ('.' : Char).toNat < 0x80 := by decide
    have later : (0x2E : UInt8) ∈ Utf8.encode rest ↔ '.' ∈ rest := Utf8.byteOf_mem_encode ascii
    rw [Utf8.encode_cons, List.tail_append_of_ne_nil (Utf8.encodeChar_ne_nil first), List.mem_append,
      List.tail_cons, ← later]
    refine or_iff_right fun inside => ?_
    have same := (Utf8.byteOf_mem_encodeChar (a := '.') (by decide)).mp (List.mem_of_mem_tail inside)
    rw [same] at inside
    cases inside

theorem hasExtension_encode (path : Text) : hasExtension (Utf8.encode path) = Edge.hasExtension path := by
  have split : (Utf8.encode path).splitOn 0x2F = (path.splitOn '/').map Utf8.encode :=
    Utf8.splitOn_encode (a := '/') (by decide) path
  have last : ((path.splitOn '/').map Utf8.encode).getLastD [] =
      Utf8.encode ((path.splitOn '/').getLastD []) := by
    rw [List.getLastD_eq_getLast?, List.getLastD_eq_getLast?, List.getLast?_map]
    cases (path.splitOn '/').getLast? <;> rfl
  simp only [hasExtension, Edge.hasExtension, split, last]
  generalize (path.splitOn '/').getLastD [] = letters
  have dotted : (Utf8.encode letters).contains 0x2E = decide ('.' ∈ letters) := by
    rw [Bool.eq_iff_iff, List.contains_iff_mem, decide_eq_true_eq]
    exact Utf8.byteOf_mem_encode (a := '.') (by decide)
  have ends : (Utf8.encode letters).getLast? = some 0x2E ↔ letters.getLast? = some '.' :=
    Utf8.getLast_encode (a := '.') (by decide) letters
  simp only [dotted, dot_past_first, dot_tail_encode, ne_eq, ends]

theorem candidatePaths_encode (path : Text) :
    candidatePaths (Utf8.encode path) = (Edge.candidatePaths path).map Utf8.encode := by
  have ends : (Utf8.encode path).getLast? = some 0x2F ↔ path.getLast? = some '/' :=
    Utf8.getLast_encode (a := '/') (by decide) path
  simp only [candidatePaths, Edge.candidatePaths, Utf8.encode_eq_nil, ends, hasExtension_encode]
  split
  · rw [List.map_singleton, Utf8.encode_append]
    rfl
  split
  · rfl
  · simp only [List.map_cons, List.map_nil, Utf8.encode_append]
    rfl

/-- What the document has at a path. -/
def fileNamed (doc : Doc) (path : Text) : Option Doc :=
  match doc with
  | .obj members => (decodeFiles members).join.bind fun files => Doc.last files path
  | _ => none

theorem parsed_keys {members : List (List Glyph × Doc)} {files : List (Text × Entry)}
    (parsed : (members.mapM fun member => (parseEntry member.2).map fun entry => (goText member.1, entry)) =
      some files) : files.map (·.1) = members.map fun member => goText member.1 := by
  induction members generalizing files with
  | nil =>
    cases parsed
    rfl
  | cons member rest ih =>
    rw [List.mapM_cons] at parsed
    obtain ⟨file, read, parsed⟩ := Option.bind_eq_some_iff.mp parsed
    obtain ⟨others, tail, same⟩ := Option.bind_eq_some_iff.mp parsed
    obtain ⟨entry, -, rfl⟩ := Option.map_eq_some_iff.mp read
    cases same
    rw [List.map_cons, List.map_cons, ih tail]

theorem get_isSome (accepted : decodeManifest doc = some manifest) :
    (manifest.get (Utf8.encode path)).isSome ↔ (fileNamed doc path).isSome := by
  cases doc with
  | obj members =>
    simp only [decodeManifest, Option.bind_eq_bind] at accepted
    obtain ⟨_, -, accepted⟩ := Option.bind_eq_some_iff.mp accepted
    obtain ⟨field, decoded, accepted⟩ := Option.bind_eq_some_iff.mp accepted
    obtain ⟨_, -, accepted⟩ := Option.bind_eq_some_iff.mp accepted
    split at accepted
    · cases accepted
    obtain ⟨raws, present, accepted⟩ := Option.bind_eq_some_iff.mp accepted
    obtain ⟨files, parsed, same⟩ := Option.bind_eq_some_iff.mp accepted
    cases same
    have keys : files.map (·.1) = (lastOfEach (fun member => goText member.1) raws).map fun member =>
        goText member.1 := parsed_keys parsed
    have found : ((files.find? fun file => Utf8.encode file.1 = Utf8.encode path).isSome) ↔
        path ∈ files.map (·.1) := by
      rw [List.find?_isSome, List.mem_map]
      constructor
      · rintro ⟨file, mem, same⟩
        exact ⟨file, mem, Utf8.encode_injective (of_decide_eq_true same)⟩
      · rintro ⟨file, mem, rfl⟩
        exact ⟨file, mem, decide_eq_true rfl⟩
    have named : fileNamed (.obj members) path =
        (lastWith (fun member => goText member.1) path raws).map (·.2) := by
      simp only [fileNamed, decoded, present, Option.join_some, Option.bind_some, Doc.last]
    rw [named, Manifest.get, Option.isSome_map, Option.isSome_map, found, keys, ← lastWith_lastOfEach,
      lastWith_isSome, List.mem_map]
  | _ => cases accepted

/-! ### Cleaning -/

/-- What neither server lets a path have. -/
def Barred (decoded : Bytes) : Prop := 0 ∈ decoded ∨ 0x5C ∈ decoded ∨ dotDot ∈ decoded.splitOn 0x2F

/-- The segments of a path, without those that stand for nothing. -/
def asked (decoded : Text) : Text :=
  let rel := ['/'].intercalate ((decoded.splitOn '/').filter fun segment => segment ≠ [] ∧ segment ≠ ['.'])
  if decoded.getLast? = some '/' ∧ rel ≠ [] then rel ++ ['/'] else rel

/-- Leading separators make empty segments. -/
private theorem splitOn_rooted {α : Type} [DecidableEq α] (sep : α) (letters : List α) :
    ∃ roots, letters.splitOn sep =
      List.replicate roots [] ++ (letters.dropWhile fun c => decide (c = sep)).splitOn sep := by
  induction letters with
  | nil => exact ⟨0, rfl⟩
  | cons c rest ih =>
    by_cases slash : c = sep
    · obtain ⟨roots, split⟩ := ih
      refine ⟨roots + 1, ?_⟩
      rw [List.dropWhile_cons_of_pos (by simpa using slash), slash, List.splitOn_cons_eq_if_modifyHead,
        beq_self_eq_true, if_pos rfl, split]
      rfl
    · exact ⟨0, by rw [List.dropWhile_cons_of_neg (by simpa using slash)]; rfl⟩

private theorem climbs_rooted (decoded : Bytes) :
    ((decoded.dropWhile fun c => decide (c = 0x2F)).splitOn 0x2F).contains dotDot =
      (decoded.splitOn 0x2F).contains dotDot := by
  obtain ⟨roots, split⟩ := splitOn_rooted 0x2F decoded
  have fresh : dotDot ∉ List.replicate roots ([] : Bytes) := fun mem =>
    List.cons_ne_nil _ _ (List.eq_of_mem_replicate mem)
  rw [Bool.eq_iff_iff, List.contains_iff_mem, List.contains_iff_mem, split, List.mem_append, or_iff_right fresh]

theorem cleanPath_eq_none (rawPath : Bytes) : cleanPath rawPath = none ↔
    ∀ decoded, decodeOnce (pathPart rawPath) = some decoded → Barred decoded := by
  unfold cleanPath
  cases decodeOnce (pathPart rawPath) with
  | none => simp
  | some decoded =>
    simp only [Option.bind_eq_bind, Option.bind_some, Option.some.injEq, forall_eq', segmentsOf, climbs_rooted,
      List.contains_iff_mem, Barred]
    by_cases plain : 0 ∈ decoded ∨ 0x5C ∈ decoded
    · rw [if_pos plain]
      exact iff_of_true rfl (or_assoc.mp (.inl plain))
    · rw [if_neg plain, ← or_assoc, or_iff_right plain]
      split
      · exact iff_of_true rfl ‹_›
      · exact iff_of_false (Option.some_ne_none _) ‹_›

theorem cleanPath_asked {raw decoded : Text}
    (spelled : decodeURIComponent (raw.takeWhile fun c => c ≠ '?' ∧ c ≠ '#') = some decoded)
    (cleaned : Edge.cleanPath raw = some path) : path = asked decoded := by
  unfold Edge.cleanPath at cleaned
  obtain ⟨_, decodes, cleaned⟩ := Option.bind_eq_some_iff.mp cleaned
  cases spelled.symm.trans decodes
  split at cleaned
  · cases cleaned
  obtain ⟨out, segments, same⟩ := Option.bind_eq_some_iff.mp cleaned
  obtain ⟨roots, split⟩ := splitOn_rooted '/' decoded
  have kept : out = (decoded.splitOn '/').filter fun segment => segment ≠ [] ∧ segment ≠ ['.'] := by
    simp only [Edge.segmentsOf] at segments
    split at segments
    · cases segments
    · cases segments
      rw [split, List.filter_append, List.filter_replicate_of_neg (by simp)]
      rfl
  cases same
  unfold asked
  rw [← kept]
  by_cases slash : decoded.getLast? = some '/' ∧ ['/'].intercalate out ≠ []
  · have long : 1 < decoded.length := by
      cases decoded with
      | nil => cases slash.1
      | cons c rest =>
        cases rest with
        | nil =>
          cases slash.1
          exact absurd (kept ▸ rfl) slash.2
        | cons next rest => exact Nat.succ_lt_succ (Nat.succ_pos _)
    rw [if_pos slash, if_pos ⟨⟨long, slash.1⟩, slash.2⟩]
  · rw [if_neg slash, if_neg fun both => slash ⟨both.1.2, both.2⟩]

/-! ### Resolution -/

/-- The names that an object with the document's files inherits. -/
def inherits (doc : Doc) (path : Text) : Bool :=
  Edge.objectPrototype.contains path ||
    ((Edge.fileNamed doc Edge.protoName).bind fun raw => Edge.parseEntry raw.value).any fun proto =>
      proto.fields.contains path

/-- A path at which one of the two finds something, in the documents as they read them. -/
def known (worker go : Doc) (path : Text) : Bool :=
  (Edge.fileNamed worker path).isSome || (fileNamed go path).isSome || inherits worker path

/-- The two servers find nothing, or the entry at the same key. -/
def SameEntry : Option (Text × Edge.Slot) → Option (Bytes × Entry) → Prop
  | none, none => True
  | some (path, .entry _), some (key, _) => key = Utf8.encode path
  | _, _ => False

def Alike (rawPath : Text) (worker : Edge.Manifest) (go : Manifest) : Prop :=
  match Edge.cleanPath rawPath, cleanPath (Utf8.encode rawPath) with
  | none, none => True
  | some path, some bytes => SameEntry (Edge.resolveManifestEntry worker path) (go.resolve bytes)
  | _, _ => False

/-- Escapes that are no text ask for what is barred, and the first candidate that is
known is known to both. -/
structure ReadAlike (rawPath : Text) (worker go : Doc) : Prop where
  spelled : decodeURIComponent (rawPath.takeWhile fun c => c ≠ '?' ∧ c ≠ '#') = none →
    ∀ decoded, decodeOnce (pathPart (Utf8.encode rawPath)) = some decoded → Barred decoded
  first : ∀ decoded, decodeURIComponent (rawPath.takeWhile fun c => c ≠ '?' ∧ c ≠ '#') = some decoded →
    ¬ Barred (Utf8.encode decoded) →
    ∀ candidate, (Edge.candidatePaths (asked decoded)).find? (known worker go) = some candidate →
      (Edge.fileNamed worker candidate).isSome ∧ (fileNamed go candidate).isSome

section

variable {workerDoc goDoc : Doc} {worker : Edge.Manifest} {go : Manifest} {rawPath : Text}
  (workerReads : Edge.parseManifestText workerDoc = some worker) (goReads : decodeManifest goDoc = some go)

include workerReads in
private theorem slot_named (named : (Edge.fileNamed workerDoc path).isSome) :
    ∃ entry, worker.files.get path = some (.entry entry) := by
  obtain ⟨clean, looked⟩ := Edge.manifest_lookup workerReads
  obtain ⟨entry, found⟩ := Option.isSome_iff_exists.mp ((looked path).2 named)
  exact ⟨entry, Edge.Files.get_assigned clean found⟩

include workerReads in
private theorem slot_unnamed (unnamed : (Edge.fileNamed workerDoc path).isSome = false) :
    worker.files.get path = if inherits workerDoc path then some .inherited else none := by
  obtain ⟨clean, looked⟩ := Edge.manifest_lookup workerReads
  have missing := (looked path).1
  rw [Option.isSome_eq_false_iff, Option.isNone_iff_eq_none] at unnamed
  rw [unnamed, Option.bind_none] at missing
  obtain ⟨inherited, absent⟩ := Edge.Files.get_unassigned clean missing
  have inherits_iff : worker.files.Inherits path ↔ inherits workerDoc path = true := by
    have proto : worker.files.proto = (Edge.fileNamed workerDoc Edge.protoName).bind fun raw =>
        Edge.parseEntry raw.value := (looked Edge.protoName).1
    unfold Edge.Files.Inherits inherits
    rw [proto, Bool.or_eq_true, List.contains_iff_mem, Option.any_eq_true]
    simp only [List.contains_iff_mem]
  by_cases known : inherits workerDoc path = true
  · rw [if_pos known]
    exact inherited (inherits_iff.mpr known)
  · rw [if_neg known]
    exact absent fun inner => known (inherits_iff.mp inner)

private theorem alike_of_cleaned {bytes : Bytes} (cleaned : Edge.cleanPath rawPath = some path)
    (also : cleanPath (Utf8.encode rawPath) = some bytes) :
    Alike rawPath worker go ↔ SameEntry (Edge.resolveManifestEntry worker path) (go.resolve bytes) := by
  rw [Alike, cleaned, also]

/-- What an object inherits is no entry. -/
private theorem not_same_inherited {found : Option (Bytes × Entry)} :
    ¬ SameEntry (some (path, .inherited)) found := by
  cases found <;> exact id

/-- What is found is found at the key that comes with it. -/
private theorem found_at {α β : Type} {look : α → Option β} {keys : List α} {key : α} {value : β}
    (found : (keys.findSome? fun key => (look key).map fun value => (key, value)) = some (key, value)) :
    look key = some value := by
  obtain ⟨other, -, read⟩ := List.exists_of_findSome?_eq_some found
  obtain ⟨_, read, same⟩ := Option.map_eq_some_iff.mp read
  cases same
  exact read

include workerReads goReads in
/-- What both find first is the same file where both documents have it. -/
private theorem same_entry_iff (candidates : List Text) :
    SameEntry
        (candidates.findSome? fun candidate =>
          (worker.files.get candidate).map fun slot => (candidate, slot))
        ((candidates.map Utf8.encode).findSome? fun candidate =>
          (go.get candidate).map fun entry => (candidate, entry)) ↔
      ∀ candidate, candidates.find? (known workerDoc goDoc) = some candidate →
        (Edge.fileNamed workerDoc candidate).isSome ∧ (fileNamed goDoc candidate).isSome := by
  induction candidates with
  | nil => exact iff_of_true trivial fun candidate none => (by cases none)
  | cons candidate rest ih =>
    rw [List.findSome?_cons, List.map_cons, List.findSome?_cons, List.find?_cons]
    have got : (go.get (Utf8.encode candidate)).isSome ↔ (fileNamed goDoc candidate).isSome :=
      get_isSome goReads
    cases named : (Edge.fileNamed workerDoc candidate).isSome with
    | true =>
      obtain ⟨slot, found⟩ := slot_named workerReads named
      simp only [known, named, found, Bool.true_or, Option.map_some, Option.some.injEq, forall_eq', true_and]
      rw [← got]
      cases entry : go.get (Utf8.encode candidate) with
      | some entry => exact iff_of_true rfl rfl
      | none =>
        refine iff_of_false ?_ Bool.false_ne_true
        rw [Option.map_none]
        cases later : (rest.map Utf8.encode).findSome? fun candidate =>
            (go.get candidate).map fun entry => (candidate, entry) with
        | none => exact id
        | some other =>
          intro same
          cases entry.symm.trans (same ▸ found_at later)
    | false =>
      rw [slot_unnamed workerReads named]
      by_cases inherited : inherits workerDoc candidate = true
      · rw [if_pos inherited]
        simp only [known, named, inherited, Bool.or_true, Option.map_some, Option.some.injEq, forall_eq']
        exact iff_of_false id fun both => Bool.false_ne_true both.1
      · rw [if_neg inherited, Option.map_none]
        simp only [known, named, Bool.false_or, Bool.eq_false_iff.mpr inherited, Bool.or_false]
        cases entry : go.get (Utf8.encode candidate) with
        | some entry' =>
          rw [entry] at got
          rw [got.mp rfl]
          refine iff_of_false ?_ fun all => Bool.false_ne_true (named ▸ (all candidate rfl).1)
          cases later : rest.findSome? fun candidate =>
              (worker.files.get candidate).map fun slot => (candidate, slot) with
          | none => exact id
          | some other =>
            obtain ⟨key, slot⟩ := other
            cases slot with
            | inherited => exact id
            | entry slot =>
              intro same
              obtain rfl := Utf8.encode_injective same
              have absent := (slot_unnamed workerReads named).trans (if_neg inherited)
              cases absent.symm.trans (found_at later)
        | none =>
          rw [entry] at got
          have unnamed := Bool.eq_false_iff.mpr (mt got.mpr Bool.false_ne_true)
          rw [unnamed]
          exact ih

include workerReads goReads in
private theorem alike_iff : Alike rawPath worker go ↔ ReadAlike rawPath workerDoc goDoc := by
  unfold Alike
  cases decoded : decodeURIComponent (rawPath.takeWhile fun c => c ≠ '?' ∧ c ≠ '#') with
  | none =>
    have rejected : Edge.cleanPath rawPath = none := by
      rw [Edge.cleanPath, decoded]
      rfl
    rw [rejected]
    constructor
    · intro alike
      refine ⟨fun _ => ?_, fun text read => ?_⟩
      · rw [← cleanPath_eq_none]
        cases cleaned : cleanPath (Utf8.encode rawPath) with
        | none => rfl
        | some bytes =>
          rw [cleaned] at alike
          exact alike.elim
      · rw [decoded] at read
        cases read
    · intro condition
      rw [(cleanPath_eq_none _).mpr (condition.spelled decoded)]
      trivial
  | some text =>
    have agrees := cleanPath_eq decoded
    have barred : Edge.cleanPath rawPath = none ↔ Barred (Utf8.encode text) := by
      have nothing := cleanPath_eq_none (Utf8.encode rawPath)
      rw [pathPart_encode, decodeOnce_eq decoded, agrees, Option.map_eq_none_iff] at nothing
      rw [nothing]
      simp only [Option.some.injEq, forall_eq']
    rw [agrees]
    cases cleaned : Edge.cleanPath rawPath with
    | none =>
      refine iff_of_true trivial ⟨fun none => ?_, fun other read clear => ?_⟩
      · rw [decoded] at none
        cases none
      · rw [decoded] at read
        cases read
        exact absurd (barred.mp cleaned) clear
    | some path =>
      obtain rfl := cleanPath_asked decoded cleaned
      have clear : ¬ Barred (Utf8.encode text) := by
        rw [← barred, cleaned]
        exact Option.some_ne_none _
      have entries := same_entry_iff workerReads goReads (Edge.candidatePaths (asked text))
      rw [← candidatePaths_encode] at entries
      refine entries.trans ⟨fun first => ⟨fun none => ?_, fun other read _ => ?_⟩, fun condition => ?_⟩
      · rw [decoded] at none
        cases none
      · rw [decoded] at read
        cases read
        exact first
      · exact condition.first text decoded clear

end

/-- The two servers resolve alike exactly what their readings of the document let them. -/
theorem resolve_alike_iff {rawPath : Text} {stored : Bytes} {worker : Edge.Manifest} {go : Manifest}
    (workerReads : Edge.readManifest stored = some worker) (goReads : parse stored = some go) :
    Alike rawPath worker go ↔ ∃ workerDoc goDoc,
      JsonText.parse (Utf8.decode stored) = some workerDoc ∧ (goDecode stored).map (·.1) = some goDoc ∧
        ReadAlike rawPath workerDoc goDoc := by
  obtain ⟨workerDoc, workerText, accepted⟩ := Option.bind_eq_some_iff.mp workerReads
  obtain ⟨goDoc, goText, decoded⟩ := Option.bind_eq_some_iff.mp goReads
  rw [alike_iff accepted decoded]
  constructor
  · exact fun condition => ⟨workerDoc, goDoc.1, workerText, congrArg (Option.map (·.1)) goText, condition⟩
  · rintro ⟨workerDoc', goDoc', first, second, condition⟩
    rw [workerText, Option.some.injEq] at first
    rw [goText, Option.map_some, Option.some.injEq] at second
    rw [first, second]
    exact condition

def named (name : String) (value : Doc) : List Glyph × Doc := (name.toList.map .char, value)

def pageEntry : Doc :=
  .obj [named "sha256" (.str ((List.replicate 64 '0').map .char)),
    named "content_type" (.str ("text/html".toList.map .char))]

/-- A site of one page. -/
def pageDoc : Doc :=
  .obj [named "schema_version" (.num (JsonText.decimal 1)),
    named "files" (.obj [named "index.html" pageEntry])]

def pageStored : Bytes := Utf8.encode (JsonText.write pageDoc)

private def pageFile : Edge.ManifestEntry :=
  { sha256 := List.replicate 64 '0', contentType := "text/html", size := none }

private theorem page_proper : pageDoc.Proper := by
  have chars (text : Text) : Whole (text.map .char) := by
    intro unit mem
    obtain ⟨c, -, same⟩ := List.mem_map.mp mem
    cases same
  have entry : pageEntry.Proper := ⟨chars _, chars _, chars _, chars _, trivial⟩
  exact ⟨chars _, ⟨1, rfl⟩, chars _, ⟨chars _, entry, trivial⟩, trivial⟩

private theorem page_worker : Edge.readManifest pageStored =
    some { schemaVersion := 1, files := { own := [("index.html".toList, pageFile)] } } := by
  have read : JsonText.parse (JsonText.write pageDoc) = some pageDoc := JsonText.parse_write page_proper
  have version : JsonText.nearestDouble (JsonText.literalValue (JsonText.decimal 1)) =
      some Edge.supportedManifestSchemaVersion := by decide +kernel
  have entry : Edge.parseEntry pageEntry.value = some pageFile := by decide +kernel
  have file : Edge.parseRawFiles [named "index.html" pageEntry] =
      some { own := [("index.html".toList, pageFile)] } := by
    simp only [Edge.parseRawFiles, lastOfEach, List.any_nil, Bool.false_eq_true, if_false, List.foldlM_cons,
      List.foldlM_nil, named, entry, Option.map_some]
    rfl
  rw [Edge.readManifest, pageStored, Utf8.decode_encode, read, Option.bind_some]
  simp only [pageDoc, Edge.parseManifestText]
  generalize members : [named "schema_version" _, named "files" _] = fields
  have numbered : Doc.own fields "schema_version".toList = some (.num (JsonText.decimal 1)) := members ▸ rfl
  have listed : Edge.rawFiles fields = some [named "index.html" pageEntry] := members ▸ rfl
  simp only [numbered, listed, file, Option.bind_eq_bind, Option.bind_some, version, ne_eq, not_true_eq_false,
    if_false]
  rfl

private theorem page_go : parse pageStored =
    some { files := [("index.html".toList,
      { sha256 := List.replicate 64 '0', contentType := Utf8.encode "text/html".toList, size := none })] } := by
  have read := JsonText.read_write page_proper
  rw [parse, pageStored, goDecode, Utf8.runeText_encode, read, Option.bind_some]
  rfl

/-- A name that every object has is found, and escapes that are no text are let pass. -/
theorem page_unlike : ∃ worker go, Edge.readManifest pageStored = some worker ∧ parse pageStored = some go ∧
    ¬ Alike "/constructor".toList worker go ∧ ¬ Alike "/%FF".toList worker go := by
  refine ⟨_, _, page_worker, page_go, ?_, ?_⟩
  · have cleaned : Edge.cleanPath "/constructor".toList = some "constructor".toList := rfl
    have decoded : decodeURIComponent ("/constructor".toList.takeWhile fun c => c ≠ '?' ∧ c ≠ '#') =
        some "/constructor".toList := rfl
    have also := cleanPath_eq decoded
    rw [cleaned] at also
    have found : Edge.resolveManifestEntry
        { schemaVersion := 1, files := { own := [("index.html".toList, pageFile)] } } "constructor".toList =
          some ("constructor".toList, .inherited) := by decide +kernel
    rw [alike_of_cleaned cleaned also, found]
    exact not_same_inherited
  · have worker : Edge.cleanPath "/%FF".toList = none := rfl
    have go : cleanPath (Utf8.encode "/%FF".toList) = some [0xFF] := rfl
    rw [Alike, worker, go]
    exact id

theorem page_alike_iff : ∃ worker go, Edge.readManifest pageStored = some worker ∧ parse pageStored = some go ∧
    (Alike "/".toList worker go ↔ ∃ workerDoc goDoc,
      JsonText.parse (Utf8.decode pageStored) = some workerDoc ∧
        (goDecode pageStored).map (·.1) = some goDoc ∧ ReadAlike "/".toList workerDoc goDoc) :=
  ⟨_, _, page_worker, page_go, resolve_alike_iff page_worker page_go⟩

end Dropway.Serve
