import Dropway.Edge.Content
import Dropway.Proofs.Resolution

/-! When two requests share a cache key they are the same request, or the `raw`
segment of one of them has been mistaken for a directory of the other. -/

namespace Dropway.Proofs.CacheKey
open Dropway.Lib Dropway.Lib.Uri Dropway.Edge RequestPath Resolution

def SameAnswer (route route' : RouteValue) (url url' : Url) : Prop :=
  ∀ rt pages bucket,
    served (resolveBlob rt pages bucket route url) = served (resolveBlob rt pages bucket route' url')

def chatSegment (route : RouteValue) : Text := (route.chatId.map (·.text)).getD "_".toList

def rawSegment (url : Url) : List Text := if isRawRequested url then ["raw".toList] else []

private def keyBase (route : RouteValue) : Text :=
  "/".toList ++ route.accessMode.text.toList ++ "/".toList ++ route.versionId.text ++ "/".toList ++
    route.planTier.getD "_".toList

/-- The segments under which a request is filed, before those of its own path. -/
def keyScope (route : RouteValue) (url : Url) : List Text :=
  (separate (keyBase route)).foldl advance [] ++ chatSegment route :: rawSegment url

/-- The key of the first request reads as one of the second: the second is the
first behind segments that the first one's scope ends in, or the two are the
same request to different sites. -/
def Shadows (route route' : RouteValue) (url url' : Url) : Prop :=
  Servable url ∧ ∃ extra, keyScope route url = keyScope route' url' ++ extra ∧
    url'.path.segments = extra ++ url.path.segments ∧
    (extra = [] → ¬ (route.orgId = route'.orgId ∧ route.siteId = route'.siteId))

/-! ### Segments of the key -/

private theorem hex_digits {c : Char} (hex : isHex c) : c ∈ "0123456789abcdefABCDEF".toList := by
  rw [← Char.ofNat_toNat c]
  unfold isHex hexValue at hex
  split_ifs at hex with digit upper lower
  · have bounds : 48 ≤ c.toNat ∧ c.toNat ≤ 57 := digit
    obtain ⟨low, high⟩ := bounds
    interval_cases c.toNat <;> decide
  · have bounds : 65 ≤ c.toNat ∧ c.toNat ≤ 70 := upper
    obtain ⟨low, high⟩ := bounds
    interval_cases c.toNat <;> decide
  · have bounds : 97 ≤ c.toNat ∧ c.toNat ≤ 102 := lower
    obtain ⟨low, high⟩ := bounds
    interval_cases c.toNat <;> decide
  · simp at hex

/-- The last segment of a scope: short, and no file name. -/
structure Mark (segment : Text) : Prop where
  plain : Plain segment
  literal : '%' ∉ segment
  nonempty : segment ≠ []
  dotless : '.' ∉ segment
  notIndex : segment ≠ "index".toList

private theorem Mark.keeps {segment : Text} (mark : Mark segment) : Keeps segment where
  literal := mark.literal
  slash := mark.plain.slash_free
  nonempty := mark.nonempty
  notDot := by rintro rfl; exact mark.dotless (by decide)
  notDotDot := by rintro rfl; exact mark.dotless (by decide)

private def uuidChars : Text := "-0123456789abcdefABCDEF".toList

private theorem uuid_chars (id : Uuid) : ∀ c ∈ id.text, c ∈ uuidChars := by
  have wf := id.wf
  simp only [isUuid, Bool.and_eq_true, List.all_eq_true, Bool.or_eq_true, decide_eq_true_eq] at wf
  intro c member
  rcases wf.2 c member with hex | rfl
  · exact List.mem_cons_of_mem _ (hex_digits hex)
  · decide

private theorem uuid_absent (id : Uuid) {c : Char} (outside : c ∉ uuidChars) : c ∉ id.text :=
  fun member => outside (uuid_chars id c member)

private theorem uuid_mark (id : Uuid) : Mark id.text := by
  have all : uuidChars.all fun c => decide (pathChar c ∧ c ≠ '/' ∧ c ≠ '\\') := by decide
  have kept (c : Char) (member : c ∈ uuidChars) : pathChar c ∧ c ≠ '/' ∧ c ≠ '\\' :=
    of_decide_eq_true (List.all_eq_true.mp all c member)
  have lowered (d : Char) (outside : d ∉ uuidChars.map Char.toLower) :
      d ∉ id.text.map Char.toLower := by
    intro member
    obtain ⟨c, inside, same⟩ := List.mem_map.mp member
    exact outside (List.mem_map.mpr ⟨c, uuid_chars id c inside, same⟩)
  refine ⟨⟨fun c member => kept c (uuid_chars id c member),
    no_dot_segment (lowered '.' (by decide)) (lowered '%' (by decide))⟩,
    uuid_absent id (by decide), ?_, uuid_absent id (by decide), ?_⟩
  · intro blank
    have wf := id.wf
    rw [blank] at wf
    exact absurd wf (by decide)
  · intro same
    exact uuid_absent id (c := 'i') (by decide) (by rw [same]; decide)

private theorem chat_mark (route : RouteValue) :
    Mark (chatSegment route) ∧ chatSegment route ≠ "raw".toList := by
  unfold chatSegment
  cases route.chatId with
  | none =>
    refine ⟨⟨?_, ?_, ?_, ?_, ?_⟩, ?_⟩ <;> decide
  | some id =>
    refine ⟨uuid_mark id, fun same => uuid_absent id (c := 'r') (by decide) ?_⟩
    have text : id.text = "raw".toList := same
    rw [text]; decide

private theorem raw_mark : Mark "raw".toList := by
  constructor <;> decide

/-- A scope ends in a mark, and the mark tells whether the raw source is wanted. -/
private theorem keyScope_last (route : RouteValue) (url : Url) :
    ∃ before last, keyScope route url = before ++ [last] ∧ Mark last ∧
      (last = "raw".toList ↔ isRawRequested url) := by
  obtain ⟨chat, notRaw⟩ := chat_mark route
  let base := (separate (keyBase route)).foldl advance []
  by_cases raw : isRawRequested url
  · refine ⟨base ++ [chatSegment route], "raw".toList, ?_, raw_mark, iff_of_true rfl raw⟩
    simp [keyScope, rawSegment, raw, base]
  · refine ⟨base, chatSegment route, ?_, chat, iff_of_false notRaw raw⟩
    simp [keyScope, rawSegment, raw, base]

private theorem keyTail_plain (route : RouteValue) (url : Url) :
    ∀ s ∈ (chatSegment route :: rawSegment url) ++ url.path.segments, Plain s := by
  intro s member
  rcases List.mem_append.mp member with scope | path
  · rcases List.mem_cons.mp scope with rfl | raw
    · exact (chat_mark route).1.plain
    · by_cases wanted : isRawRequested url
      · rw [rawSegment, if_pos wanted, List.mem_singleton] at raw
        exact raw ▸ raw_mark.plain
      · simp [rawSegment, wanted] at raw
  · exact url.path.plain s path

theorem cacheKey_segments (route : RouteValue) (url : Url) :
    cacheKey route url = url.origin ++ serialize (keyScope route url ++ url.path.segments) := by
  have named : cacheKey route url = url.origin ++ serialize (parsePath (keyBase route ++
      serialize ((chatSegment route :: rawSegment url) ++ url.path.segments))) := by
    by_cases raw : isRawRequested url <;>
      simp [cacheKey, keyBase, chatSegment, rawSegment, raw, serialize, Url.pathname]
  rw [named, parsePath_append (by rfl) (by simp) (keyTail_plain route url), keyScope,
    List.append_assoc]

private theorem key_slash_free (route : RouteValue) (url : Url) :
    ∀ s ∈ keyScope route url ++ url.path.segments, '/' ∉ s := by
  intro s member
  rw [keyScope, List.append_assoc] at member
  rcases List.mem_append.mp member with base | tail
  · exact foldl_advance_slash_free (by simp) (separate_slash_free _) s base
  · exact (keyTail_plain route url s tail).slash_free

theorem same_key {route route' : RouteValue} {url url' : Url} (origin : url.origin = url'.origin) :
    cacheKey route url = cacheKey route' url' ↔
      keyScope route url ++ url.path.segments = keyScope route' url' ++ url'.path.segments := by
  rw [cacheKey_segments, cacheKey_segments, origin, List.append_cancel_left_eq]
  exact ⟨serialize_injective (key_slash_free route url) (key_slash_free route' url'), congrArg _⟩

/-! ### Requests that share a key -/

private theorem mark_apart {last : Text} (mark : Mark last) : Apart (firstCandidate []) last := by
  have unended : ¬ (last = [] ∨ last.getLast? = some '/') := by
    rintro (blank | ended)
    · exact mark.nonempty blank
    · exact mark.plain.slash_free (List.mem_of_getLast? ended)
  have named : firstCandidate [] = "index.html".toList := by decide
  have notFile : "index.html".toList ≠ last := fun same => mark.dotless (by rw [← same]; decide)
  have notBelow : "index.html".toList ≠ last ++ "/index.html".toList := by
    intro same
    have size := congrArg List.length same
    rw [List.length_append] at size
    have short : "index.html".toList.length < "/index.html".toList.length := by decide
    omega
  have notPage : "index.html".toList ≠ last ++ ".html".toList := by
    intro same
    have whole : "index.html".toList = "index".toList ++ ".html".toList := by decide
    rw [whole] at same
    exact mark.notIndex (List.append_cancel_right same).symm
  rw [named]
  constructor
  · unfold candidatePaths
    rw [if_neg unended]
    split_ifs
    · simpa only [List.mem_singleton] using notFile
    · simp only [List.mem_cons, List.not_mem_nil, or_false, not_or]
      exact ⟨notFile, notBelow, notPage⟩
  · rw [directoryPrefix, if_neg unended]
    intro before
    have slash : '/' ∈ last ++ "/".toList := List.mem_append_right last (by decide)
    exact absurd (before.subset slash) (by decide)

private theorem behind_apart {front : List Text} {last : Text} {back : List Text}
    {clean short : Text} (mark : Mark last) (nonempty : back ≠ [])
    (plain : ∀ s ∈ front ++ last :: back, Plain s)
    (cleaned : cleanPath (serialize (front ++ last :: back)) = some clean)
    (cleanedBack : cleanPath (serialize back) = some short) : Apart (firstCandidate short) clean := by
  obtain ⟨short', cleaned', ⟨-, before, rfl⟩ | ⟨blank, before, slash, ended, rfl⟩⟩ :=
    cleanPath_behind mark.keeps nonempty plain cleaned
  · obtain rfl : short = short' := Option.some.inj (cleanedBack.symm.trans cleaned')
    apply apart_of_slashes
    rw [firstCandidate_slashes, List.count_append, List.count_cons_self]
    omega
  · obtain rfl : short = short' := Option.some.inj (cleanedBack.symm.trans cleaned')
    subst blank
    by_cases deep : '/' ∈ ['/'].intercalate (before ++ [last]) ++ slash
    · apply apart_of_slashes
      rw [firstCandidate_slashes]
      exact List.count_pos_iff.mpr deep
    · -- without a slash, nothing but the mark is left
      obtain rfl : slash = [] := by
        rcases ended with none | one
        · exact none
        · exact absurd (by simp [one]) deep
      obtain rfl : before = [] := by
        cases before with
        | nil => rfl
        | cons first more =>
          refine absurd ?_ deep
          rw [List.append_nil, List.cons_append, List.intercalate_cons_of_ne_nil (by simp)]
          simp
      have alone : ['/'].intercalate ([] ++ [last]) ++ [] = last := by simp
      rw [alone]
      exact mark_apart mark

private theorem script_behind (front back : Text) :
    isServiceWorkerScript (front ++ '/' :: back) = isServiceWorkerScript back := by
  unfold isServiceWorkerScript
  rw [List.splitOn_append_cons_self, List.getLastD_eq_getLast?, List.getLastD_eq_getLast?,
    List.getLast?_append_of_ne_nil _ (List.splitOn_ne_nil '/' back)]

/-- A servable path is servable without the segments before it. -/
private theorem servable_front {url url' : Url} {front : List Text} {last : Text}
    (keeps : Keeps last) (behind : url'.path.segments = front ++ last :: url.path.segments)
    (servable : Servable url') : Servable url := by
  obtain ⟨clean, cleaned, notScript⟩ := servable
  rw [Url.pathname, behind] at cleaned
  have plain := url'.path.plain
  rw [behind] at plain
  obtain ⟨short, cleaned', ⟨-, before, rfl⟩ | ⟨rfl, -⟩⟩ :=
    cleanPath_behind keeps url.path.nonempty plain cleaned
  · exact ⟨short, cleaned', by rwa [script_behind] at notScript⟩
  · exact ⟨[], cleaned', by decide⟩

/-- How one key reads as another: nothing but the place where the scope ends
can differ. -/
private theorem extra_last {route route' : RouteValue} {url url' : Url} {extra : List Text}
    (scope : keyScope route url = keyScope route' url' ++ extra) (some' : extra ≠ []) :
    ∃ front last, extra = front ++ [last] ∧ Mark last := by
  obtain ⟨before, last, shape, mark, -⟩ := keyScope_last route url
  refine ⟨extra.dropLast, last, ?_, mark⟩
  have ends : extra.getLast? = some last := by
    rw [← List.getLast?_append_of_ne_nil (keyScope route' url') some', ← scope, shape]
    simp
  exact (List.dropLast_append_getLast? last ends).symm

private theorem same_raw {route route' : RouteValue} {url url' : Url}
    (scope : keyScope route url = keyScope route' url') :
    isRawRequested url = isRawRequested url' := by
  obtain ⟨before, last, shape, -, raw⟩ := keyScope_last route url
  obtain ⟨before', last', shape', -, raw'⟩ := keyScope_last route' url'
  have same : last = last' := by
    rw [shape, shape'] at scope
    exact (List.append_inj' scope rfl).2 |> List.cons.inj |>.1
  exact Bool.eq_iff_iff.mpr (raw.symm.trans ((by rw [same]) : _ ↔ _) |>.trans raw')

private theorem manifestKey_injective {route route' : RouteValue}
    (same : manifestKey route = manifestKey route') :
    route.orgId = route'.orgId ∧ route.siteId = route'.siteId := by
  have parts (r : RouteValue) : (manifestKey r).splitOn '/' =
      "manifests".toList :: r.orgId.text :: r.siteId.text ::
        (r.versionId.text ++ ".json".toList).splitOn '/' := by
    have shape : manifestKey r = "manifests".toList ++ '/' :: (r.orgId.text ++
        '/' :: (r.siteId.text ++ '/' :: (r.versionId.text ++ ".json".toList))) := by
      unfold manifestKey
      simp
    rw [shape, List.splitOn_append_cons_self_of_not_mem (by decide),
      List.splitOn_append_cons_self_of_not_mem (uuid_mark _).plain.slash_free,
      List.splitOn_append_cons_self_of_not_mem (uuid_mark _).plain.slash_free]
  have split := congrArg (·.splitOn '/') same
  simp only [parts, List.cons.injEq, true_and] at split
  exact ⟨Uuid.ext split.1, Uuid.ext split.2.1⟩

private theorem same_answer {route route' : RouteValue} {url url' : Url} {extra : List Text}
    (version : route.versionId = route'.versionId)
    (scope : keyScope route url = keyScope route' url' ++ extra)
    (path : url'.path.segments = extra ++ url.path.segments)
    (clear : ¬ Shadows route route' url url') : SameAnswer route route' url url' := by
  intro rt pages bucket
  by_cases servable : Servable url
  · have unshifted : ¬ (extra = [] → ¬ (route.orgId = route'.orgId ∧ route.siteId = route'.siteId)) :=
      fun differs => clear ⟨servable, extra, scope, path, differs⟩
    obtain ⟨rfl, org, site⟩ := by simpa only [Classical.not_imp, not_not] using unshifted
    have pathname : url.pathname = url'.pathname := congrArg serialize path.symm
    have raw := same_raw (scope.trans (List.append_nil _))
    rw [resolveBlob_congr org site version pathname raw]
  · have unservable : ¬ Servable url' := by
      by_cases shifted : extra = []
      · have pathname : url'.pathname = url.pathname := by
          rw [Url.pathname, path, shifted]
          rfl
        unfold Servable at servable ⊢
        rwa [pathname]
      · obtain ⟨front, last, rfl, mark⟩ := extra_last scope shifted
        exact fun behind => servable (servable_front mark.keeps (by simpa using path) behind)
    rw [served_unservable rt pages bucket route servable,
      served_unservable rt pages bucket route' unservable]

private theorem other_answer {route route' : RouteValue} {url url' : Url}
    (shadows : Shadows route route' url url') : ¬ SameAnswer route route' url url' := by
  obtain ⟨⟨clean, cleaned, notScript⟩, extra, scope, path, differs⟩ := shadows
  intro same
  refine lone_served default route cleaned notScript ((same _ _ _).trans ?_)
  by_cases shifted : extra = []
  · exact lone_elsewhere default url' _ fun stored =>
      differs shifted (manifestKey_injective stored.symm)
  · obtain ⟨front, last, rfl, mark⟩ := extra_last scope shifted
    have behind : url'.path.segments = front ++ last :: url.path.segments := by simpa using path
    cases cleaned' : cleanPath url'.pathname with
    | none =>
      refine served_unservable _ _ _ route' fun servable => ?_
      obtain ⟨clean', found, -⟩ := servable
      rw [cleaned'] at found
      cases found
    | some clean' =>
      have plain := url'.path.plain
      rw [behind] at plain
      rw [Url.pathname, behind] at cleaned'
      have apart := behind_apart mark url.path.nonempty plain cleaned' cleaned
      rw [← behind] at cleaned'
      exact lone_unserved default route route' cleaned' apart

private theorem SameAnswer.symm {route route' : RouteValue} {url url' : Url}
    (same : SameAnswer route route' url url') : SameAnswer route' route url' url :=
  fun rt pages bucket => (same rt pages bucket).symm

private theorem Shadows.same_key {route route' : RouteValue} {url url' : Url}
    (origin : url.origin = url'.origin) (shadows : Shadows route route' url url') :
    cacheKey route url = cacheKey route' url' := by
  obtain ⟨-, extra, scope, path, -⟩ := shadows
  rw [CacheKey.same_key origin, scope, path, List.append_assoc]

/-- A shared key means a shared answer, exactly when neither request shadows
the other. -/
theorem shared_key_answers {route route' : RouteValue} {url url' : Url}
    (version : route.versionId = route'.versionId) (origin : url.origin = url'.origin) :
    (cacheKey route url = cacheKey route' url' → SameAnswer route route' url url') ↔
      ¬ Shadows route route' url url' ∧ ¬ Shadows route' route url' url := by
  constructor
  · intro sound
    refine ⟨fun shadows => ?_, fun shadows => ?_⟩
    · exact other_answer shadows (sound (shadows.same_key origin))
    · exact other_answer shadows (sound (shadows.same_key origin.symm).symm).symm
  · rintro ⟨clear, clear'⟩ key
    rcases List.append_eq_append_iff.mp ((same_key origin).mp key) with
      ⟨extra, scope, path⟩ | ⟨extra, scope, path⟩
    · exact (same_answer version.symm scope path clear').symm
    · exact same_answer version scope path clear

/-! ### Tiers that are one segment -/

private theorem mode_plain (mode : AccessMode) : Plain mode.text.toList := by
  cases mode <;> decide

private theorem keyScope_plain {route : RouteValue} (url : Url)
    (plain : Plain (route.planTier.getD "_".toList)) :
    keyScope route url = [route.accessMode.text.toList, route.versionId.text,
      route.planTier.getD "_".toList, chatSegment route] ++ rawSegment url := by
  have segments : ∀ s ∈ [route.accessMode.text.toList, route.versionId.text,
      route.planTier.getD "_".toList], Plain s := by
    intro s member
    simp only [List.mem_cons, List.not_mem_nil, or_false] at member
    rcases member with rfl | rfl | rfl
    · exact mode_plain route.accessMode
    · exact (uuid_mark route.versionId).plain
    · exact plain
  have base : keyBase route = serialize [route.accessMode.text.toList, route.versionId.text,
      route.planTier.getD "_".toList] := by
    simp [keyBase, serialize]
  rw [keyScope, base, separate_serialize (by simp) segments, foldl_advance_plain [] segments]
  rfl

/-- With tiers that are one segment, the only shift there can be is over `raw`:
the source of a page against the page in a directory of that name. -/
theorem shadows_by_raw {route : RouteValue} {url url' : Url}
    (plain : Plain (route.planTier.getD "_".toList)) :
    Shadows route route url url' ↔
      Servable url ∧ isRawRequested url ∧ ¬ isRawRequested url' ∧
        url'.path.segments = "raw".toList :: url.path.segments := by
  have scope := keyScope_plain url plain
  have scope' := keyScope_plain url' plain
  constructor
  · rintro ⟨servable, extra, shift, path, differs⟩
    rw [scope, scope', List.append_assoc, List.append_cancel_left_eq] at shift
    have some' : extra ≠ [] := fun blank => differs blank ⟨rfl, rfl⟩
    by_cases raw : isRawRequested url
    · by_cases raw' : isRawRequested url'
      · rw [rawSegment, rawSegment, if_pos raw, if_pos raw'] at shift
        exact absurd (List.self_eq_append_right.mp shift) some'
      · rw [rawSegment, rawSegment, if_pos raw, if_neg raw', List.nil_append] at shift
        exact ⟨servable, raw, raw', by rw [path, ← shift]; rfl⟩
    · rw [rawSegment, if_neg raw] at shift
      exact absurd (List.append_eq_nil_iff.mp shift.symm).2 some'
  · rintro ⟨servable, raw, raw', path⟩
    refine ⟨servable, ["raw".toList], ?_, path, by simp⟩
    simp [scope, scope', rawSegment, raw, raw']

def sampleId : Uuid := ⟨"00000000-0000-4000-8000-000000000000".toList, by decide⟩

def sampleRoute : RouteValue :=
  { orgId := sampleId, siteId := sampleId, versionId := sampleId, accessMode := .public,
    schemaVersion := 4, expiresAt := none, planTier := some "free".toList, chatId := none }

def sourceOfNotes : Url :=
  { host := "acme.example.com".toList, query := some "raw".toList,
    path := ⟨["notes.md".toList], by decide, by decide⟩ }

def notesBelowRaw : Url :=
  { host := "acme.example.com".toList, query := none,
    path := ⟨["raw".toList, "notes.md".toList], by decide, by decide⟩ }

theorem shared_key_answers_notes :
    (cacheKey sampleRoute sourceOfNotes = cacheKey sampleRoute notesBelowRaw →
        SameAnswer sampleRoute sampleRoute sourceOfNotes notesBelowRaw) ↔
      ¬ Shadows sampleRoute sampleRoute sourceOfNotes notesBelowRaw ∧
        ¬ Shadows sampleRoute sampleRoute notesBelowRaw sourceOfNotes :=
  shared_key_answers rfl rfl

/-- `/notes.md?raw` and `/raw/notes.md` are filed under one key. -/
theorem shared_key_other_answer :
    cacheKey sampleRoute sourceOfNotes = cacheKey sampleRoute notesBelowRaw ∧
      ¬ SameAnswer sampleRoute sampleRoute sourceOfNotes notesBelowRaw := by
  have shadows : Shadows sampleRoute sampleRoute sourceOfNotes notesBelowRaw :=
    (shadows_by_raw (by decide)).mpr ⟨⟨"notes.md".toList, by decide, by decide⟩, by decide,
      by decide, by decide⟩
  exact ⟨shadows.same_key rfl, other_answer shadows⟩

end Dropway.Proofs.CacheKey
