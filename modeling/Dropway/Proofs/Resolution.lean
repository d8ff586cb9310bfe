import Dropway.Proofs.RequestPath

/-! Which requests a version answers: the dependence of `resolveBlob` on its
arguments, and a version with a single file. -/

namespace Dropway.Proofs.Resolution
open Dropway.Lib Dropway.Lib.Uri Dropway.Edge RequestPath

/-- The bytes a request is answered with, and nothing for a 404. -/
def served : Except Thrown BlobResolution → Option ResolvedBlob
  | .ok (.ok blob) => some blob
  | _ => none

/-- A path that could be answered if the manifest had a file for it. -/
def Servable (url : Url) : Prop :=
  ∃ clean, cleanPath url.pathname = some clean ∧ ¬ isServiceWorkerScript clean

theorem served_unservable (rt : Runtime) (pages : Pages) (bucket : Bucket) (route : RouteValue)
    {url : Url} (unservable : ¬ Servable url) :
    served (resolveBlob rt pages bucket route url) = none := by
  cases cleaned : cleanPath url.pathname with
  | none => simp [resolveBlob, cleaned, served]
  | some clean =>
    have script : isServiceWorkerScript clean := by
      by_contra notScript
      exact unservable ⟨clean, cleaned, notScript⟩
    simp [resolveBlob, cleaned, script, served]

private theorem notFoundIn_congr {route route' : RouteValue} (org : route.orgId = route'.orgId)
    (pages : Pages) (bucket : Bucket) (manifest : Manifest) (reason : NotFoundReason) :
    notFoundIn pages bucket route manifest reason =
      notFoundIn pages bucket route' manifest reason := by
  unfold notFoundIn
  rw [org]

private theorem serveEntry_congr {route route' : RouteValue} {url url' : Url}
    (org : route.orgId = route'.orgId) (raw : isRawRequested url = isRawRequested url')
    (pages : Pages) (bucket : Bucket) (manifest : Manifest) (path : Text) (slot : Slot) :
    serveEntry pages route url bucket manifest path slot =
      serveEntry pages route' url' bucket manifest path slot := by
  unfold serveEntry
  rw [org, raw, notFoundIn_congr org]

theorem manifestKey_congr {route route' : RouteValue} (org : route.orgId = route'.orgId)
    (site : route.siteId = route'.siteId) (version : route.versionId = route'.versionId) :
    manifestKey route = manifestKey route' := by
  unfold manifestKey
  rw [org, site, version]

/-- An answer depends on where the version is stored, the path, and whether the
raw source is wanted. -/
theorem resolveBlob_congr {route route' : RouteValue} {url url' : Url}
    (org : route.orgId = route'.orgId) (site : route.siteId = route'.siteId)
    (version : route.versionId = route'.versionId) (path : url.pathname = url'.pathname)
    (raw : isRawRequested url = isRawRequested url') (rt : Runtime) (pages : Pages)
    (bucket : Bucket) :
    resolveBlob rt pages bucket route url = resolveBlob rt pages bucket route' url' := by
  have entry := serveEntry_congr org raw pages bucket
  have missing := notFoundIn_congr org pages bucket
  simp only [resolveBlob, loadManifest, manifestKey_congr org site version, path, entry, missing]

private theorem serveEntry_found {pages : Pages} {route : RouteValue} {url : Url} {bucket : Bucket}
    {slot : Slot} {object : R2Object} (manifest : Manifest) (path : Text)
    (found : bucket (blobKey route.orgId slot.sha256) = some object) :
    served (.ok (serveEntry pages route url bucket manifest path slot)) ≠ none := by
  unfold serveEntry
  rw [found]
  dsimp only
  split <;> simp [served]

private theorem serveEntry_missing {pages : Pages} {route : RouteValue} {url : Url}
    {bucket : Bucket} {slot : Slot} (manifest : Manifest) (path : Text)
    (missing : bucket (blobKey route.orgId slot.sha256) = none) :
    served (.ok (serveEntry pages route url bucket manifest path slot)) = none := by
  unfold serveEntry
  rw [missing]
  rfl

/-! ### Candidates of a cleaned path -/

theorem candidate_slashes {clean candidate : Text} (member : candidate ∈ candidatePaths clean) :
    clean.count '/' ≤ candidate.count '/' := by
  unfold candidatePaths at member
  split_ifs at member
  · rw [List.mem_singleton] at member
    subst member
    exact (List.prefix_append _ _).sublist.count_le '/'
  · rw [List.mem_singleton] at member
    rw [member]
  · simp only [List.mem_cons, List.not_mem_nil, or_false] at member
    rcases member with rfl | rfl | rfl
    · exact Nat.le_refl _
    · exact (List.prefix_append _ _).sublist.count_le '/'
    · exact (List.prefix_append _ _).sublist.count_le '/'

theorem directoryPrefix_slashes (clean : Text) :
    clean.count '/' ≤ (directoryPrefix clean).count '/' := by
  unfold directoryPrefix
  split_ifs
  · exact Nat.le_refl _
  · exact (List.prefix_append _ _).sublist.count_le '/'

/-- The file a cleaned path names first. -/
def firstCandidate (clean : Text) : Text :=
  if clean = [] ∨ clean.getLast? = some '/' then clean ++ "index.html".toList else clean

theorem candidatePaths_first (clean : Text) :
    ∃ others, candidatePaths clean = firstCandidate clean :: others := by
  unfold candidatePaths firstCandidate
  split_ifs
  · exact ⟨_, rfl⟩
  · exact ⟨_, rfl⟩
  · exact ⟨_, rfl⟩

theorem firstCandidate_slashes (clean : Text) :
    (firstCandidate clean).count '/' = clean.count '/' := by
  unfold firstCandidate
  split_ifs
  · rw [List.count_append]; rfl
  · rfl

/-- A path that neither names the file nor lists a directory with it. -/
structure Apart (file clean : Text) : Prop where
  candidate : file ∉ candidatePaths clean
  listing : ¬ directoryPrefix clean <+: file

theorem apart_of_slashes {file clean : Text} (more : file.count '/' < clean.count '/') :
    Apart file clean where
  candidate := fun member => by
    have := candidate_slashes member
    omega
  listing := fun before => by
    have := directoryPrefix_slashes clean
    have := before.sublist.count_le '/'
    omega

/-! ### A version with one file -/

def loneEntry : ManifestEntry :=
  { sha256 := List.replicate 64 '0', contentType := "text/plain", size := none }

def loneFiles (file : Text) : Files := Files.set {} file loneEntry

def loneJson (file : Text) : Json :=
  .obj [("schema_version", .num 1),
    ("files", .obj [(String.ofList file,
      .obj [("sha256", .str (String.ofList loneEntry.sha256)), ("content_type", .str "text/plain")])])]

/-- A runtime that reads every object as the manifest of that file. -/
def loneRuntime (file : Text) : Runtime where
  jsonParse := fun _ => some (loneJson file)
  dateParse := fun _ => none
  localeLe := fun _ _ => true
  urlParse := fun _ => none

def emptyObject : R2Object :=
  { body := some [], httpEtag := none, uploaded := none, size := none, hasJson := true }

def loneBucket (route : RouteValue) : Bucket := fun key =>
  if key = manifestKey route ∨ key = blobKey route.orgId loneEntry.sha256 then some emptyObject
  else none

private theorem bucket_at {route : RouteValue} {key : Text}
    (stored : key = manifestKey route ∨ key = blobKey route.orgId loneEntry.sha256) :
    loneBucket route key = some emptyObject := if_pos stored

private theorem bucket_away {route : RouteValue} {key : Text}
    (away : ¬ (key = manifestKey route ∨ key = blobKey route.orgId loneEntry.sha256)) :
    loneBucket route key = none := if_neg away

theorem loneJson_parses (file : Text) :
    parseManifest (loneJson file) = some { schemaVersion := 1, files := loneFiles file } := by
  have entry : parseEntry (.obj [("sha256", .str (String.ofList loneEntry.sha256)),
      ("content_type", .str "text/plain")]) = some loneEntry := by decide
  simp [loneJson, parseManifest, Json.member, supportedManifestSchemaVersion, parseFiles, entry,
    loneFiles]

private theorem lone_loads (file : Text) {bucket : Bucket} {route : RouteValue}
    (stored : bucket (manifestKey route) = some emptyObject) :
    loadManifest (loneRuntime file) bucket route =
      .ok (some { schemaVersion := 1, files := loneFiles file }) := by
  have read : emptyObject.readJson (loneRuntime file) = .ok (loneJson file) := rfl
  rw [loadManifest, stored]
  dsimp only
  rw [read, Except.map, loneJson_parses]

theorem loneFiles_get (file path : Text) :
    ((loneFiles file).get path = some (.entry loneEntry) ∧ path = file) ∨
      (path ≠ file ∧ ((loneFiles file).get path = none ∨
        (loneFiles file).get path = some .inherited)) := by
  by_cases magic : file = "__proto__".toList
  · have files : loneFiles file = { own := [], proto := some loneEntry } := if_pos magic
    by_cases same : path = file
    · refine .inl ⟨?_, same⟩
      rw [files]
      exact if_pos (same.trans magic)
    · have notMagic : path ≠ "__proto__".toList := fun h => same (h.trans magic.symm)
      refine .inr ⟨same, ?_⟩
      simp only [files, Files.get, List.find?_nil, if_neg notMagic]
      split
      · exact .inr rfl
      · exact .inl rfl
  · have files : loneFiles file = { own := [(file, loneEntry)], proto := none } := if_neg magic
    by_cases same : path = file
    · refine .inl ⟨?_, same⟩
      simp only [files, Files.get, List.find?_cons, same, decide_true]
    · refine .inr ⟨same, ?_⟩
      simp only [files, Files.get, List.find?_cons, Ne.symm same, decide_false, List.find?_nil]
      split
      · exact .inr rfl
      · exact .inl rfl

private theorem blob_not_manifest (org : Uuid) (sha256 : Text) (route : RouteValue) :
    blobKey org sha256 ≠ manifestKey route := by
  have first : (blobKey org sha256).head? = some 'b' := by
    unfold blobKey
    rw [List.append_assoc, List.append_assoc]
    rfl
  have first' : (manifestKey route).head? = some 'm' := by
    unfold manifestKey
    simp only [List.append_assoc]
    rfl
  intro same
  rw [same, first'] at first
  exact absurd first (by decide)

theorem lone_served (pages : Pages) (route : RouteValue) {url : Url} {clean : Text}
    (cleaned : cleanPath url.pathname = some clean) (notScript : ¬ isServiceWorkerScript clean) :
    served (resolveBlob (loneRuntime (firstCandidate clean)) pages (loneBucket route) route url) ≠
      none := by
  obtain ⟨others, candidates⟩ := candidatePaths_first clean
  have found : (loneFiles (firstCandidate clean)).get (firstCandidate clean) =
      some (.entry loneEntry) := by
    rcases loneFiles_get (firstCandidate clean) (firstCandidate clean) with ⟨found, -⟩ | ⟨no, -⟩
    · exact found
    · exact absurd rfl no
  have stored : loneBucket route (manifestKey route) = some emptyObject := bucket_at (.inl rfl)
  have manifest := lone_loads (firstCandidate clean) stored
  have blob : loneBucket route (blobKey route.orgId (Slot.entry loneEntry).sha256) =
      some emptyObject := bucket_at (.inr rfl)
  simp only [resolveBlob, cleaned, if_neg notScript, manifest, resolveManifestEntry, candidates,
    List.findSome?_cons, found, Option.map_some]
  exact serveEntry_found _ _ blob

private theorem lone_resolves {file clean : Text} (apart : file ∉ candidatePaths clean) :
    resolveManifestEntry { schemaVersion := 1, files := loneFiles file } clean = none ∨
      ∃ path, resolveManifestEntry { schemaVersion := 1, files := loneFiles file } clean =
        some (path, .inherited) := by
  unfold resolveManifestEntry
  generalize candidatePaths clean = candidates at apart ⊢
  induction candidates with
  | nil => exact .inl rfl
  | cons candidate others ih =>
    have here : candidate ≠ file := fun same => apart (by simp [same])
    have later : file ∉ others := fun member => apart (List.mem_cons_of_mem candidate member)
    rcases loneFiles_get file candidate with ⟨-, same⟩ | ⟨-, missing | inherited⟩
    · exact absurd same here
    · simpa only [List.findSome?_cons, missing, Option.map_none] using ih later
    · exact .inr ⟨candidate, by simp only [List.findSome?_cons, inherited, Option.map_some]⟩

private theorem lone_unlisted (rt : Runtime) {file dirPrefix : Text}
    (outside : ¬ dirPrefix <+: file) :
    listDirectory rt { schemaVersion := 1, files := loneFiles file } dirPrefix = none := by
  have empty : ∀ entry ∈ (loneFiles file).own, below dirPrefix entry.1 = none := by
    intro entry member
    have named : entry.1 = file := by
      by_cases magic : file = "__proto__".toList
      · have files : loneFiles file = { own := [], proto := some loneEntry } := if_pos magic
        rw [files] at member
        cases member
      · have files : loneFiles file = { own := [(file, loneEntry)], proto := none } := if_neg magic
        rw [files, List.mem_singleton] at member
        rw [member]
    rw [named, below, if_neg]
    exact fun within => outside (List.isPrefixOf_iff_prefix.mp within.1)
  have children : (loneFiles file).own.filterMap (childOf dirPrefix) = [] :=
    List.filterMap_eq_nil_iff.mpr fun entry member => childOf_outside (empty entry member)
  simp only [listDirectory, children]
  rfl

private theorem blobKey_last (org : Uuid) {sha256 : Text} (nonempty : sha256 ≠ []) :
    (blobKey org sha256).getLast? = sha256.getLast? := by
  unfold blobKey
  exact List.getLast?_append_of_ne_nil _ nonempty

private theorem lone_blob_missing (route : RouteValue) (org : Uuid) :
    loneBucket route (blobKey org Slot.inherited.sha256) = none := by
  refine bucket_away ?_
  rintro (same | same)
  · exact blob_not_manifest _ _ route same
  · have last := congrArg List.getLast? same
    rw [blobKey_last org (by decide), blobKey_last route.orgId (by decide)] at last
    exact absurd last (by decide)

theorem lone_elsewhere (pages : Pages) {route route' : RouteValue} (url : Url) (file : Text)
    (elsewhere : manifestKey route' ≠ manifestKey route) :
    served (resolveBlob (loneRuntime file) pages (loneBucket route) route' url) = none := by
  have away : loneBucket route (manifestKey route') = none := bucket_away fun stored =>
    stored.elim elsewhere fun same => blob_not_manifest _ _ route' same.symm
  have manifest : loadManifest (loneRuntime file) (loneBucket route) route' = .ok none := by
    rw [loadManifest, away]
  cases cleaned : cleanPath url.pathname with
  | none => simp only [resolveBlob, cleaned, served]
  | some clean =>
    by_cases script : isServiceWorkerScript clean
    · simp only [resolveBlob, cleaned, if_pos script, served]
    · simp only [resolveBlob, cleaned, if_neg script, manifest, served]

/-- No route answers a path apart from the file: an inherited name has no blob,
and there is nothing to list. -/
theorem lone_unserved (pages : Pages) (route route' : RouteValue) {url : Url} {file clean : Text}
    (cleaned : cleanPath url.pathname = some clean) (apart : Apart file clean) :
    served (resolveBlob (loneRuntime file) pages (loneBucket route) route' url) = none := by
  by_cases script : isServiceWorkerScript clean
  · simp only [resolveBlob, cleaned, if_pos script, served]
  by_cases stored : manifestKey route' = manifestKey route
  · have manifest := lone_loads file (bucket_at (.inl stored))
    rcases lone_resolves apart.candidate with missing | ⟨path, inherited⟩
    · simp only [resolveBlob, cleaned, if_neg script, manifest, missing, directoryListing,
        lone_unlisted _ apart.listing, Option.map_none, Option.getD_none, ite_self, served]
    · simp only [resolveBlob, cleaned, if_neg script, manifest, inherited]
      exact serveEntry_missing _ _ (lone_blob_missing route route'.orgId)
  · exact lone_elsewhere pages url file stored

end Dropway.Proofs.Resolution
