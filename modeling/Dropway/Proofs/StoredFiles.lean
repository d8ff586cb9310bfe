import Dropway.Api.StoredManifest
import Dropway.Lib.JsonNumber
import Dropway.Proofs.ServeAgreement
import Dropway.Proofs.VersionContent

/-! The manifest that a finalize stores, and what the Worker and the Go server make of
it. Both refuse it for one file without a content type, and else have every file at its
path. -/

namespace Dropway.Api
open Lib
open Projection (member)

variable {path : Text} {target : ManifestTarget} {files : List (Text × ManifestTarget)}
  {entry file : Text × ManifestTarget} {manifest : List ManifestFile}

/-- What a manifest has of a file. -/
def ManifestFile.stored (file : ManifestFile) : ManifestTarget :=
  ⟨file.sha256, file.contentType, file.size.toNat⟩

/-- Of the files that are sent under one path, the last counts. -/
def LastOfPath (manifest : List ManifestFile) (file : ManifestFile) : Prop :=
  lastWith ManifestFile.path file.path manifest = some file

def ByPath (files : List (Text × ManifestTarget)) : Prop := files.Pairwise fun one two => one.1 < two.1

private theorem mem_putFile_iff (sorted : ByPath files) :
    entry ∈ putFile path target files ↔ entry = (path, target) ∨ (entry ∈ files ∧ entry.1 ≠ path) := by
  induction files with
  | nil => simp [putFile]
  | cons first rest ih =>
    obtain ⟨below, later⟩ := List.pairwise_cons.mp sorted
    rw [putFile]
    split
    · rename_i same
      subst same
      have apart (mem : entry ∈ rest) : entry.1 ≠ first.1 := (below entry mem).ne'
      rw [List.mem_cons, List.mem_cons]
      constructor
      · rintro (rfl | mem)
        · exact .inl rfl
        · exact .inr ⟨.inr mem, apart mem⟩
      · rintro (rfl | ⟨rfl | mem, other⟩)
        · exact .inl rfl
        · exact absurd rfl other
        · exact .inr mem
    split
    · rename_i differs before
      have apart (mem : entry ∈ first :: rest) : entry.1 ≠ path := by
        rcases List.mem_cons.mp mem with rfl | mem
        · exact before.ne'
        · exact (before.trans (below entry mem)).ne'
      rw [List.mem_cons]
      exact or_congr_right (iff_self_and.mpr apart)
    · rename_i differs behind
      rw [List.mem_cons, ih later, List.mem_cons]
      constructor
      · rintro (rfl | rfl | ⟨mem, other⟩)
        · exact .inr ⟨.inl rfl, Ne.symm differs⟩
        · exact .inl rfl
        · exact .inr ⟨.inr mem, other⟩
      · rintro (rfl | ⟨rfl | mem, other⟩)
        · exact .inr (.inl rfl)
        · exact .inl rfl
        · exact .inr (.inr ⟨mem, other⟩)

private theorem putFile_byPath (sorted : ByPath files) : ByPath (putFile path target files) := by
  induction files with
  | nil => exact List.pairwise_singleton _ _
  | cons first rest ih =>
    obtain ⟨below, later⟩ := List.pairwise_cons.mp sorted
    rw [putFile]
    split
    · rename_i same
      exact List.pairwise_cons.mpr ⟨fun entry mem => same ▸ below entry mem, later⟩
    split
    · rename_i differs before
      refine List.pairwise_cons.mpr ⟨fun entry mem => ?_, sorted⟩
      rcases List.mem_cons.mp mem with rfl | mem
      · exact before
      · exact before.trans (below entry mem)
    · rename_i differs behind
      refine List.pairwise_cons.mpr ⟨fun entry mem => ?_, ih later⟩
      rcases (mem_putFile_iff later).mp mem with rfl | ⟨mem, -⟩
      · exact lt_of_le_of_ne (not_lt.mp behind) (Ne.symm differs)
      · exact below entry mem


theorem filesOf_byPath (manifest : List ManifestFile) : ByPath (filesOf manifest) := by
  induction manifest using List.reverseRecOn with
  | nil => exact .nil
  | append_singleton done file ih =>
    rw [filesOf_append]
    exact putFile_byPath ih

theorem lastOfPath_concat {done : List ManifestFile} {file sent : ManifestFile} :
    LastOfPath (done ++ [file]) sent ↔ sent = file ∨ (LastOfPath done sent ∧ sent.path ≠ file.path) := by
  rw [LastOfPath, LastOfPath, lastWith_append, lastWith_cons]
  by_cases same : file.path = sent.path
  · rw [if_pos same]
    constructor
    · intro found
      exact .inl (Option.some.inj found).symm
    · rintro (rfl | ⟨-, other⟩)
      · rfl
      · exact absurd same.symm other
  · rw [if_neg same]
    constructor
    · intro found
      exact .inr ⟨found, Ne.symm same⟩
    · rintro (rfl | ⟨found, -⟩)
      · exact absurd rfl same
      · exact found

/-- A manifest has the last file of every path. -/
theorem mem_filesOf : entry ∈ filesOf manifest ↔
    ∃ file, LastOfPath manifest file ∧ entry = (file.path, file.stored) := by
  induction manifest using List.reverseRecOn with
  | nil => exact ⟨fun mem => (by cases mem), fun ⟨_, last, _⟩ => (by cases last)⟩
  | append_singleton done file ih =>
    rw [filesOf_append, mem_putFile_iff (filesOf_byPath done), ih]
    simp only [lastOfPath_concat]
    constructor
    · rintro (rfl | ⟨⟨sent, last, rfl⟩, other⟩)
      · exact ⟨file, .inl rfl, rfl⟩
      · exact ⟨sent, .inr ⟨last, other⟩, rfl⟩
    · rintro ⟨sent, rfl | ⟨last, other⟩, rfl⟩
      · exact .inl rfl
      · exact .inr ⟨⟨sent, last, rfl⟩, other⟩

/-! ### A finalize -/

variable {hash : Sha256} {quota : StorageQuota} {r : FinalizeRequest} {position later : Finalizing}

/-- A step of a finalize, whatever the others have made of the org's storage. -/
def Finalizing.Step (hash : Sha256) (quota : StorageQuota) (position later : Finalizing) : Prop :=
  ∃ input org effect, position.next hash quota input org = some (effect, later)

/-- The request is answered with its version, and `files` is what it put in the manifest. -/
def Answered (hash : Sha256) (quota : StorageQuota) (r : FinalizeRequest) (files : List (Text × ManifestTarget)) : Prop :=
  ∃ version, Relation.ReflTransGen (Finalizing.Step hash quota) (.verifyManifest r) (.putManifest files version) ∧
    Finalizing.Step hash quota (.putManifest files version) (.createPreview version) ∧
    Relation.ReflTransGen (Finalizing.Step hash quota) (.createPreview version) (.finalized version)

/-- What verifyManifest has let pass. -/
def ManifestFile.Verified (file : ManifestFile) : Prop := validSHA256 file.sha256 = true ∧ 0 ≤ file.size

/-- What a finalize of `r` has verified so far. -/
private def Finalizing.Checked (r : FinalizeRequest) : Finalizing → Prop
  | .verifyManifest asked => asked = r
  | .verifyFiles asked rest verified => asked = r ∧ ∃ done, r.manifest = done ++ rest ∧
      verified.files = filesOf done ∧ ∀ file ∈ done, file.Verified
  | .create files _ => files = filesOf r.manifest ∧ ∀ file ∈ r.manifest, file.Verified
  | .putManifest files _ => files = filesOf r.manifest ∧ ∀ file ∈ r.manifest, file.Verified
  | _ => True

private theorem checked_step (checked : position.Checked r) (step : Finalizing.Step hash quota position later) :
    later.Checked r := by
  obtain ⟨input, org, effect, ran⟩ := step
  cases position with
  | verifyManifest asked =>
    obtain rfl := checked
    simp only [Finalizing.next] at ran
    split at ran
    · cases ran
      trivial
    split at ran
    · cases ran
      trivial
    split at ran
    · cases ran
      trivial
    · cases ran
      exact ⟨rfl, [], rfl, rfl, fun file mem => (by cases mem)⟩
  | verifyFiles asked rest verified =>
    obtain ⟨rfl, done, split', files, passed⟩ := checked
    cases rest with
    | nil =>
      cases ran
      rw [List.append_nil] at split'
      subst split'
      exact ⟨files, passed⟩
    | cons file rest =>
      simp only [Finalizing.next] at ran
      split at ran
      · cases ran
        trivial
      split at ran
      · rename_i added ok
        cases ran
        obtain ⟨valid, observed, size, -, same⟩ := Verified.add_ok ok
        refine ⟨rfl, done ++ [file], ?_, ?_, ?_⟩
        · rw [split', List.append_assoc, List.singleton_append]
        · rw [same, filesOf_append, files, size, Int.toNat_natCast]
        · intro sent mem
          rcases List.mem_append.mp mem with mem | mem
          · exact passed sent mem
          · rw [List.mem_singleton.mp mem]
            exact ⟨valid, size ▸ Int.natCast_nonneg observed⟩
      · cases ran
        trivial
  | create files creating =>
    rcases Finalizing.next_create ran with ⟨p, version, rfl, rfl, rfl⟩ | ⟨error, rfl, rfl, rfl⟩ | ⟨later, step, rfl⟩
    · exact checked
    · trivial
    · exact checked
  | putManifest files version =>
    simp only [Finalizing.next] at ran
    split at ran
    · cases ran
      trivial
    · cases ran
      trivial
  | createPreview version =>
    simp only [Finalizing.next] at ran
    split at ran
    · cases ran
      trivial
    · cases ran
      trivial
  | previewCommit version =>
    cases ran
    trivial
  | finalized version => cases ran
  | refused error => cases ran

/-- A finalize that is answered has put the files of its request, all of them verified. -/
theorem Answered.checked (answered : Answered hash quota r files) :
    files = filesOf r.manifest ∧ ∀ file ∈ r.manifest, file.Verified := by
  obtain ⟨version, reached, -, -⟩ := answered
  have kept : ∀ position, Relation.ReflTransGen (Finalizing.Step hash quota) (.verifyManifest r) position →
      position.Checked r := by
    intro position reached
    induction reached with
    | refl => rfl
    | tail _ step ih => exact checked_step ih step
  exact kept _ reached

/-! ### The text -/

theorem legible_chars (text : Text) : (text.map Glyph.char).map Glyph.legible = text.map .char := by
  rw [List.map_map]
  rfl

private theorem target_legible (target : ManifestTarget) : target.doc.legible = target.doc := by
  rw [ManifestTarget.doc, Doc.legible, Doc.legibleMembers_eq_map]
  split
  · simp only [textMember, member, List.nil_append, List.cons_append, List.map_cons, List.map_nil, Doc.legible,
      legible_chars]
  · simp only [textMember, member, List.nil_append, List.cons_append, List.map_cons, List.map_nil, Doc.legible,
      legible_chars]

private theorem storedDoc_legible (files : List (Text × ManifestTarget)) :
    (storedDoc files).legible = storedDoc files := by
  have each : (files.map fileMember).map (fun member => (member.1.map Glyph.legible, member.2.legible)) =
      files.map fileMember := by
    rw [List.map_map]
    refine List.map_congr_left fun file _ => ?_
    simp only [Function.comp_apply, fileMember, legible_chars, target_legible]
  rw [storedDoc, Doc.legible, Doc.legibleMembers_eq_map]
  simp only [member, List.map_cons, List.map_nil, Doc.legible, legible_chars, Doc.legibleMembers_eq_map, each]

private theorem target_proper (target : ManifestTarget) : target.doc.Proper := by
  refine Doc.properMembers_iff.mpr fun field mem => ?_
  rw [List.mem_append, List.mem_cons, List.mem_singleton] at mem
  rcases mem with (rfl | mem) | rfl
  · exact ⟨whole_chars _, whole_chars _⟩
  · split at mem
    · cases mem
    · rw [List.mem_singleton.mp mem]
      exact ⟨whole_chars _, whole_chars _⟩
  · exact ⟨whole_chars _, target.size, rfl⟩

private theorem storedDoc_proper (files : List (Text × ManifestTarget)) : (storedDoc files).Proper := by
  refine Doc.properMembers_iff.mpr fun field mem => ?_
  rw [List.mem_cons, List.mem_singleton] at mem
  rcases mem with rfl | rfl
  · exact ⟨whole_chars _, 1, rfl⟩
  · refine ⟨whole_chars _, Doc.properMembers_iff.mpr fun field mem => ?_⟩
    obtain ⟨file, -, rfl⟩ := List.mem_map.mp mem
    exact ⟨whole_chars _, target_proper file.2⟩

/-! ### The Worker -/

/-- A target as the Worker has it. -/
def ManifestTarget.onWorker (target : ManifestTarget) : Edge.ManifestEntry where
  sha256 := target.sha256
  contentType := String.ofList target.contentType
  size := JsonText.nearestDouble target.size

/-- The members of a target under their names. -/
private def targetFields (target : ManifestTarget) : List (String × Doc) :=
  ("sha256", .str (target.sha256.map .char)) ::
    (if target.contentType = [] then [] else [("content_type", .str (target.contentType.map .char))]) ++
    [("size", .num (JsonText.decimal target.size))]

private theorem target_value (target : ManifestTarget) :
    target.doc.value = .obj ((targetFields target).map fun field => (field.1, field.2.value)) := by
  have fields : target.doc = .obj ((targetFields target).map fun field => (field.1.toList.map .char, field.2)) := by
    rw [ManifestTarget.doc, targetFields]
    split
    · rfl
    · rfl
  have distinct : ((targetFields target).map (·.1)).Nodup := by
    rw [targetFields]
    split
    · simp
    · simp
  have built := Doc.assignAll_distinct [] (by simpa using distinct)
  rw [fields, Doc.value, built, List.nil_append]

private theorem validSHA256_worker {sha : Text} (valid : validSHA256 sha = true) : Edge.isSha256 sha = true := by
  simpa [validSHA256, Edge.isSha256, isHexDigit] using valid

/-- The Worker takes a target that has a content type. -/
private theorem parseEntry_worker (valid : validSHA256 target.sha256 = true) :
    Edge.parseEntry target.doc.value = if target.contentType = [] then none else some target.onWorker := by
  rw [target_value]
  by_cases untyped : target.contentType = []
  · simp [targetFields, untyped, Edge.parseEntry, Json.member, Doc.value]
  · have sha := validSHA256_worker valid
    have kept : String.ofList target.contentType ≠ "" := by
      intro blank
      exact untyped (by simpa using congrArg String.toList blank)
    have size : Edge.entrySize (some (((JsonText.nearestDouble target.size).map Json.num).getD .null)) =
        JsonText.nearestDouble target.size := by
      cases near : JsonText.nearestDouble target.size with
      | none => rfl
      | some q => exact if_pos (JsonText.nearestDouble_nonneg near)
    simp [targetFields, untyped, Edge.parseEntry, Json.member, Doc.value, JsonText.literalValue_decimal, sha, kept, size,
      ManifestTarget.onWorker]

private theorem ByPath.paths_distinct (sorted : ByPath files) : (files.map (·.1)).Nodup :=
  List.pairwise_map.mpr (sorted.imp fun before => before.ne)

private theorem names_distinct (sorted : ByPath files) :
    ((files.map fileMember).map fun member => jsName member.1).Nodup := by
  have names : (files.map fileMember).map (fun member => jsName member.1) = (files.map (·.1)).map (·.map Glyph.char) := by
    rw [List.map_map, List.map_map]
    exact List.map_congr_left fun file _ => legible_chars file.1
  rw [names]
  exact sorted.paths_distinct.map (List.map_injective_iff.mpr fun one two same => Glyph.char.inj same)

private theorem assigned_iff {α β σ : Type} {read : α → Option β} {assign : σ → α → β → σ} {members : List α}
    (start : σ) : (members.foldlM (fun state member => (read member).map (assign state member)) start).isSome ↔
      ∀ member ∈ members, (read member).isSome := by
  induction members generalizing start with
  | nil => exact iff_of_true rfl fun member mem => (by cases mem)
  | cons member rest ih =>
    rw [List.foldlM_cons, List.forall_mem_cons]
    cases here : read member with
    | none => exact iff_of_false Bool.false_ne_true fun both => Bool.false_ne_true both.1
    | some value =>
      rw [Option.map_some, Option.bind_eq_bind, Option.bind_some, ih]
      exact (and_iff_right rfl).symm

private theorem workerManifest (files : List (Text × ManifestTarget)) :
    Edge.readManifest (storedManifest files) =
      (Edge.parseRawFiles (files.map fileMember)).map fun files => ⟨Edge.supportedManifestSchemaVersion, files⟩ := by
  have version : JsonText.nearestDouble (JsonText.literalValue (JsonText.decimal manifestSchemaVersion)) =
      some Edge.supportedManifestSchemaVersion := by
    rw [JsonText.literalValue_decimal]
    exact JsonText.nearestDouble_natCast (by decide)
  rw [Edge.readManifest, storedManifest, Utf8.decode_encode, JsonText.parse_write (storedDoc_proper files),
    storedDoc_legible, Option.bind_some, storedDoc, Edge.parseManifestText]
  generalize members : [member "schema_version" _, member "files" _] = fields
  have numbered : Doc.own fields "schema_version".toList = some (.num (JsonText.decimal manifestSchemaVersion)) :=
    members ▸ rfl
  have listed : Edge.rawFiles fields = some (files.map fileMember) := members ▸ rfl
  simp only [numbered, listed, Option.bind_eq_bind, Option.bind_some, version, ne_eq, not_true_eq_false, if_false]
  cases Edge.parseRawFiles (files.map fileMember) with
  | none => rfl
  | some parsed => rfl

/-- The Worker reads a manifest where every file has a content type. -/
theorem worker_reads (sorted : ByPath files) (valid : ∀ file ∈ files, validSHA256 file.2.sha256 = true) :
    (Edge.readManifest (storedManifest files)).isSome ↔ ∀ file ∈ files, file.2.contentType ≠ [] := by
  rw [workerManifest, Option.isSome_map, Edge.parseRawFiles, lastOfEach_distinct (names_distinct sorted), assigned_iff,
    List.forall_mem_map]
  refine forall₂_congr fun file mem => ?_
  rw [fileMember, parseEntry_worker (valid file mem)]
  split
  · exact iff_of_false Bool.false_ne_true (not_not.mpr ‹_›)
  · exact iff_of_true rfl ‹_›

/-- And has every file at its path. -/
theorem worker_gets {worker : Edge.Manifest} (sorted : ByPath files)
    (valid : validSHA256 file.2.sha256 = true) (typed : file.2.contentType ≠ [])
    (reads : Edge.readManifest (storedManifest files) = some worker) (mem : file ∈ files) :
    worker.files.get file.1 = some (.entry file.2.onWorker) := by
  have parsed : Edge.parseManifestText (storedDoc files) = some worker := by
    rwa [Edge.readManifest, storedManifest, Utf8.decode_encode, JsonText.parse_write (storedDoc_proper files),
      storedDoc_legible, Option.bind_some] at reads
  obtain ⟨clean, looked⟩ := Edge.manifest_lookup parsed
  refine Edge.Files.get_assigned clean ?_
  have named : Edge.fileNamed (storedDoc files) file.1 = some file.2.doc := by
    have listed : Edge.fileNamed (storedDoc files) file.1 = Doc.own (files.map fileMember) file.1 := rfl
    have last : lastWith (fun member => jsName member.1) (file.1.map Glyph.char) (files.map fileMember) =
        some (fileMember file) :=
      (lastWith_distinct (names_distinct sorted)).mpr ⟨List.mem_map_of_mem mem, legible_chars file.1⟩
    rw [listed, Doc.own, last]
    rfl
  rw [(looked file.1).1, named, Option.bind_some, parseEntry_worker valid, if_neg typed]

/-- It has no other files; what is sent as `__proto__` is none. -/
theorem worker_has {worker : Edge.Manifest} (reads : Edge.readManifest (storedManifest files) = some worker)
    (ordinary : path ≠ Edge.protoName) :
    (∃ entry, (path, entry) ∈ worker.files.own) ↔ ∃ target, (path, target) ∈ files := by
  have parsed : Edge.parseManifestText (storedDoc files) = some worker := by
    rwa [Edge.readManifest, storedManifest, Utf8.decode_encode, JsonText.parse_write (storedDoc_proper files),
      storedDoc_legible, Option.bind_some] at reads
  obtain ⟨-, looked⟩ := Edge.manifest_lookup parsed
  have own : (worker.files.lookup path).isSome ↔ ∃ entry, (path, entry) ∈ worker.files.own := by
    rw [Edge.Files.lookup, if_neg ordinary, Option.isSome_map, List.find?_isSome]
    constructor
    · rintro ⟨⟨key, entry⟩, mem, same⟩
      have equal : key = path := of_decide_eq_true same
      exact ⟨entry, equal ▸ mem⟩
    · rintro ⟨entry, mem⟩
      exact ⟨_, mem, decide_eq_true rfl⟩
  have named : (Edge.fileNamed (storedDoc files) path).isSome ↔ ∃ target, (path, target) ∈ files := by
    have listed : Edge.fileNamed (storedDoc files) path = Doc.own (files.map fileMember) path := rfl
    rw [listed, Doc.own, Option.isSome_map, lastWith_isSome]
    constructor
    · rintro ⟨item, mem, same⟩
      obtain ⟨⟨key, target⟩, sent, rfl⟩ := List.mem_map.mp mem
      have equal : key.map Glyph.char = path.map Glyph.char := (legible_chars key).symm.trans same
      have path' : key = path := List.map_injective_iff.mpr (fun one two same => Glyph.char.inj same) equal
      exact ⟨target, path' ▸ sent⟩
    · rintro ⟨target, mem⟩
      exact ⟨_, List.mem_map_of_mem mem, legible_chars path⟩
  rw [← own, ← named]
  constructor
  · intro found
    rw [(looked path).1] at found
    obtain ⟨raw, some', -⟩ := Option.bind_eq_some_iff.mp (Option.some_get found).symm
    exact some' ▸ rfl
  · exact (looked path).2

/-! ### The Go server -/

/-- A target as the Go server has it. -/
def ManifestTarget.onServer (target : ManifestTarget) : Serve.Entry where
  sha256 := target.sha256
  contentType := Utf8.encode target.contentType
  size := some target.size

private theorem validSHA256_server {sha : Text} (valid : validSHA256 sha = true) : Serve.isSha256 sha = true := by
  simpa [validSHA256, Serve.isSha256, isHexDigit] using valid

private theorem parseEntry_server (valid : validSHA256 target.sha256 = true) (fits : target.size < 2 ^ 63) :
    Serve.parseEntry target.doc = if target.contentType = [] then none else some target.onServer := by
  have sha : Serve.isSha256 (goText (target.sha256.map .char)) = true := by
    rw [goText_chars]
    exact validSHA256_server valid
  have size : (parseInt64 (JsonText.decimal target.size)).filter (fun n => decide (0 ≤ n)) = some (target.size : Int) := by
    rw [parseInt64_decimal fits, Option.filter_some, if_pos (decide_eq_true (Int.natCast_nonneg target.size))]
  rw [ManifestTarget.doc]
  by_cases untyped : target.contentType = []
  · rw [if_pos untyped, if_pos untyped, Serve.parseEntry]
    generalize members : _ :: [] ++ [_] = fields
    have one : Serve.decodeField Serve.decodeString fields "sha256" = some (some (target.sha256.map .char)) := members ▸ rfl
    have two : Serve.decodeField Serve.decodeString fields "content_type" = some none := members ▸ rfl
    have three : Serve.decodeField Doc.number fields "size" = some (some (JsonText.decimal target.size)) := members ▸ rfl
    simp only [one, two, three, sha, Option.bind_eq_bind, Option.bind_some, Bool.not_true, Bool.false_eq_true, if_false,
      Option.bind_none]
  · have kept : goString (target.contentType.map .char) ≠ [] := by
      rw [goString, goText_chars, ne_eq, Utf8.encode_eq_nil]
      exact untyped
    rw [if_neg untyped, if_neg untyped, Serve.parseEntry]
    generalize members : _ :: [_] ++ [_] = fields
    have one : Serve.decodeField Serve.decodeString fields "sha256" = some (some (target.sha256.map .char)) := members ▸ rfl
    have two : Serve.decodeField Serve.decodeString fields "content_type" = some (some (target.contentType.map .char)) :=
      members ▸ rfl
    have three : Serve.decodeField Doc.number fields "size" = some (some (JsonText.decimal target.size)) := members ▸ rfl
    simp only [one, two, three, sha, Option.bind_eq_bind, Option.bind_some, Bool.not_true, Bool.false_eq_true, if_false,
      kept, size]
    rw [goText_chars, goString, goText_chars]
    rfl

private theorem goKeys_distinct (sorted : ByPath files) :
    ((files.map fileMember).map fun member => goText member.1).Nodup := by
  have names : (files.map fileMember).map (fun member => goText member.1) = files.map (·.1) := by
    rw [List.map_map]
    exact List.map_congr_left fun file _ => goText_chars file.1
  rw [names]
  exact sorted.paths_distinct

private theorem serverManifest (files : List (Text × ManifestTarget)) :
    Serve.parse (storedManifest files) = (Serve.parseFiles (files.map fileMember)).map Serve.Manifest.mk := by
  have version : parseInt64 (JsonText.decimal manifestSchemaVersion) = some Serve.supportedSchemaVersion :=
    parseInt64_decimal (by decide)
  rw [Serve.parse, goDecode, storedManifest, Utf8.runeText_encode, JsonText.read_write (storedDoc_proper files),
    storedDoc_legible, Option.bind_some, storedDoc, Serve.decodeManifest]
  generalize members : [member "schema_version" _, member "files" _] = fields
  have numbered : Serve.decodeField Doc.number fields "schema_version" =
      some (some (JsonText.decimal manifestSchemaVersion)) := members ▸ rfl
  have listed : Serve.decodeFiles fields = some (some (files.map fileMember)) := members ▸ rfl
  simp only [numbered, listed, Option.bind_eq_bind, Option.bind_some, version, ne_eq, not_true_eq_false, if_false]
  cases Serve.parseFiles (files.map fileMember) with
  | none => rfl
  | some parsed => rfl

private theorem mapM_eq {α β : Type} {read : α → Option β} {value : α → β} {items : List α}
    (reads : ∀ item ∈ items, read item = some (value item)) : items.mapM read = some (items.map value) := by
  induction items with
  | nil => rfl
  | cons item rest ih =>
    obtain ⟨here, later⟩ := List.forall_mem_cons.mp reads
    rw [List.mapM_cons, here, ih later]
    rfl

/-- The Go server reads what the Worker reads, and has every file at its path. -/
theorem server_reads (sorted : ByPath files) (valid : ∀ file ∈ files, validSHA256 file.2.sha256 = true)
    (fits : ∀ file ∈ files, file.2.size < 2 ^ 63) (typed : ∀ file ∈ files, file.2.contentType ≠ []) :
    Serve.parse (storedManifest files) = some ⟨files.map fun file => (file.1, file.2.onServer)⟩ := by
  have parsed : Serve.parseFiles (files.map fileMember) = some (files.map fun file => (file.1, file.2.onServer)) := by
    rw [Serve.parseFiles, lastOfEach_distinct (goKeys_distinct sorted), List.mapM_map]
    refine mapM_eq fun file mem => ?_
    simp only [Function.comp_apply, fileMember, parseEntry_server (valid file mem) (fits file mem),
      if_neg (typed file mem), Option.map_some, goText_chars]
  rw [serverManifest, parsed, Option.map_some]

theorem server_gets (sorted : ByPath files) (mem : file ∈ files) :
    Serve.Manifest.get ⟨files.map fun file => (file.1, file.2.onServer)⟩ (Utf8.encode file.1) =
      some file.2.onServer := by
  let written := files.map fun file => (file.1, file.2.onServer)
  have distinct : (written.reverse.map fun other => Utf8.encode other.1).Nodup := by
    have paths : written.map (fun other => Utf8.encode other.1) = (files.map (·.1)).map Utf8.encode := by
      rw [List.map_map, List.map_map]
      rfl
    rw [List.map_reverse, List.nodup_reverse, paths]
    exact sorted.paths_distinct.map fun one two same => Utf8.encode_injective same
  have found : lastWith (fun other => Utf8.encode other.1) (Utf8.encode file.1) written.reverse =
      some (file.1, file.2.onServer) :=
    (lastWith_distinct distinct).mpr ⟨List.mem_reverse.mpr (List.mem_map_of_mem mem), rfl⟩
  rw [lastWith, List.reverse_reverse] at found
  rw [Serve.Manifest.get, found, Option.map_some]

end Dropway.Api
