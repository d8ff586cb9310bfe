import Dropway.Cli.Skills
import Dropway.Proofs.DeployDigest
import Dropway.Proofs.WholeFiles

/-! A pull lays a version over the folder and its record among the files, and takes nothing
away. A push of the folder as it is sends what the pull left, the record included. -/

namespace Dropway.Cli
open Lib Lib.Outcome Api

/-! ### The disk -/

variable {disk after : Disk} {path : List Text} {bytes : Bytes}

private theorem node_put (node : Node) (other : List Text) :
    (disk.put path node).node? other = if path = other then some node else disk.node? other := by
  rw [Disk.node?, Disk.put, Table.get?_upsert]
  by_cases same : path = other
  · rw [if_pos same, if_pos same]
    cases disk.get? other <;> rfl
  · rw [if_neg same, if_neg same]
    rfl

private theorem file_put_file (other : List Text) :
    (disk.put path (.file bytes)).file? other = if path = other then some bytes else disk.file? other := by
  rw [Disk.file?, node_put]
  by_cases same : path = other
  · rw [if_pos same, if_pos same]
  · rw [if_neg same, if_neg same]
    rfl

/-- Making directories leaves every file as it is. -/
private theorem makeDir_files (made : disk.makeDir path = .ok after) : after.file? = disk.file? := by
  rw [Disk.makeDir] at made
  split at made
  · cases made
    rfl
  · cases made
  · rename_i free
    cases made
    funext other
    rw [Disk.file?, Disk.file?, node_put]
    by_cases same : path = other
    · rw [if_pos same, ← same, free]
    · rw [if_neg same]

private theorem mkdirAll_files (made : disk.mkdirAll path = .ok after) : after.file? = disk.file? := by
  rw [Disk.mkdirAll] at made
  generalize path.inits = paths at made
  induction paths generalizing disk with
  | nil =>
    cases pure_ok.mp made
    rfl
  | cons first rest ih =>
    rw [List.foldlM_cons] at made
    obtain ⟨middle, here, later⟩ := bind_ok.mp made
    exact (ih later).trans (makeDir_files here)

private theorem writeFile_put (wrote : disk.writeFile path bytes = .ok after) :
    after = disk.put path (.file bytes) := by
  rw [Disk.writeFile] at wrote
  split at wrote
  · cases wrote
  · exact (Except.ok.inj wrote).symm
  · cases wrote

private theorem mem_regular {file : Text × Bytes} :
    file ∈ disk.regular ↔ ∃ path, disk.file? path = some file.2 ∧ ['/'].intercalate path = file.1 := by
  rw [Disk.regular, List.mem_filterMap]
  constructor
  · rintro ⟨⟨path, node⟩, mem, found⟩
    cases node with
    | dir => cases found
    | file bytes =>
      cases found
      have listed : disk.get? path = some ⟨path, .file bytes⟩ := Table.get?_eq_some.mpr ⟨mem, rfl⟩
      exact ⟨path, by rw [Disk.file?, Disk.node?, listed]; rfl, rfl⟩
  · rintro ⟨path, found, same⟩
    rw [Disk.file?, Disk.node?] at found
    cases listed : disk.get? path with
    | none =>
      rw [listed] at found
      cases found
    | some entry =>
      obtain ⟨mem, keyed⟩ := Table.get?_eq_some.mp listed
      obtain ⟨own, node⟩ := entry
      rw [listed] at found
      cases node with
      | dir => cases found
      | file bytes =>
        cases found
        subst keyed
        exact ⟨_, mem, congrArg some (Prod.ext same rfl)⟩

private theorem join_target (path : Text) : ['/'].intercalate (target path) = path :=
  List.intercalate_splitOn '/'

private theorem target_inj {one two : Text} (same : target one = target two) : one = two := by
  rw [← join_target one, same, join_target]

private theorem target_record : target skillRecordFile = [skillRecordFile] := by decide

/-! ### Versions -/

/-- A version that was finalized: its files passed Validate. -/
structure SkillVersion where
  number : Nat
  files : List (Text × Bytes)
  int32 : number < 2 ^ 31
  valid : Skillspec.validate (files.map fun file => ⟨file.1, file.2.length⟩) = .ok ()

namespace SkillVersion

variable (version : SkillVersion)

def paths : List Text := version.files.map Prod.fst

/-- What the API answers when every blob is read to its end. -/
def download (slug skillId : Text) : SkillDownloadPayload where
  slug := slug
  skillId := skillId
  version := version.number
  files := version.files.map fun file =>
    ⟨file.1, (encodeFileContent file.2).1, (encodeFileContent file.2).2⟩

def digest (hash : Sha256) : Text := Api.digest hash (version.files.map (entry hash))

def record (slug skillId : Text) : SkillRecord := ⟨slug, skillId, version.number⟩

theorem paths_nodup : version.paths.Nodup := by
  have nodup := (Skillspec.validate_ok.mp version.valid).1.nodup
  rw [List.map_map] at nodup
  exact nodup

end SkillVersion

variable {before : Disk} {version : SkillVersion} {slug skillId : Text}

/-- Pulls of one skill in turn. -/
def pulls (slug skillId : Text) (disk : Disk) (versions : List SkillVersion) : Except PullError Disk :=
  versions.foldlM (fun disk version => pullSkill disk (.ok (version.download slug skillId))) disk

/-- What a pull has done to the files. -/
structure Pulled (before after : Disk) (version : SkillVersion) (record : SkillRecord) : Prop where
  record : after.file? [skillRecordFile] = some record.body
  written : ∀ file ∈ version.files, file.1 ≠ skillRecordFile → after.file? (target file.1) = some file.2
  kept : ∀ path, path ≠ [skillRecordFile] → (∀ file ∈ version.files, target file.1 ≠ path) →
    after.file? path = before.file? path

private theorem writeSkillFile_ok {file : Text × Bytes}
    (wrote : writeSkillFile disk ⟨file.1, (encodeFileContent file.2).1, (encodeFileContent file.2).2⟩ =
      .ok after) (path : List Text) :
    after.file? path = if target file.1 = path then some file.2 else disk.file? path := by
  obtain ⟨_, -, wrote⟩ := bind_ok.mp wrote
  obtain ⟨data, decoded, wrote⟩ := bind_ok.mp wrote
  obtain ⟨middle, made, wrote⟩ := bind_ok.mp wrote
  have same : file.2 = data := Except.ok.inj ((decode_encodeFileContent file.2).symm.trans (mapError_ok.mp decoded))
  rw [writeFile_put (mapError_ok.mp wrote), file_put_file, mkdirAll_files (mapError_ok.mp made), same]

private theorem files_ok {files : List (Text × Bytes)} (nodup : (files.map Prod.fst).Nodup)
    (wrote : (files.map fun file => (⟨file.1, (encodeFileContent file.2).1, (encodeFileContent file.2).2⟩ :
      SkillFilePayload)).foldlM writeSkillFile disk = .ok after) :
    (∀ file ∈ files, after.file? (target file.1) = some file.2) ∧
      ∀ path, (∀ file ∈ files, target file.1 ≠ path) → after.file? path = disk.file? path := by
  induction files generalizing disk with
  | nil =>
    cases pure_ok.mp wrote
    exact ⟨fun _ mem => absurd mem List.not_mem_nil, fun _ _ => rfl⟩
  | cons file rest ih =>
    rw [List.map_cons, List.nodup_cons] at nodup
    rw [List.map_cons, List.foldlM_cons] at wrote
    obtain ⟨middle, here, later⟩ := bind_ok.mp wrote
    obtain ⟨written, kept⟩ := ih nodup.2 later
    refine ⟨List.forall_mem_cons.mpr ⟨?_, written⟩, fun path apart => ?_⟩
    · rw [kept, writeSkillFile_ok here, if_pos rfl]
      intro other mem same
      exact nodup.1 (target_inj same ▸ List.mem_map_of_mem mem)
    · obtain ⟨first, others⟩ := List.forall_mem_cons.mp apart
      rw [kept path others, writeSkillFile_ok here, if_neg first]

private theorem pullSkill_pulled (pulled : pullSkill before (.ok (version.download slug skillId)) = .ok after) :
    slug ≠ [] ∧ Pulled before after version (version.record slug skillId) := by
  obtain ⟨dl, given, pulled⟩ := bind_ok.mp pulled
  cases given
  obtain ⟨middle, wrote, recorded⟩ := bind_ok.mp pulled
  obtain ⟨_, safe, wrote⟩ := bind_ok.mp wrote
  obtain ⟨written, kept⟩ := files_ok version.paths_nodup wrote
  have put := writeFile_put (mapError_ok.mp recorded)
  refine ⟨?_, ?_, fun file mem other => ?_, fun path other apart => ?_⟩
  · intro blank
    have clean : Skillspec.cleanPath slug = true := require_ok.mp safe
    rw [blank] at clean
    cases clean
  · rw [put, file_put_file, if_pos rfl]
    rfl
  · have elsewhere : [skillRecordFile] ≠ target file.1 := by
      rw [← target_record]
      exact fun same => other (target_inj same).symm
    rw [put, file_put_file, if_neg elsewhere, written file mem]
  · rw [put, file_put_file, if_neg (Ne.symm other), kept path apart]

/-! ### The record -/

private theorem intText_nat (n : Nat) : intText n = JsonText.decimal n := by
  rw [intText, if_neg (by omega), Int.natAbs_natCast]

private theorem record_decodes (small : version.number < 2 ^ 31) :
    decodeSkillRecord (.obj (Doc.legibleMembers (version.record slug skillId).members)) =
      some (version.record slug skillId) := by
  have members : Doc.legibleMembers (version.record slug skillId).members =
      [("slug".toList.map .char, .str (slug.map .char)), ("skill_id".toList.map .char, .str (skillId.map .char)),
        ("version".toList.map .char, .num (JsonText.decimal version.number))] := by
    have legible (text : Text) : (text.map Glyph.char).map Glyph.legible = text.map .char := by
      rw [List.map_map]
      rfl
    simp only [SkillRecord.members, SkillVersion.record, Doc.legibleMembers, Doc.legible, legible, intText_nat]
  have slugs : decodeOver "slug" textOver [] (Doc.legibleMembers (version.record slug skillId).members) =
      some slug := by
    rw [members]
    exact congrArg some (goText_chars slug)
  have ids : decodeOver "skill_id" textOver [] (Doc.legibleMembers (version.record slug skillId).members) =
      some skillId := by
    rw [members]
    exact congrArg some (goText_chars skillId)
  have number : decodeOver "version" int32Over 0 (Doc.legibleMembers (version.record slug skillId).members) =
      some (version.number : Int) := by
    rw [members]
    have fits : (-2 ^ 31 ≤ (version.number : Int) ∧ (version.number : Int) < 2 ^ 31) := by omega
    have read : int32Over 0 (.num (JsonText.decimal version.number)) = some (version.number : Int) := by
      rw [int32Over, parseInt64_decimal (by omega), Option.filter_some, decide_eq_true fits]
      rfl
    change (int32Over 0 (.num (JsonText.decimal version.number))).bind some = _
    rw [read]
    rfl
  rw [decodeSkillRecord, slugs, ids, number]
  rfl

/-- The record of a pull is read back. -/
private theorem record_read (pulled : Pulled before after version (version.record slug skillId))
    (named : slug ≠ []) : readSkillRecord after = some (version.record slug skillId) := by
  have proper : Doc.ProperMembers (version.record slug skillId).members :=
    ⟨whole_chars _, whole_chars _, whole_chars _, whole_chars _, whole_chars _, ⟨version.number, intText_nat _⟩,
      trivial⟩
  have parsed : JsonText.parse (Utf8.runeText (version.record slug skillId).body) =
      some (.obj (Doc.legibleMembers (version.record slug skillId).members)) := by
    rw [SkillRecord.body, Utf8.runeText_encode]
    exact JsonText.parse_writeLines proper rfl
  rw [readSkillRecord, pulled.record]
  simp only [Option.bind_eq_bind, Option.bind_some, parsed, record_decodes version.int32]
  exact if_neg named

/-! ### What lies in the folder -/

/-- The files of the folder after a run of pulls, whatever their bytes. -/
structure Left (disk : Disk) (versions : List SkillVersion) : Prop where
  source : ∀ path bytes, disk.file? path = some bytes →
    path = [skillRecordFile] ∨ ∃ version ∈ versions, ∃ name ∈ version.paths, path = target name
  there : ∀ version ∈ versions, ∀ name ∈ version.paths, ∃ bytes, disk.file? (target name) = some bytes

private theorem Pulled.step {versions : List SkillVersion} {record : SkillRecord}
    (pulled : Pulled before after version record) (left : Left before versions) :
    Left after (versions ++ [version]) := by
  have inside {old : SkillVersion} (mem : old ∈ versions) : old ∈ versions ++ [version] :=
    List.mem_append_left _ mem
  have last : version ∈ versions ++ [version] := List.mem_append_right _ (List.mem_singleton_self _)
  have own {name : Text} (listed : name ∈ version.paths) : ∃ bytes, after.file? (target name) = some bytes := by
    obtain ⟨file, mem, rfl⟩ := List.mem_map.mp listed
    by_cases record : file.1 = skillRecordFile
    · rw [record, target_record]
      exact ⟨_, pulled.record⟩
    · exact ⟨_, pulled.written file mem record⟩
  refine ⟨fun path bytes found => ?_, fun old mem name listed => ?_⟩
  · by_cases record : path = [skillRecordFile]
    · exact Or.inl record
    by_cases written : ∃ file ∈ version.files, target file.1 = path
    · obtain ⟨file, mem, rfl⟩ := written
      exact Or.inr ⟨version, last, file.1, List.mem_map_of_mem mem, rfl⟩
    · rw [pulled.kept path record fun file mem same => written ⟨file, mem, same⟩] at found
      refine (left.source path bytes found).imp_right fun ⟨old, mem, name, listed, same⟩ => ?_
      exact ⟨old, inside mem, name, listed, same⟩
  · rcases List.mem_append.mp mem with earlier | current
    · by_cases written : name ∈ version.paths
      · exact own written
      by_cases record : name = skillRecordFile
      · rw [record, target_record]
        exact ⟨_, pulled.record⟩
      · obtain ⟨bytes, found⟩ := left.there old earlier name listed
        refine ⟨bytes, ?_⟩
        rw [pulled.kept _ (fun same => record (target_inj (same.trans target_record.symm))) ?_, found]
        exact fun file inside same => written (target_inj same ▸ List.mem_map_of_mem inside)
    · rw [List.mem_singleton.mp current] at listed
      exact own listed

private theorem pulls_left {earlier versions : List SkillVersion} (left : Left disk earlier)
    (ran : pulls slug skillId disk versions = .ok after) : Left after (earlier ++ versions) := by
  induction versions generalizing disk earlier with
  | nil =>
    cases pure_ok.mp ran
    rw [List.append_nil]
    exact left
  | cons version rest ih =>
    rw [pulls, List.foldlM_cons] at ran
    obtain ⟨middle, here, later⟩ := bind_ok.mp ran
    have next := ih ((pullSkill_pulled here).2.step left) later
    rw [List.append_assoc] at next
    exact next

private theorem left_empty : Left Table.empty [] :=
  ⟨fun _ _ found => (by cases found), fun _ mem => absurd mem List.not_mem_nil⟩

/-- The regular files of the folder, the record apart, are those of the version. -/
def Materialised (disk : Disk) (version : SkillVersion) : Prop :=
  ∀ file, (file ∈ disk.regular ∧ file.1 ≠ skillRecordFile) ↔ file ∈ version.files

private theorem materialised_iff {versions : List SkillVersion} {record : SkillRecord} (left : Left before versions)
    (pulled : Pulled before after version record) :
    Materialised after version ↔ skillRecordFile ∉ version.paths ∧
      ∀ old ∈ versions, ∀ name ∈ old.paths, name ≠ skillRecordFile → name ∈ version.paths := by
  constructor
  · intro exact_
    refine ⟨fun listed => ?_, fun old mem name listed other => ?_⟩
    · obtain ⟨file, mem, same⟩ := List.mem_map.mp listed
      exact ((exact_ file).mpr mem).2 same
    · by_contra gone
      obtain ⟨bytes, found⟩ := left.there old mem name listed
      have still : after.file? (target name) = some bytes := by
        rw [pulled.kept _ (fun same => other (target_inj (same.trans target_record.symm))) ?_, found]
        exact fun file inside same => gone (target_inj same ▸ List.mem_map_of_mem inside)
      have stays := (exact_ (name, bytes)).mp ⟨mem_regular.mpr ⟨_, still, join_target name⟩, other⟩
      exact gone (List.mem_map_of_mem stays)
  · intro ⟨unrecorded, covered⟩ file
    have apart {other : Text × Bytes} (mem : other ∈ version.files) : other.1 ≠ skillRecordFile :=
      fun same => unrecorded (same ▸ List.mem_map_of_mem mem)
    constructor
    · intro ⟨listed, other⟩
      obtain ⟨path, found, same⟩ := mem_regular.mp listed
      have unlike : path ≠ [skillRecordFile] := by
        intro record
        rw [record, ← target_record, join_target] at same
        exact other same.symm
      by_cases written : ∃ known ∈ version.files, target known.1 = path
      · obtain ⟨known, mem, rfl⟩ := written
        rw [pulled.written known mem (apart mem)] at found
        rw [join_target] at same
        have equal : known = file := Prod.ext same (Option.some.inj found)
        exact equal ▸ mem
      · -- a file of an earlier version, which the version has too
        have old := found
        rw [pulled.kept path unlike fun known mem same => written ⟨known, mem, same⟩] at old
        obtain ⟨earlier, mem, name, listed, rfl⟩ := (left.source path _ old).resolve_left unlike
        have named : name ≠ skillRecordFile := fun same => unlike (by rw [same, target_record])
        obtain ⟨known, inside, rfl⟩ := List.mem_map.mp (covered earlier mem name listed named)
        exact absurd ⟨known, inside, rfl⟩ written
    · intro mem
      exact ⟨mem_regular.mpr ⟨_, pulled.written file mem (apart mem), join_target file.1⟩, apart mem⟩

/-! ### The digest -/

/-- What a digest is the hash of. -/
def digestText (files : List ManifestFile) : Text := (files.insertionSort ManifestFile.PathLe).flatMap digestLine

def folderText (hash : Sha256) (disk : Disk) : Text := digestText (disk.regular.map (entry hash))

def SkillVersion.text (hash : Sha256) (version : SkillVersion) : Text := digestText (version.files.map (entry hash))

/-- The hash function tells the folder's text from the version's. -/
def Distinguishes (hash : Sha256) (disk : Disk) (version : SkillVersion) : Prop :=
  hash (Utf8.encode (folderText hash disk)) = hash (Utf8.encode (version.text hash)) →
    folderText hash disk = version.text hash

private theorem build_digest {hash : Sha256} {built : BuiltManifest} (made : build hash disk = .ok built) :
    built.digest = hash (Utf8.encode (folderText hash disk)) := by
  rw [build] at made
  split at made
  · cases made
    have sorted := List.pairwise_insertionSort ManifestFile.PathLe (disk.regular.map (entry hash))
    change hash _ = hash _
    rw [folderText, digestText, sorted.insertionSort_eq]
  · cases made
  · cases made

private theorem digestText_length (files : List ManifestFile) :
    (digestText files).length = (files.map fun file => (digestLine file).length).sum := by
  rw [digestText, List.length_flatMap]
  exact ((List.perm_insertionSort _ files).map _).sum_eq

private theorem folder_longer (hash : Sha256) {record : SkillRecord} (pulled : Pulled before after version record)
    (unrecorded : skillRecordFile ∉ version.paths) :
    (version.text hash).length < (folderText hash after).length := by
  have apart {file : Text × Bytes} (mem : file ∈ version.files) : file.1 ≠ skillRecordFile :=
    fun same => unrecorded (same ▸ List.mem_map_of_mem mem)
  have nodup : ((skillRecordFile, record.body) :: version.files).Nodup := by
    refine List.nodup_cons.mpr ⟨fun mem => apart mem rfl, ?_⟩
    exact List.Nodup.of_map _ version.paths_nodup
  have inside : (skillRecordFile, record.body) :: version.files ⊆ after.regular := by
    refine List.cons_subset.mpr ⟨?_, fun file mem => ?_⟩
    · exact mem_regular.mpr ⟨_, pulled.record, by rw [← target_record, join_target]⟩
    · exact mem_regular.mpr ⟨_, pulled.written file mem (apart mem), join_target file.1⟩
  obtain ⟨part, same, sub⟩ := List.subperm_of_subset nodup inside
  obtain ⟨rest, split⟩ := sub.exists_perm_append
  have whole := split.trans (same.append_right rest)
  rw [SkillVersion.text, folderText, digestText_length, digestText_length, List.map_map, List.map_map,
    (whole.map _).sum_eq, List.cons_append, List.map_cons, List.map_append, List.sum_cons, List.sum_append]
  have line : 0 < (digestLine (entry hash (skillRecordFile, record.body))).length := by
    simp only [digestLine, List.length_append, List.length_cons]
    omega
  simp only [Function.comp_apply]
  omega

/-- A push of the folder as it is has the digest of the version. -/
structure Undone (hash : Sha256) (disk : Disk) (version : SkillVersion) (slug skillId : Text) : Prop where
  files : Materialised disk version
  record : readSkillRecord disk = some (version.record slug skillId)
  digest : ∃ built, build hash disk = .ok built ∧ built.digest = version.digest hash

/-- After any pulls, the files are those of the version where it keeps all earlier paths
and has none of the record's; its digest, then, never is the one that a push computes. -/
theorem pull_never_undone {hash : Sha256} {earlier : List SkillVersion}
    (left : pulls slug skillId Table.empty earlier = .ok before)
    (pulled : pullSkill before (.ok (version.download slug skillId)) = .ok after)
    (apart : Distinguishes hash after version) :
    (Materialised after version ↔ skillRecordFile ∉ version.paths ∧
      ∀ old ∈ earlier, ∀ name ∈ old.paths, name ≠ skillRecordFile → name ∈ version.paths) ∧
    readSkillRecord after = some (version.record slug skillId) ∧
    (skillRecordFile ∉ version.paths →
      ∀ built, build hash after = .ok built → built.digest ≠ version.digest hash) ∧
    ¬ Undone hash after version slug skillId := by
  obtain ⟨named, did⟩ := pullSkill_pulled pulled
  have files := materialised_iff (pulls_left left_empty left) did
  have digests (unrecorded : skillRecordFile ∉ version.paths) (built : BuiltManifest)
      (made : build hash after = .ok built) : built.digest ≠ version.digest hash := by
    intro same
    rw [build_digest made] at same
    have longer := folder_longer hash did unrecorded
    rw [apart same] at longer
    exact absurd longer (lt_irrefl _)
  refine ⟨files, record_read did named, digests, fun undone => ?_⟩
  obtain ⟨built, made, same⟩ := undone.digest
  exact digests (files.mp undone.files).1 built made same

/-! ### A skill that loses a file -/

def hiVersion (number : Nat) (int32 : number < 2 ^ 31) : SkillVersion :=
  ⟨number, [("SKILL.md".toList, [104, 105])], int32, by decide⟩

/-- The version before had a second file. -/
def twoFiles : SkillVersion := ⟨1, [("SKILL.md".toList, [104, 105]), (['a'], [])], by decide, by decide⟩

def folder (result : Except PullError Disk) : Disk :=
  match result with
  | .ok disk => disk
  | .error _ => Table.empty

private theorem folder_ok {result : Except PullError Disk} (ok : result.isOk = true) : result = .ok (folder result) := by
  cases result with
  | error error => cases ok
  | ok disk => rfl

def hiSha : Text := "8f434346648f6b96df89dda901c5176b10a6d83961dd3c1ac88b59b2dc327aa4".toList

def hiRecordSha : Text := "5f22e72e1918273802726cf1f73752a3b4ea30a9d89db012699f8b4630992869".toList

/-- SHA-256 on the file, on the record and on the two digest texts. -/
def hiHash : Sha256 := fun bytes =>
  if bytes = [104, 105] then hiSha
  else if bytes = (SkillRecord.mk ['s'] ['i'] 1).body then hiRecordSha
  else if bytes = Utf8.encode (hiSha ++ "  SKILL.md\n".toList) then
    "d58b39ee431c7cdfbd4ac08eb625d3639f0834d863f5952bd0dfb5b902d612e1".toList
  else if bytes = Utf8.encode (hiRecordSha ++ "  .dropway.json\n".toList ++ hiSha ++ "  SKILL.md\n".toList) then
    "28dd1293079e8603d13cf225555efc041afc23507e0f698556a06a98bb817f82".toList
  else []

def hiPull : Except PullError Disk := pullSkill Table.empty (.ok ((hiVersion 1 (by decide)).download ['s'] ['i']))

theorem hi_never_undone : ¬ Undone hiHash (folder hiPull) (hiVersion 1 (by decide)) ['s'] ['i'] :=
  (pull_never_undone (show pulls ['s'] ['i'] Table.empty [] = .ok Table.empty from rfl)
    (folder_ok (show hiPull.isOk = true by decide +kernel))
    (show Distinguishes hiHash (folder hiPull) (hiVersion 1 (by decide)) by
      unfold Distinguishes
      decide +kernel)).2.2.2

/-- A second pull leaves the file that the version has lost; and even the first has
another digest than what was pulled. -/
theorem pull_not_undone :
    (∃ before after, pulls ['s'] ['i'] Table.empty [twoFiles] = .ok before ∧
      pullSkill before (.ok ((hiVersion 2 (by decide)).download ['s'] ['i'])) = .ok after ∧
      ¬ Materialised after (hiVersion 2 (by decide))) ∧
    ∃ after built, pullSkill Table.empty (.ok ((hiVersion 1 (by decide)).download ['s'] ['i'])) = .ok after ∧
      build hiHash after = .ok built ∧ built.digest ≠ (hiVersion 1 (by decide)).digest hiHash := by
  constructor
  · refine ⟨folder (pulls ['s'] ['i'] Table.empty [twoFiles]), _, folder_ok (by decide +kernel),
      folder_ok (by decide +kernel), fun exact_ => ?_⟩
    have stays : ((['a'], []) : Text × Bytes) ∈ (hiVersion 2 (by decide)).files :=
      (exact_ (['a'], [])).mp ⟨by decide +kernel, by decide⟩
    exact absurd stays (by decide)
  · have made : (build hiHash (folder hiPull)).isOk = true := by decide +kernel
    cases built : build hiHash (folder hiPull) with
    | error error =>
      rw [built] at made
      cases made
    | ok manifest =>
      refine ⟨folder hiPull, manifest, folder_ok (by decide +kernel), built, ?_⟩
      rw [build_digest built]
      decide +kernel

end Dropway.Cli
