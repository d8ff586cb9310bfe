import Dropway.Api.GarbagePass
import Dropway.Proofs.VersionNumbers

/-! A pass of the garbage collection deletes the garbage and nothing else, wherever it stops. -/

namespace Dropway.Api
open Lib

/-- The rows as the query gives them: a version once, and the newer before the older. -/
structure VersionRows (rows : List GCRow) : Prop where
  ids : (rows.map GCRow.versionId).Nodup
  descending : rows.Pairwise fun one two => one.siteId = two.siteId → two.versionNo < one.versionNo

/-- Fewer than `n` versions of the row's site are newer. -/
def GCRow.AmongNewest (rows : List GCRow) (n : Int) (row : GCRow) : Prop :=
  ((rows.filter fun other => decide (other.siteId = row.siteId ∧ row.versionNo < other.versionNo)).length
    : Int) < n

/-- The manifest names the blob. -/
def Bucket.Refers (bucket : Bucket) (key : ManifestKey) (sha : Text) : Prop :=
  ∃ body files, bucket.getManifest key = .ok body ∧ unmarshalGcManifest body = some files ∧
    sha ∈ files.map Prod.snd ∧ sha ≠ []

/-- The manifest is missing, or it can be read. -/
def Bucket.Readable (bucket : Bucket) (key : ManifestKey) : Prop :=
  bucket.getManifest key = .error .notFound ∨
    ∃ body files, bucket.getManifest key = .ok body ∧ unmarshalGcManifest body = some files

/-- The manifests that are read for what the retained versions refer to. -/
def retainedKeys (retained : List GCRow) (skillRetained : List (Text × Option Text)) : List ManifestKey :=
  retained.map GCRow.key ++ skillRetained.filterMap fun skill => skill.2.map (ManifestKey.skill skill.1)

/-! ### The selection -/

variable {rows seen : List GCRow} {row other : GCRow}

private theorem addUnseen_sub {ids : List Text} (mem : row ∈ addUnseen ids rows) :
    row ∈ rows ∧ row.versionId ∉ ids := by
  induction rows generalizing ids with
  | nil => cases mem
  | cons first rest ih =>
    rw [addUnseen] at mem
    split at mem
    · obtain ⟨inside, fresh⟩ := ih mem
      exact ⟨List.mem_cons_of_mem _ inside, fresh⟩
    · rename_i new
      rcases List.mem_cons.mp mem with rfl | later
      · exact ⟨List.mem_cons_self .., by simpa using new⟩
      · obtain ⟨inside, fresh⟩ := ih later
        exact ⟨List.mem_cons_of_mem _ inside, fun mem => fresh (List.mem_cons_of_mem _ mem)⟩

private theorem addUnseen_nodup (ids : List Text) :
    ((addUnseen ids rows).map GCRow.versionId).Nodup := by
  induction rows generalizing ids with
  | nil => exact List.nodup_nil
  | cons first rest ih =>
    rw [addUnseen]
    split
    · exact ih ids
    · rw [List.map_cons, List.nodup_cons]
      refine ⟨fun mem => ?_, ih _⟩
      obtain ⟨again, inside, same⟩ := List.mem_map.mp mem
      exact (addUnseen_sub inside).2 (same ▸ List.mem_cons_self ..)

private theorem addUnseen_covers {ids : List Text} (mem : row ∈ rows) (fresh : row.versionId ∉ ids) :
    ∃ kept ∈ addUnseen ids rows, kept.versionId = row.versionId := by
  induction rows generalizing ids with
  | nil => cases mem
  | cons first rest ih =>
    rw [addUnseen]
    by_cases known : first.versionId ∈ ids
    · rw [if_pos (by simpa using known)]
      rcases List.mem_cons.mp mem with rfl | later
      · exact absurd known fresh
      · exact ih later fresh
    · rw [if_neg (by simpa using known)]
      by_cases same : row.versionId = first.versionId
      · exact ⟨first, List.mem_cons_self .., same.symm⟩
      · rcases List.mem_cons.mp mem with rfl | later
        · exact absurd rfl same
        · have apart : row.versionId ∉ first.versionId :: ids := by
            intro inside
            rcases List.mem_cons.mp inside with equal | old
            · exact same equal
            · exact fresh old
          obtain ⟨kept, inside, equal⟩ := ih later apart
          exact ⟨kept, List.mem_cons_of_mem _ inside, equal⟩

private theorem mem_newest_split {n : Nat} :
    row ∈ newest n seen rows ↔ ∃ front back, rows = front ++ row :: back ∧
      ((seen ++ front).filter fun old => decide (old.siteId = row.siteId)).length < n := by
  induction rows generalizing seen with
  | nil => simp [newest]
  | cons first rest ih =>
    have later : (∃ front back, rest = front ++ row :: back ∧
        ((seen ++ [first] ++ front).filter fun old => decide (old.siteId = row.siteId)).length < n) ↔
        ∃ front back, first :: rest = (first :: front) ++ row :: back ∧
          ((seen ++ first :: front).filter fun old => decide (old.siteId = row.siteId)).length < n := by
      simp
    have split : (∃ front back, first :: rest = front ++ row :: back ∧
        ((seen ++ front).filter fun old => decide (old.siteId = row.siteId)).length < n) ↔
        (row = first ∧ (seen.filter fun old => decide (old.siteId = row.siteId)).length < n) ∨
          row ∈ newest n (seen ++ [first]) rest := by
      rw [ih, later]
      constructor
      · intro ⟨front, back, same, few⟩
        cases front with
        | nil =>
          obtain ⟨equal, -⟩ := List.cons.inj same
          exact Or.inl ⟨equal.symm, by simpa using few⟩
        | cons head front =>
          obtain ⟨equal, -⟩ := List.cons.inj same
          subst equal
          exact Or.inr ⟨front, back, same, few⟩
      · intro found
        rcases found with ⟨equal, few⟩ | ⟨front, back, same, few⟩
        · exact ⟨[], rest, by rw [equal]; rfl, by simpa using few⟩
        · exact ⟨first :: front, back, same, few⟩
    rw [split, newest]
    by_cases few : (seen.filter fun old => decide (old.siteId = first.siteId)).length < n
    · rw [if_pos few, List.mem_cons]
      refine or_congr_left ⟨fun same => ⟨same, by rw [same]; exact few⟩, fun found => found.1⟩
    · rw [if_neg few]
      refine ⟨Or.inr, fun found => found.resolve_left fun given => few ?_⟩
      rw [← given.1]
      exact given.2

private theorem newer_of_split {front back : List GCRow} (listed : VersionRows (front ++ row :: back)) :
    ((front ++ row :: back).filter fun other =>
        decide (other.siteId = row.siteId ∧ row.versionNo < other.versionNo)) =
      front.filter fun old => decide (old.siteId = row.siteId) := by
  obtain ⟨-, behind, across⟩ := List.pairwise_append.mp listed.descending
  have after := (List.pairwise_cons.mp behind).1
  have none : (back.filter fun other =>
      decide (other.siteId = row.siteId ∧ row.versionNo < other.versionNo)) = [] := by
    refine List.filter_eq_nil_iff.mpr fun other mem newer => ?_
    obtain ⟨site, above⟩ := of_decide_eq_true newer
    have below := after other mem site.symm
    omega
  rw [List.filter_append, List.filter_cons_of_neg (by simp), none, List.append_nil]
  apply List.filter_congr
  intro old mem
  by_cases site : old.siteId = row.siteId
  · rw [decide_eq_true site, decide_eq_true ⟨site, across old mem row (List.mem_cons_self ..) site⟩]
  · rw [decide_eq_false site, decide_eq_false fun newer => site newer.1]

private theorem mem_newest_iff (listed : VersionRows rows) (n : Int) :
    row ∈ newest n.toNat [] rows ↔ row ∈ rows ∧ row.AmongNewest rows n := by
  rw [mem_newest_split]
  constructor
  · intro ⟨front, back, same, few⟩
    subst same
    refine ⟨List.mem_append_right _ (List.mem_cons_self ..), ?_⟩
    rw [GCRow.AmongNewest, newer_of_split listed]
    rw [List.nil_append] at few
    omega
  · intro ⟨mem, few⟩
    obtain ⟨front, back, same⟩ := List.append_of_mem mem
    subst same
    refine ⟨front, back, rfl, ?_⟩
    rw [GCRow.AmongNewest, newer_of_split listed] at few
    rw [List.nil_append]
    omega

/-- What is selected, without doubles: the current versions, the newest of each site, and those
that a preview keeps. -/
theorem selectRetained_exact (listed : VersionRows rows) (keepLastN : Int) (now : Instant) :
    ((selectRetained rows keepLastN now).map GCRow.versionId).Nodup ∧
      ∀ row, row ∈ selectRetained rows keepLastN now ↔ row ∈ rows ∧
        (row.isCurrent = true ∨ row.AmongNewest rows keepLastN ∨
          previewBlobsRetained row.previewExpiresAt now = true) := by
  refine ⟨addUnseen_nodup [], fun row => ?_⟩
  have chosen : ∀ row, row ∈ rows.filter GCRow.isCurrent ++ newest keepLastN.toNat [] rows ++
      (rows.filter fun row => previewBlobsRetained row.previewExpiresAt now) ↔ row ∈ rows ∧
        (row.isCurrent = true ∨ row.AmongNewest rows keepLastN ∨
          previewBlobsRetained row.previewExpiresAt now = true) := by
    intro row
    rw [List.mem_append, List.mem_append, mem_newest_iff listed, List.mem_filter, List.mem_filter,
      and_or_left, and_or_left, or_assoc]
  rw [← chosen]
  constructor
  · exact fun mem => (addUnseen_sub mem).1
  · intro mem
    obtain ⟨kept, inside, same⟩ := addUnseen_covers mem (List.not_mem_nil (a := row.versionId))
    have equal := List.inj_on_of_nodup_map listed.ids
      ((chosen kept).mp (addUnseen_sub inside).1).1 ((chosen row).mp mem).1 same
    rw [← equal]
    exact inside

instance : Std.Total GCRow.Le where
  total one two := by
    rcases lt_trichotomy one.siteId two.siteId with below | same | above
    · exact Or.inl (Or.inl below)
    · rcases Nat.le_total one.versionNo two.versionNo with older | newer
      · exact Or.inr (Or.inr ⟨same.symm, older⟩)
      · exact Or.inl (Or.inr ⟨same, newer⟩)
    · exact Or.inr (Or.inl above)

instance : IsTrans GCRow GCRow.Le where
  trans one two three first second := by
    rcases first with below | ⟨same, newer⟩
    · rcases second with later | ⟨equal, -⟩
      · exact Or.inl (lt_trans below later)
      · exact Or.inl (equal ▸ below)
    · rcases second with later | ⟨equal, older⟩
      · exact Or.inl (same ▸ later)
      · exact Or.inr ⟨same.trans equal, older.trans newer⟩

/-- Under the unique keys of the version table the query lists the rows as the selection needs them. -/
theorem listVersionsForGC_rows {org : OrgStorage} (keyed : org.Keyed) :
    VersionRows org.listVersionsForGC := by
  let found (version : VersionRow) : Option GCRow :=
    (org.sites.get? version.siteId).map fun site =>
      { versionId := version.id, siteId := version.siteId, versionNo := version.versionNo
        isCurrent := decide (site.currentVersionId = some version.id)
        previewExpiresAt := version.previewExpiresAt }
  have of_found : ∀ version row, found version = some row →
      row.versionId = version.id ∧ row.siteId = version.siteId ∧ row.versionNo = version.versionNo := by
    intro version row hit
    obtain ⟨site, -, same⟩ := Option.map_eq_some_iff.mp hit
    rw [← same]
    exact ⟨rfl, rfl, rfl⟩
  have ids : ((org.siteVersions.rows.filterMap found).map GCRow.versionId).Nodup := by
    refine List.Nodup.sublist ?_ org.siteVersions.nodup
    rw [List.map_filterMap]
    generalize org.siteVersions.rows = versions
    induction versions with
    | nil => exact List.Sublist.slnil
    | cons version rest ih =>
      rw [List.filterMap_cons, List.map_cons]
      cases hit : found version with
      | none => exact ih.cons _
      | some row =>
        rw [Option.map_some, (of_found version row hit).1]
        exact ih.cons_cons _
  have sorted : (org.siteVersions.rows.filterMap found).insertionSort GCRow.Le = org.listVersionsForGC := rfl
  have perm := List.perm_insertionSort GCRow.Le (org.siteVersions.rows.filterMap found)
  rw [sorted] at perm
  have nodup : (org.listVersionsForGC.map GCRow.versionId).Nodup := (perm.map _).nodup_iff.mpr ids
  refine ⟨nodup, ?_⟩
  have order : org.listVersionsForGC.Pairwise GCRow.Le := List.pairwise_insertionSort _ _
  refine (order.and (List.pairwise_map.mp nodup)).imp_of_mem fun {one two} oneMem twoMem both site => ?_
  obtain ⟨le, apart⟩ := both
  obtain ⟨version, inside, hit⟩ := List.mem_filterMap.mp (perm.mem_iff.mp oneMem)
  obtain ⟨version', inside', hit'⟩ := List.mem_filterMap.mp (perm.mem_iff.mp twoMem)
  obtain ⟨id, siteId, number⟩ := of_found version one hit
  obtain ⟨id', siteId', number'⟩ := of_found version' two hit'
  rcases le with below | ⟨-, newer⟩
  · exact absurd below (site ▸ lt_irrefl _)
  · refine lt_of_le_of_ne newer fun equal => apart ?_
    have same := keyed version inside version' inside'
      (siteId.symm.trans (site.trans siteId')) (Or.inr (number.symm.trans (equal.symm.trans number')))
    rw [id, id', same]

/-! ### The pass -/

variable {bucket : Bucket} {key : ManifestKey} {keys : List ManifestKey} {referenced found : List Text}
  {sha : Text}

private theorem refers_ok {body : Bytes} {files : List (Text × Text)}
    (got : bucket.getManifest key = .ok body) (read : unmarshalGcManifest body = some files) :
    bucket.Refers key sha ↔ sha ∈ (files.map Prod.snd).filter (· ≠ []) := by
  rw [List.mem_filter, decide_eq_true_iff]
  constructor
  · intro ⟨body', files', got', read', mem, filled⟩
    obtain rfl := Except.ok.inj (got.symm.trans got')
    obtain rfl := Option.some.inj (read.symm.trans read')
    exact ⟨mem, filled⟩
  · intro ⟨mem, filled⟩
    exact ⟨body, files, got, read, mem, filled⟩

private theorem refers_missing {error : GetError} (got : bucket.getManifest key = .error error) :
    ¬ bucket.Refers key sha := by
  intro ⟨body, _, ok, _⟩
  rw [got] at ok
  cases ok

theorem collectRefs_ok (collected : bucket.collectRefs referenced keys = .ok found) :
    (∀ sha, sha ∈ found ↔ sha ∈ referenced ∨ ∃ key ∈ keys, bucket.Refers key sha) ∧
      ∀ key ∈ keys, bucket.Readable key := by
  induction keys generalizing referenced with
  | nil =>
    cases collected
    exact ⟨fun sha => by simp, fun key mem => absurd mem List.not_mem_nil⟩
  | cons key keys ih =>
    rw [Bucket.collectRefs] at collected
    cases got : bucket.getManifest key with
    | error error =>
      cases error with
      | failed =>
        rw [got] at collected
        cases collected
      | notFound =>
        rw [got] at collected
        obtain ⟨refs, readable⟩ := ih collected
        refine ⟨fun sha => ?_, ?_⟩
        · rw [refs, List.exists_mem_cons_iff, or_iff_right (refers_missing got)]
        · exact List.forall_mem_cons.mpr ⟨Or.inl got, readable⟩
    | ok body =>
      rw [got] at collected
      cases read : unmarshalGcManifest body with
      | none =>
        simp only [read] at collected
        cases collected
      | some files =>
        simp only [read] at collected
        obtain ⟨refs, readable⟩ := ih collected
        refine ⟨fun sha => ?_, ?_⟩
        · rw [refs, List.exists_mem_cons_iff, refers_ok got read, List.mem_append, or_assoc]
        · exact List.forall_mem_cons.mpr ⟨Or.inr ⟨body, files, got, read⟩, readable⟩

private theorem deleteBlobs_sub {number : Nat} {shas : List Text}
    (mem : sha ∈ (bucket.deleteBlobs number shas).1) : sha ∈ shas := by
  induction shas generalizing number with
  | nil => cases mem
  | cons first rest ih =>
    rw [Bucket.deleteBlobs] at mem
    split at mem
    · rcases List.mem_cons.mp mem with rfl | later
      · exact List.mem_cons_self ..
      · exact List.mem_cons_of_mem _ (ih later)
    · rename_i removed _
      cases removed with
      | true =>
        rw [List.mem_singleton.mp mem]
        exact List.mem_cons_self ..
      | false => cases mem

private theorem deleteBlobs_all {number : Nat} {shas : List Text}
    (ran : (bucket.deleteBlobs number shas).2.2 = none) :
    (bucket.deleteBlobs number shas).1 = shas ∧
      (bucket.deleteBlobs number shas).2.1 = shas.length := by
  induction shas generalizing number with
  | nil => exact ⟨rfl, rfl⟩
  | cons first rest ih =>
    rw [Bucket.deleteBlobs] at ran ⊢
    split at ran
    · rename_i gone
      obtain ⟨all, count⟩ := ih ran
      simp only [all, count]
      exact ⟨trivial, rfl⟩
    · cases ran

/-- What a pass over the retained manifests `keys` may delete, and where it must. -/
structure DeletesGarbage (bucket : Bucket) (keys : List ManifestKey) (policy : GCPolicy) (now : Instant)
    (pass : GCPass) : Prop where
  complete : pass.error = none → policy.dryRun = false →
    ∃ infos, bucket.listBlobInfos = some infos ∧ ∀ sha, sha ∈ pass.removed ↔
      (∃ info ∈ infos, info.sha = sha ∧ info.old policy now = true) ∧
        ¬ ∃ key ∈ keys, bucket.Refers key sha
  dry : policy.dryRun = true → pass.removed = []
  safe : ∀ sha ∈ pass.removed, ¬ ∃ key ∈ keys, bucket.Refers key sha
  read : pass.removed ≠ [] → ∀ key ∈ keys, bucket.Readable key

private theorem DeletesGarbage.of_nothing {pass : GCPass} {policy : GCPolicy} {now : Instant}
    (nothing : pass.removed = []) (excused : pass.error ≠ none ∨ policy.dryRun = true) :
    DeletesGarbage bucket keys policy now pass where
  complete fine wet := by
    rcases excused with failed | dry
    · exact absurd fine failed
    · rw [wet] at dry
      cases dry
  dry _ := nothing
  safe sha mem := by
    rw [nothing] at mem
    cases mem
  read some := absurd nothing some

/-- The unreferenced blobs that are old enough. -/
def orphansOf (referenced : List Text) (infos : List BlobInfo) (policy : GCPolicy) (now : Instant) :
    List Text :=
  (((infos.filter fun info => !referenced.contains info.sha).filter (BlobInfo.old policy now)).map
    BlobInfo.sha).insertionSort fun one two => one ≤ two

private theorem mem_orphansOf {infos : List BlobInfo} {policy : GCPolicy} {now : Instant} :
    sha ∈ orphansOf referenced infos policy now ↔
      (∃ info ∈ infos, info.sha = sha ∧ info.old policy now = true) ∧ sha ∉ referenced := by
  rw [orphansOf, List.mem_insertionSort, List.mem_map]
  constructor
  · intro ⟨info, mem, same⟩
    obtain ⟨mem, old⟩ := List.mem_filter.mp mem
    obtain ⟨mem, unreferenced⟩ := List.mem_filter.mp mem
    subst same
    exact ⟨⟨info, mem, rfl, old⟩, by simpa using unreferenced⟩
  · intro ⟨⟨info, mem, same, old⟩, unreferenced⟩
    subst same
    refine ⟨info, List.mem_filter.mpr ⟨List.mem_filter.mpr ⟨mem, ?_⟩, old⟩, rfl⟩
    simpa using unreferenced

theorem gcCollectAndDelete_garbage (bucket : Bucket) (orgId : Text) (retained : List GCRow)
    (skillRetained : List (Text × Option Text)) (policy : GCPolicy) (now : Instant) :
    DeletesGarbage bucket (retainedKeys retained skillRetained) policy now
      (gcCollectAndDelete bucket orgId retained skillRetained policy now) := by
  rw [gcCollectAndDelete, ← retainedKeys]
  generalize retainedKeys retained skillRetained = keys
  cases collected : bucket.collectRefs [] keys with
  | error error => exact .of_nothing rfl (Or.inl (Option.some_ne_none error))
  | ok referenced =>
    obtain ⟨refs, readable⟩ := collectRefs_ok collected
    have refs' : ∀ sha, sha ∈ referenced ↔ ∃ key ∈ keys, bucket.Refers key sha := by
      intro sha
      rw [refs, or_iff_right List.not_mem_nil]
    cases listed : bucket.listBlobInfos with
    | none => exact .of_nothing rfl (Or.inl (Option.some_ne_none _))
    | some infos =>
      simp only
      cases dry : policy.dryRun with
      | true => exact .of_nothing rfl (Or.inr dry)
      | false =>
        simp only [Bool.false_eq_true, if_false]
        rw [← orphansOf]
        refine ⟨fun fine _ => ⟨infos, listed, fun sha => ?_⟩, fun wet => ?_, fun sha mem => ?_,
          fun _ => readable⟩
        · change sha ∈ (bucket.deleteBlobs 0 (orphansOf referenced infos policy now)).1 ↔ _
          rw [(deleteBlobs_all fine).1, mem_orphansOf, refs']
        · rw [dry] at wet
          cases wet
        · rw [← refs']
          exact (mem_orphansOf.mp (deleteBlobs_sub mem)).2

def olderVersion : GCRow := ⟨"v1".toList, ['s'], 1, true, none⟩
def newerVersion : GCRow := ⟨"v2".toList, ['s'], 2, false, none⟩

private theorem two_versions : VersionRows [newerVersion, olderVersion] where
  ids := by decide
  descending := List.pairwise_pair.mpr fun _ => by decide

/-- A blob that a retained manifest names stays, another one goes. -/
def twoBlobs : Bucket where
  getManifest _ := .ok (Utf8.encode "\x7b\"files\": \x7b\"a\": \x7b\"sha256\": \"one\"\x7d\x7d\x7d".toList)
  listBlobInfos := some [⟨"one".toList, none⟩, ⟨"two".toList, none⟩]
  deleteBlob _ _ := .done

example : (gcCollectAndDelete twoBlobs ['o'] [olderVersion] [] ⟨1, 0, false⟩ 0).removed =
    ["two".toList] := by decide +kernel

end Dropway.Api
